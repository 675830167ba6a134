import IqTape.Bytes.Checksum
import IqTape.Tape.Fault
import IqTape.Tape.Registry

/-!
# Blocks and their frames

Behind the header a tape is a series of framed blocks.  A frame is

| bytes | content |
|---|---|
| 4 | length of the content |
| 4 | sample count, the content starts here |
| 8 | timestamp in nanoseconds |
| n | payload, the content ends here |
| 4 | checksum of the content |

with every number stored most significant byte first.  A frame is at most 1 MiB.

## Main definitions

* `Block` — one timestamped run of samples.
* `Block.encode` — the frame of a block.
* `Block.decode` — the block at the front of a string of bytes.
* `Block.validate` — whether the payload has the size its sample count asks for.
-/

namespace IqTape

/-- One timestamped run of samples. -/
structure Block where
  /-- When the first sample was taken, in nanoseconds since the epoch. -/
  timestamp : UInt64
  count : UInt32
  /-- The samples, or their packed form. -/
  payload : Bytes
  packed : Bool
  deriving DecidableEq, Repr, Inhabited

namespace Block

/-- The bytes of a frame that are not payload. -/
def overhead : Nat := 20

/-- The bytes of a frame's content that are not payload. -/
def fixedContent : Nat := 12

/-- The bytes of a frame that are not content. -/
def envelope : Nat := 8

/-- The largest frame. -/
def maxFrame : Nat := 1024 * 1024

/-- The size of a block's frame. -/
def frameSize (b : Block) : Nat := overhead + b.payload.length

/-- The bytes that the checksum of a frame covers. -/
def content (b : Block) : Bytes :=
  ByteOrder.big.encode 4 b.count.toNat ++ ByteOrder.big.encode 8 b.timestamp.toNat ++ b.payload

@[simp] theorem length_content (b : Block) :
    b.content.length = fixedContent + b.payload.length := by
  simp [content, fixedContent]; omega

/-- The frame of a block. -/
def frame (b : Block) : Bytes :=
  ByteOrder.big.encode 4 (fixedContent + b.payload.length) ++ b.content ++
    ByteOrder.big.encode 4 (crc32 b.content).toNat

@[simp] theorem length_frame (b : Block) : b.frame.length = b.frameSize := by
  simp [frame, frameSize, fixedContent, overhead]; omega

/-- The frame of a block, unless it would be too large. -/
def encode (b : Block) : Except Fault Bytes :=
  if maxFrame < b.frameSize then .error .invalidBlockSize else .ok b.frame

/-- The block at the front of a string of bytes, with the size of its frame.
The payload is taken to be packed when `packed` says so. -/
def decode (packed : Bool) (bs : Bytes) : Except Fault (Block × Nat) :=
  if !bs.covers overhead then .error .incomplete
  else
    let n := ByteOrder.big.decode (bs.take 4)
    if n < fixedContent ∨ maxFrame < n + envelope then .error .corrupted
    else if !bs.covers (n + envelope) then .error .incomplete
    else
      let content : Bytes := bs.drop 4
      if ByteOrder.big.decode ((content.drop n).take 4) ≠ (crc32First n content).toNat then
        .error .checksumMismatch
      else
        .ok (
          { timestamp := (ByteOrder.big.decode (content.slice 4 8)).toUInt64
            count := (ByteOrder.big.decode (content.take 4)).toUInt32
            payload := content.slice fixedContent (n - fixedContent)
            packed := packed }, n + envelope)

/-- Whether an unpacked payload has the size its sample count asks for. -/
def validate (b : Block) (format : SampleFormat) : Except Fault Unit :=
  if b.packed ∨ b.count.toNat * format.bytesPerSample = b.payload.length then .ok ()
  else .error .formatViolation

end Block

end IqTape
