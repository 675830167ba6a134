import IqTape.Lz4.Decode
import IqTape.Lz4.Search
import IqTape.Tape.Frame

/-!
# Packed payloads

A packed payload is the size of the raw one, in four bytes with the least
significant first, and a packed block.  A size that the packed block could never
rebuild is refused before anything is decoded.

## Main definitions

* `Payload.pack`, `Payload.unpack` — a payload to its packed form and back.
* `Block.pack`, `Block.unpack` — the same on the payload of a block; a block that
  already is in the wanted form is left alone.
-/

namespace IqTape

namespace Payload

/-- The bytes in front of the packed block. -/
def prefixSize : Nat := 4

/-- The largest payload that can be packed. -/
def maxRaw : Nat := 0x7E000000

/-- A packed block of `n` bytes never rebuilds more than this. -/
def reach (n : Nat) : Nat := 255 * n + 16

/-- Why a packed payload cannot be unpacked. -/
inductive UnpackFault
  /-- There is no size in front. -/
  | noSize
  /-- The packed block could not rebuild that many bytes. -/
  | impossibleSize
  /-- The packed block is damaged, or rebuilds another number of bytes. -/
  | damaged
  deriving DecidableEq, Repr, Inhabited

/-- The packed form of a payload. -/
def pack (raw : Bytes) (packer : Lz4.Packer := .greedy) : Option Bytes :=
  if maxRaw < raw.length then none
  else some (ByteOrder.little.encode prefixSize raw.length ++ packer.choose raw)

/-- The payload that a packed form stands for. -/
def unpack (packed : Bytes) : Except UnpackFault Bytes :=
  if !packed.covers prefixSize then .error .noSize
  else
    let n := ByteOrder.little.decode (packed.take prefixSize)
    let block := packed.drop prefixSize
    if maxRaw < n ∨ reach block.length < n then .error .impossibleSize
    else if n = 0 then .ok []
    else
      match Lz4.decodeBlock n block with
      | some raw => .ok raw
      | none => .error .damaged

end Payload

namespace Block

/-- The block with its payload packed. -/
def pack (b : Block) (packer : Lz4.Packer := .greedy) : Except Fault Block :=
  if b.packed then .ok b
  else
    match Payload.pack b.payload packer with
    | some payload => .ok { b with payload := payload, packed := true }
    | none => .error .compression

/-- The block with its payload unpacked. -/
def unpack (b : Block) : Except Fault Block :=
  if !b.packed then .ok b
  else
    match Payload.unpack b.payload with
    | .ok payload => .ok { b with payload := payload, packed := false }
    | .error _ => .error .compression

end Block

end IqTape
