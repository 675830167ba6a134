import IqTape.Tape.Frame

/-!
# Datagrams

A block is sent as one datagram: its timestamp in eight bytes, its sample count
in two, and the payload, numbers with the most significant byte first.

## Main definitions

* `Datagram` — what a datagram carries.
* `Datagram.encode`, `Datagram.decode` — a block to bytes, and bytes to what they
  carry.
-/

namespace IqTape

/-- What a datagram carries. -/
structure Datagram where
  /-- When the first sample was taken. -/
  timestamp : UInt64
  count : UInt16
  payload : Bytes
  deriving DecidableEq, Repr, Inhabited

namespace Datagram

/-- The largest content of a datagram. -/
def maxSize : Nat := 65507

/-- The bytes in front of the payload. -/
def headerSize : Nat := 10

/-- The largest payload. -/
def maxPayload : Nat := maxSize - headerSize

/-- The bytes of the datagram for a block.  A packed block is not sent, nor one
whose payload or count does not fit. -/
def encode (b : Block) : Except Fault Bytes :=
  if b.packed then .error .compression
  else if maxPayload < b.payload.length ∨ 0xFFFF < b.count.toNat then .error .invalidBlockSize
  else
    .ok (ByteOrder.big.encode 8 b.timestamp.toNat ++ ByteOrder.big.encode 2 b.count.toNat ++
      b.payload)

/-- What a datagram carries, unless it is too short for its header. -/
def decode (bs : Bytes) : Except Fault Datagram :=
  if !bs.covers headerSize then .error .incomplete
  else
    .ok ⟨(ByteOrder.big.decode (bs.take 8)).toUInt64,
      (ByteOrder.big.decode (bs.slice 8 2)).toUInt16, bs.drop headerSize⟩

end Datagram

end IqTape
