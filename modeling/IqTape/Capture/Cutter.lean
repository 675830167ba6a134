import IqTape.Capture.Queue
import IqTape.Tape.Frame

/-!
# Cutting chunks into blocks

Chunks have the size that the device likes, and the blocks of a tape all have one
size.  A cutter joins the samples of the chunks and cuts blocks off the front; at
the end what is left makes a last block.

A block is dated by the first chunk that arrived after the block before it was
cut.  A block that is cut from what was already there has no date, which is
written as zero.

## Main definitions

* `Cutter` — samples that do not fill a block yet.
* `Cutter.add`, `Cutter.cut`, `Cutter.tail` — a chunk in, blocks out, and the last
  block.
-/

namespace IqTape

/-- Whether a chunk has as many bytes as its samples take. -/
def Chunk.isWhole (c : Chunk) (size : Nat) : Bool := c.data.length == c.count.toNat * size

/-- Samples on their way into blocks. -/
structure Cutter where
  /-- The bytes of the samples. -/
  held : Bytes
  samples : UInt32
  /-- The date of the next block, if a chunk has arrived for it. -/
  date : Option UInt64
  deriving DecidableEq, Repr, Inhabited

namespace Cutter

def empty : Cutter := ⟨[], 0, none⟩

def add (c : Cutter) (chunk : Chunk) : Cutter :=
  ⟨c.held ++ chunk.data, c.samples + chunk.count, some (c.date.getD chunk.timestamp)⟩

/-- A block of `n` samples of `size` bytes from the front. -/
def front (size : Nat) (n : UInt32) (c : Cutter) : Block :=
  ⟨c.date.getD 0, n, c.held.take (n.toNat * size), false⟩

/-- What is left behind that block. -/
def rest (size : Nat) (n : UInt32) (c : Cutter) : Cutter :=
  ⟨c.held.drop (n.toNat * size), c.samples - n, none⟩

/-- Cut off blocks of `n` samples as long as there are enough; `found` holds the
blocks so far, the latest first.  Blocks without samples are not cut. -/
def cutFrom (size : Nat) (n : UInt32) (found : List Block) (c : Cutter) : List Block × Cutter :=
  if _h : 0 < n ∧ n ≤ c.samples then
    cutFrom size n (c.front size n :: found) (c.rest size n)
  else (found.reverse, c)
termination_by c.samples.toNat
decreasing_by
  have h1 := UInt32.lt_iff_toNat_lt.mp _h.1
  have h2 := UInt32.le_iff_toNat_le.mp _h.2
  simp only [rest, UInt32.toNat_sub_of_le _ _ _h.2]
  simp only [UInt32.toNat_zero] at h1
  omega

/-- Cut off blocks of `n` samples of `size` bytes as long as there are enough. -/
def cut (size : Nat) (n : UInt32) (c : Cutter) : List Block × Cutter := cutFrom size n [] c

/-- The last block, if any samples are left. -/
def tail (c : Cutter) : Option Block :=
  if c.samples = 0 then none else some ⟨c.date.getD 0, c.samples, c.held, false⟩

end Cutter

end IqTape
