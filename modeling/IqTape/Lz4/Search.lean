import IqTape.Lz4.Plan

/-!
# Finding a plan

`Plan.of raw` is a greedy plan for a string of bytes.  At each place it looks up
the latest earlier place that started with a similar four bytes, measures how far
the two agree, and copies when they agree on at least `minMatch` bytes.  The
lookup is only a hint: what is copied has always been compared, so the plan says
its input whatever the table holds.

## Main definitions

* `agreement` — how far two places of a string agree.
* `Plan.of` — a plan for a string of bytes.
* `encodeBlock` — a packed block for a string of bytes.
* `Packer` — a compressor, of which `Packer.greedy` is one.
-/

namespace IqTape
namespace Lz4

/-- How many bytes from `p` on repeat those from `c` on, added to `found`; at
most `n` are compared. -/
def agreement (raw : Array UInt8) (c p : Nat) : Nat → Nat → Nat
  | 0, found => found
  | n + 1, found =>
    if raw.getD (c + found) 0 = raw.getD (p + found) 0 then agreement raw c p n (found + 1)
    else found

/-- The number of entries in the table of places. -/
def tableSize : Nat := 4096

/-- The table entry for the four bytes at a place. -/
def tableSlot (raw : Array UInt8) (p : Nat) : Nat :=
  let b (i : Nat) : UInt32 := (raw.getD (p + i) 0).toUInt32
  let word := b 0 ||| (b 1 <<< 8) ||| (b 2 <<< 16) ||| (b 3 <<< 24)
  ((word * 2654435761) >>> 20).toNat

/-- A copy that may be made at `p` from an earlier place `c`: it stays within
reach, ends before the last literals, and is long enough to be written. -/
def copyAt? (raw : Array UInt8) (c p : Nat) : Option Nat :=
  if c < p ∧ p ≤ c + maxDistance then
    let n := agreement raw c p (raw.size - lastLiterals - p) 0
    if minMatch ≤ n then some n else none
  else none

/-- Plan the bytes from `anchor` on, of which those before `p` are known to be
literals.  The table holds one more than the latest place for each entry. -/
def planFrom (raw : Array UInt8) : Nat → Nat → Nat → Array Nat → List Sequence → Plan
  | 0, anchor, _, _, found => ⟨found.reverse, (raw.extract anchor raw.size).toList⟩
  | fuel + 1, anchor, p, places, found =>
    if raw.size < p + matchMargin then
      ⟨found.reverse, (raw.extract anchor raw.size).toList⟩
    else
      let slot := tableSlot raw p
      let place := places.getD slot 0
      let places := places.setIfInBounds slot (p + 1)
      match (if place = 0 then none else copyAt? raw (place - 1) p) with
      | none => planFrom raw fuel anchor (p + 1) places found
      | some n =>
        planFrom raw fuel (p + n) (p + n) places
          (⟨(raw.extract anchor p).toList, p - (place - 1), n⟩ :: found)

/-- A plan that rebuilds a string of bytes. -/
def Plan.of (raw : Bytes) : Plan :=
  let bytes := raw.toArray
  planFrom bytes bytes.size 0 0 (Array.replicate tableSize 0) []

/-- A packed block that rebuilds a string of bytes. -/
def encodeBlock (raw : Bytes) : Bytes := (Plan.of raw).encode

/-- A compressor.  The format leaves it open which of the packed blocks that rebuild a
string of bytes is chosen. -/
structure Packer where
  /-- The packed block that is chosen for a string of bytes. -/
  choose : Bytes → Bytes

/-- The compressor that follows the greedy plan. -/
def Packer.greedy : Packer := ⟨encodeBlock⟩

instance : Inhabited Packer := ⟨.greedy⟩

end Lz4
end IqTape
