import IqTape.Lz4.Plan

/-!
# Reading packed blocks safely

`Plan.ofBlock? size block` reads a packed block that claims to rebuild `size`
bytes.  It never looks outside the block and never promises more than `size`
bytes, whatever the block holds; a block is refused unless its last literals end
exactly where the block does.

Near the two ends the format is restricted: after the literals of a sequence at
least `matchMargin` bytes are still to be rebuilt and eight bytes still to be
read, and a copy stops `lastLiterals` bytes before the end.  A short sequence
that starts far enough from both ends is *roomy*: its literals are taken without
these tests, and so is its copy when it does not overlap itself within eight
bytes.

## Main definitions

* `readLength` — the rest of a length that did not fit the token.
* `readSequence` — one sequence, or the last literals.
* `Plan.ofBlock?` — the plan that a packed block says.
* `decodeBlock` — the bytes that a packed block rebuilds.
-/

namespace IqTape
namespace Lz4

/-- Add up the bytes of a long length.  A byte below 255 ends it, and at least
`keep` of the `left` bytes must remain behind every byte read. -/
def readLength (keep : Nat) : Nat → Nat → Bytes → Option (Nat × Nat × Bytes)
  | _, _, [] => none
  | total, left, b :: rest =>
    if left < keep + 1 then none
    else if b = 255 then readLength keep (total + 255) (left - 1) rest
    else some (total + b.toNat, left - 1, rest)

/-- The rest of a length whose half of the token is `half`. -/
def readTail (keep half left : Nat) (src : Bytes) : Option (Nat × Nat × Bytes) :=
  if half = 15 then readLength keep 15 left src else some (half, left, src)

/-- Behind a long literal length at least fifteen bytes follow. -/
def literalReserve : Nat := 15

/-- Behind a long copy length at least four bytes follow. -/
def copyReserve : Nat := 4

/-- What comes next in a packed block. -/
inductive Step
  /-- A sequence, with what is left of the block. -/
  | sequence (s : Sequence) (left : Nat) (rest : Bytes)
  /-- The last literals. -/
  | final (literals : Bytes)
  deriving DecidableEq, Repr

/-- The copy of a sequence whose literals have been read.  `made` bytes have been
rebuilt so far, and `half` is the copy's half of the token. -/
def readCopy (size made half : Nat) (roomy : Bool) (literals : Bytes) (left : Nat) (src : Bytes) :
    Option Step :=
  let distance := ByteOrder.little.decode (src.take 2)
  match readTail copyReserve half (left - 2) (src.drop 2) with
  | none => none
  | some (extra, left, rest) =>
    let length := extra + minMatch
    if made < distance then none
    else if roomy && half < 15 && 8 ≤ distance then
      some (.sequence ⟨literals, distance, length⟩ left rest)
    else if size < made + length + lastLiterals then none
    else some (.sequence ⟨literals, distance, length⟩ left rest)

/-- The next step of a block of which `left` bytes are unread, when `made` of the
`size` bytes have been rebuilt. -/
def readStep (size made left : Nat) : Bytes → Option Step
  | [] => none
  | t :: src =>
    let run := t.toNat / 16
    let half := t.toNat % 16
    let left := left - 1
    if run < 15 ∧ 17 ≤ left ∧ made + 32 ≤ size then
      readCopy size (made + run) half true (src.take run) (left - run) (src.drop run)
    else
      match readTail literalReserve run left src with
      | none => none
      | some (run, left, src) =>
        if size < made + run + matchMargin ∨ left < run + 8 then
          if left = run ∧ made + run ≤ size then some (.final src) else none
        else readCopy size (made + run) half false (src.take run) (left - run) (src.drop run)

/-- Read steps until the last literals; `found` holds the sequences so far, the
latest first.  Each step uses up a byte, so `fuel` may be the block's length. -/
def readSteps (size : Nat) : Nat → Nat → Nat → Bytes → List Sequence → Option (Nat × Plan)
  | 0, _, _, _, _ => none
  | fuel + 1, made, left, src, found =>
    match readStep size made left src with
    | none => none
    | some (.final literals) => some (made + literals.length, ⟨found.reverse, literals⟩)
    | some (.sequence s left rest) =>
      readSteps size fuel (made + s.literals.length + s.length) left rest (s :: found)

/-- The plan of a packed block that rebuilds exactly `size` bytes. -/
def Plan.ofBlock? (size : Nat) (block : Bytes) : Option Plan :=
  match readSteps size block.length 0 block.length block [] with
  | some (made, p) => if made = size then some p else none
  | none => none

/-- The `size` bytes that a packed block rebuilds. -/
def decodeBlock (size : Nat) (block : Bytes) : Option Bytes :=
  (Plan.ofBlock? size block).map Plan.expand

end Lz4
end IqTape
