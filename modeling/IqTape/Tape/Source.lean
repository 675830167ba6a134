import IqTape.Bytes.Word

/-!
# Sources

What a tape is read from: bytes that are delivered in pieces, and perhaps a point
at which reading fails.  A read that runs into that point delivers nothing.

## Main definitions

* `Source` — the bytes still to come.
* `Source.read` — the next so many bytes.

## Main results

* `Source.read_of_reliable` — a source without a failure delivers what it holds.
-/

namespace IqTape

/-- Something that bytes are read from. -/
structure Source where
  /-- The bytes that have not been read. -/
  rest : Bytes
  /-- How many of them can be read before reading fails. -/
  breaksAfter : Option Nat
  deriving DecidableEq, Repr, Inhabited

namespace Source

/-- A source that delivers everything. -/
def ofBytes (bs : Bytes) : Source := ⟨bs, none⟩

/-- A source that cannot be read, such as a directory. -/
def unreadable : Source := ⟨[], some 0⟩

/-- Whether a read of `n` bytes of which `got` are there runs into the failure:
it would deliver a byte beyond it, or it is cut short just before it. -/
def runsInto (breaksAfter : Option Nat) (n got : Nat) : Bool :=
  match breaksAfter with
  | none => false
  | some k => decide (k < got ∨ (k = got ∧ got < n))

/-- The next `n` bytes, fewer at the end; `none` if reading fails. -/
def read (s : Source) (n : Nat) : Option (Bytes × Source) :=
  let got := s.rest.take n
  let count := got.length
  if runsInto s.breaksAfter n count then none
  else some (got, ⟨s.rest.drop n, s.breaksAfter.map (· - count)⟩)

@[simp] theorem read_of_reliable (bs : Bytes) (n : Nat) :
    (Source.mk bs none).read n = some (bs.take n, ⟨bs.drop n, none⟩) := by
  simp [read, runsInto]

end Source

end IqTape
