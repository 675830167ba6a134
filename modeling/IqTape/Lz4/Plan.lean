import IqTape.Bytes.Word

/-!
# Packed blocks as plans

A packed block says how to rebuild a string of bytes: a series of sequences,
each some literal bytes followed by a copy from a given distance back, and then
a last run of literals.  A *plan* is that series as data.  It has a meaning
(`Plan.expand`, the bytes it rebuilds) and a written form (`Plan.encode`).

## Main definitions

* `Sequence`, `Plan` — the parts of a packed block.
* `copyBack` — a copy that may run into the bytes it is writing.
* `Plan.expand` — the bytes that a plan rebuilds.
* `Plan.encode` — the packed block that says a plan.

## Implementation notes

The rebuilt bytes are kept in an array, because a copy looks up to 65535 bytes
back.
-/

namespace IqTape
namespace Lz4

/-- Literal bytes, then a copy. -/
structure Sequence where
  /-- The bytes that stand for themselves. -/
  literals : Bytes
  /-- How far back the copy starts. -/
  distance : Nat
  /-- How many bytes are copied, at least `minMatch`. -/
  length : Nat
  deriving DecidableEq, Repr, Inhabited

/-- What a packed block says. -/
structure Plan where
  sequences : List Sequence
  /-- The literals after the last copy. -/
  final : Bytes
  deriving DecidableEq, Repr, Inhabited

/-! ### Sizes of the format -/

/-- The shortest copy that can be written. -/
def minMatch : Nat := 4

/-- A copy reaches back at most this far. -/
def maxDistance : Nat := 65535

/-- So many bytes at the end are always literals. -/
def lastLiterals : Nat := 5

/-- A copy starts at least so many bytes before the end. -/
def matchMargin : Nat := 12

/-! ### Meaning -/

/-- Append `n` bytes, each a repeat of the one `distance` back.  A distance of
zero names the byte about to be written, which reads as zero. -/
def copyBack (distance : Nat) : Nat → Array UInt8 → Array UInt8
  | 0, out => out
  | n + 1, out => copyBack distance n (out.push (out.getD (out.size - distance) 0))

/-- Append a string of bytes. -/
def appendAll (out : Array UInt8) (bs : Bytes) : Array UInt8 := bs.foldl Array.push out

/-- Append what a sequence says. -/
def Sequence.extend (out : Array UInt8) (s : Sequence) : Array UInt8 :=
  copyBack s.distance s.length (appendAll out s.literals)

/-- The bytes that a plan rebuilds. -/
def Plan.expand (p : Plan) : Bytes :=
  (appendAll (p.sequences.foldl Sequence.extend #[]) p.final).toList

@[simp] theorem size_copyBack (distance n : Nat) (out : Array UInt8) :
    (copyBack distance n out).size = out.size + n := by
  induction n generalizing out with
  | zero => rfl
  | succ n ih => simp [copyBack, ih]; omega

@[simp] theorem appendAll_eq (out : Array UInt8) (bs : Bytes) :
    appendAll out bs = out ++ bs.toArray := by
  induction bs generalizing out with
  | nil => simp [appendAll]
  | cons b bs ih =>
    have h := ih (out.push b)
    simp only [appendAll] at h ⊢
    simp [h]

@[simp] theorem size_extend (out : Array UInt8) (s : Sequence) :
    (s.extend out).size = out.size + s.literals.length + s.length := by
  simp [Sequence.extend]

/-! ### Written form -/

/-- The half of a token byte that holds a length; fifteen means that more follows. -/
def nibble (n : Nat) : Nat := min n 15

/-- The bytes after the token that hold what is over fifteen of a length. -/
def lengthTail (n : Nat) : Bytes :=
  if n < 15 then [] else List.replicate ((n - 15) / 255) 255 ++ [UInt8.ofNat ((n - 15) % 255)]

/-- The byte that opens a sequence. -/
def token (literals extra : Nat) : UInt8 := UInt8.ofNat (16 * nibble literals + nibble extra)

/-- The bytes that say a sequence. -/
def Sequence.encode (s : Sequence) : Bytes :=
  token s.literals.length (s.length - minMatch) ::
    (lengthTail s.literals.length ++ s.literals ++ ByteOrder.little.encode 2 s.distance ++
      lengthTail (s.length - minMatch))

/-- The bytes that say the last literals. -/
def encodeFinal (bs : Bytes) : Bytes := token bs.length 0 :: (lengthTail bs.length ++ bs)

/-- The packed block that says a plan. -/
def Plan.encode (p : Plan) : Bytes := p.sequences.flatMap Sequence.encode ++ encodeFinal p.final

end Lz4
end IqTape
