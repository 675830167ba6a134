import IqTape.Number.Rounding

/-!
# Binary floating-point numbers

A number of a binary format is a sign, a whole significand and the power of two
that scales it; arithmetic is exact on those and then rounded once, to the
nearest number of the format with ties to the even significand.  Only what is
needed to pace a replay, to scale a frequency and to report rates is defined.

## Main definitions

* `FloatFormat`, `FloatFormat.binary64`, `FloatFormat.binary32` — the widths.
* `Datum` — a finite number, an infinity or not a number.
* `FloatFormat.datum`, `FloatFormat.nearest` — reading a bit pattern, and the bit
  pattern nearest to a quotient.
* `Binary64`, `Binary32` — bit patterns of the two formats.
* `Binary64.mul`, `Binary64.div`, `Binary64.ofNat`, `Binary64.lt` — arithmetic.
* `Binary64.toInt64`, `Binary64.toInt32`, `Binary64.toWord`, `Binary64.castWord` — the
  whole part as a word.
* `Binary32.widen`, `Binary64.narrow` — between the formats.
-/

namespace IqTape

/-- The widths of a binary floating-point format. -/
structure FloatFormat where
  fractionBits : Nat
  exponentBits : Nat
  deriving DecidableEq, Repr

/-- What a bit pattern stands for. -/
inductive Datum
  /-- `±m · 2 ^ q`; zero keeps its sign. -/
  | finite (negative : Bool) (m : Nat) (q : Int)
  | infinite (negative : Bool)
  /-- No number; the sign and the fraction are kept but mean nothing. -/
  | nan (negative : Bool) (fraction : Nat)
  deriving DecidableEq, Repr

namespace FloatFormat

def binary64 : FloatFormat := ⟨52, 11⟩

def binary32 : FloatFormat := ⟨23, 8⟩

/-- The exponent of the last bit of the least numbers. -/
def leastQuantum (f : FloatFormat) : Int :=
  2 - (2 ^ (f.exponentBits - 1) : Nat) - (f.fractionBits : Int)

/-- The largest exponent field, which marks infinities and what is no number. -/
def topField (f : FloatFormat) : Nat := 2 ^ f.exponentBits - 1

/-- The pattern of positive infinity. -/
def infinity (f : FloatFormat) : Nat := f.topField * 2 ^ f.fractionBits

/-- The pattern of a set sign alone. -/
def signMask (f : FloatFormat) : Nat := 2 ^ (f.fractionBits + f.exponentBits)

/-- What a bit pattern stands for. -/
def datum (f : FloatFormat) (bits : Nat) : Datum :=
  let negative := decide (bits / f.signMask % 2 = 1)
  let fieldValue := bits / 2 ^ f.fractionBits % 2 ^ f.exponentBits
  let fraction := bits % 2 ^ f.fractionBits
  if fieldValue = f.topField then
    if fraction = 0 then .infinite negative else .nan negative fraction
  else if fieldValue = 0 then .finite negative fraction f.leastQuantum
  else
    .finite negative (2 ^ f.fractionBits + fraction) (f.leastQuantum + (fieldValue : Int) - 1)

/-- The exponent of the last bit that the format keeps of `num / den`. -/
def quantum (f : FloatFormat) (num den : Nat) : Int :=
  max f.leastQuantum (magnitude num den - (f.fractionBits : Int))

/-- The pattern of the number nearest to `num / den`, without its sign; past the
largest number that is infinity.  A significand that rounds up to a power of two
carries into the exponent by itself. -/
def nearest (f : FloatFormat) (num den : Nat) : Nat :=
  if num = 0 then 0
  else
    let q := f.quantum num den
    let (a, b) := scaled num den q
    min f.infinity ((q - f.leastQuantum).toNat * 2 ^ f.fractionBits + roundEven a b)

/-- Put a sign on a pattern. -/
def signed (f : FloatFormat) (negative : Bool) (bits : Nat) : Nat :=
  if negative then f.signMask + bits else bits

/-- The pattern of what is no number, with the top bit of its fraction set. -/
def nan (f : FloatFormat) (negative : Bool) (fraction : Nat) : Nat :=
  f.signed negative (f.infinity + (fraction ||| 2 ^ (f.fractionBits - 1)))

end FloatFormat

/-- A number in double precision, by its bit pattern. -/
structure Binary64 where
  bits : UInt64
  deriving DecidableEq, Repr, Inhabited

/-- A number in single precision, by its bit pattern. -/
structure Binary32 where
  bits : UInt32
  deriving DecidableEq, Repr, Inhabited

namespace Binary64

/-- What the number stands for. -/
def datum (x : Binary64) : Datum := FloatFormat.binary64.datum x.bits.toNat

/-- The number whose pattern is a natural number below `2 ^ 64`. -/
def ofPattern (bits : Nat) : Binary64 := ⟨bits.toUInt64⟩

/-- The number nearest to `±num / den`. -/
def ofRatio (negative : Bool) (num den : Nat) : Binary64 :=
  ofPattern (FloatFormat.binary64.signed negative (FloatFormat.binary64.nearest num den))

/-- The number nearest to `±m · 2 ^ q`. -/
def ofScaled (negative : Bool) (m : Nat) (q : Int) : Binary64 :=
  let (num, den) := scaled m 1 (-q)
  ofRatio negative num den

/-- The number nearest to a natural number. -/
def ofNat (n : Nat) : Binary64 := ofRatio false n 1

/-- The number nearest to an integer. -/
def ofInt (n : Int) : Binary64 := ofRatio (decide (n < 0)) n.natAbs 1

def infinite (negative : Bool) : Binary64 :=
  ofPattern (FloatFormat.binary64.signed negative FloatFormat.binary64.infinity)

/-- The outcome of an operation that has none. -/
def invalid : Binary64 := ofPattern (FloatFormat.binary64.nan true 0)

/-- An operand that is no number, handed on. -/
def propagate (negative : Bool) (fraction : Nat) : Binary64 :=
  ofPattern (FloatFormat.binary64.nan negative fraction)

/-- Positive zero. -/
def zero : Binary64 := ⟨0⟩

def one : Binary64 := ofNat 1

/-- The product, rounded to nearest. -/
def mul (x y : Binary64) : Binary64 :=
  match x.datum, y.datum with
  | .nan s p, _ => propagate s p
  | _, .nan s p => propagate s p
  | .finite s m q, .finite t n r => ofScaled (s != t) (m * n) (q + r)
  | .infinite s, .infinite t => infinite (s != t)
  | .infinite s, .finite t n _ => if n = 0 then invalid else infinite (s != t)
  | .finite s m _, .infinite t => if m = 0 then invalid else infinite (s != t)

/-- The quotient, rounded to nearest. -/
def div (x y : Binary64) : Binary64 :=
  match x.datum, y.datum with
  | .nan s p, _ => propagate s p
  | _, .nan s p => propagate s p
  | .finite s m q, .finite t n r =>
    if n = 0 then (if m = 0 then invalid else infinite (s != t))
    else
      let (num, den) := scaled m n (r - q)
      ofRatio (s != t) num den
  | .infinite _, .infinite _ => invalid
  | .infinite s, .finite t _ _ => infinite (s != t)
  | .finite s _ _, .infinite t => ofRatio (s != t) 0 1

/-- `±m · 2 ^ q` as an integer over a power of two, `2 ^ q` being at least `2 ^ base`. -/
def aligned (negative : Bool) (m : Nat) (q base : Int) : Int :=
  let n : Int := m * 2 ^ (q - base).toNat
  if negative then -n else n

/-- Whether one number is less than another; what is no number never is. -/
def lt (x y : Binary64) : Bool :=
  match x.datum, y.datum with
  | .finite s m q, .finite t n r =>
    let base := min q r
    decide (aligned s m q base < aligned t n r base)
  | .infinite s, .infinite t => s && !t
  | .infinite s, .finite _ _ _ => s
  | .finite _ _ _, .infinite t => !t
  | _, _ => false

/-- Whether the number is finite. -/
def isFinite (x : Binary64) : Bool :=
  match x.datum with
  | .finite _ _ _ => true
  | _ => false

/-- The larger of two numbers; the first when they do not compare. -/
def max (x y : Binary64) : Binary64 := if x.lt y then y else x

/-- The whole part of `m · 2 ^ q`. -/
def wholePart (m : Nat) (q : Int) : Nat :=
  let (num, den) := scaled m 1 (-q)
  num / den

/-- The nearest natural number to a magnitude `m · 2 ^ q`; a half goes up. -/
def nearestWhole (m : Nat) (q : Int) : Nat :=
  let (num, den) := scaled m 1 (-q)
  roundUp num den

/-- The whole part as a signed word of 64 bits; what does not fit gives the
least such word. -/
def toInt64 (x : Binary64) : Int :=
  match x.datum with
  | .finite s m q =>
    let n : Int := if s then -(wholePart m q : Int) else wholePart m q
    if -2 ^ 63 ≤ n ∧ n < 2 ^ 63 then n else -2 ^ 63
  | _ => -2 ^ 63

/-- The whole part of a positive number as a word of 64 bits; anything that does not
fit gives zero. -/
def toWord (x : Binary64) : UInt64 :=
  match x.datum with
  | .finite false m q => if wholePart m q < 2 ^ 64 then (wholePart m q).toUInt64 else 0
  | _ => 0

/-- The whole part as a word of 64 bits.  A negative one wraps around, and what does
not fit gives the least number of the signed word or, if it is positive, zero. -/
def castWord (x : Binary64) : UInt64 :=
  match x.datum with
  | .finite false _ _ | .infinite false => x.toWord
  | _ => UInt64.ofInt x.toInt64

/-- The whole part as a signed word of 32 bits; what does not fit gives the least
such word. -/
def toInt32 (x : Binary64) : Int :=
  let n := x.toInt64
  if -2 ^ 31 ≤ n ∧ n < 2 ^ 31 then n else -2 ^ 31

/-- The nearest number in single precision. -/
def narrow (x : Binary64) : Binary32 :=
  let f := FloatFormat.binary32
  match x.datum with
  | .finite s m q =>
    let (num, den) := scaled m 1 (-q)
    ⟨(f.signed s (f.nearest num den)).toUInt32⟩
  | .infinite s => ⟨(f.signed s f.infinity).toUInt32⟩
  | .nan s p => ⟨(f.nan s (p / 2 ^ 29)).toUInt32⟩

end Binary64

namespace Binary32

/-- What the number stands for. -/
def datum (x : Binary32) : Datum := FloatFormat.binary32.datum x.bits.toNat

/-- The number nearest to an integer. -/
def ofInt (n : Int) : Binary32 :=
  let f := FloatFormat.binary32
  ⟨(f.signed (decide (n < 0)) (f.nearest n.natAbs 1)).toUInt32⟩

/-- The same number in double precision. -/
def widen (x : Binary32) : Binary64 :=
  match x.datum with
  | .finite s m q => Binary64.ofScaled s m q
  | .infinite s => Binary64.infinite s
  | .nan s p => Binary64.propagate s (p * 2 ^ 29)

end Binary32

end IqTape
