import IqTape.Number.Binary

/-!
# Layouts of numbers

Reports write numbers in two layouts: with a fixed number of decimal places, or
with a number of significant digits of which trailing zeros are dropped and the
exponent is written when it is small or large.  Both round the exact value once,
a tie going to the even digit.

## Main definitions

* `digits` — the decimal digits of a natural number.
* `Layout` — how a number is written.
* `Layout.write` — the text of a number in a layout.
-/

namespace IqTape

/-- How a number is written. -/
inductive Layout
  | fixed (places : Nat)
  /-- At most so many significant digits, at least one. -/
  | significant (count : Nat)
  deriving DecidableEq, Repr, Inhabited

/-- The layout that a report uses where it names none. -/
def Layout.plain : Layout := .significant 6

/-- The decimal digits of a natural number. -/
def digits (n : Nat) : List Char := Nat.toDigits 10 n

/-- The decimal digits, with zeros in front up to a width. -/
def paddedDigits (width n : Nat) : List Char :=
  let ds := digits n
  List.replicate (width - ds.length) '0' ++ ds

namespace Layout

/-- `num / den` with so many decimal places. -/
def fixedText (places num den : Nat) : List Char :=
  let n := roundEven (num * 10 ^ places) den
  let whole := digits (n / 10 ^ places)
  if places = 0 then whole else whole ++ '.' :: paddedDigits places (n % 10 ^ places)

/-- The exponent of the power of ten at or just below `num / den`. -/
def decimalExponent (num den : Nat) : Int :=
  if den ≤ num then ((digits (num / den)).length : Int) - 1
  else -((digits ((den - 1) / num)).length : Int)

/-- Drop the zeros at the end. -/
def dropTrailingZeros (ds : List Char) : List Char :=
  (ds.reverse.dropWhile (· == '0')).reverse

/-- A decimal point and digits, or nothing where there are none. -/
def pointed (ds : List Char) : List Char := if ds.isEmpty then [] else '.' :: ds

/-- `num / den` rounded to `count` digits: the digits as a number, and the
exponent of the first of them. -/
def significantDigits (count num den : Nat) : Nat × Int :=
  let e := decimalExponent num den
  let shift : Int := (count : Int) - 1 - e
  let n :=
    if 0 ≤ shift then roundEven (num * 10 ^ shift.toNat) den
    else roundEven num (den * 10 ^ (-shift).toNat)
  if n = 10 ^ count then (10 ^ (count - 1), e + 1) else (n, e)

/-- The exponent part: a sign and at least two digits. -/
def exponentText (e : Int) : List Char :=
  'e' :: (if e < 0 then '-' else '+') :: paddedDigits 2 e.natAbs

/-- Digits of which the first has an exponent.  The exponent is written when it is
below minus four or reaches a limit; zeros at the end are not. -/
def placed (limit : Int) (ds : List Char) (e : Int) : List Char :=
  if e < -4 ∨ limit ≤ e then
    ds.take 1 ++ pointed (dropTrailingZeros (ds.drop 1)) ++ exponentText e
  else if e < 0 then
    '0' :: pointed (List.replicate (e.natAbs - 1) '0' ++ dropTrailingZeros ds)
  else
    let whole := e.toNat + 1
    ds.take whole ++ List.replicate (whole - ds.length) '0' ++
      pointed (dropTrailingZeros (ds.drop whole))

/-- `num / den` with `count` significant digits.  The exponent is written when it
is below minus four or does not fit the digits. -/
def significantText (count num den : Nat) : List Char :=
  if num = 0 then ['0']
  else
    let (n, e) := significantDigits count num den
    placed count (digits n) e

/-- The text of a magnitude. -/
def magnitudeText (num den : Nat) : Layout → List Char
  | .fixed places => fixedText places num den
  | .significant count => significantText (max 1 count) num den

/-- The text of what a bit pattern stands for. -/
def datumText (layout : Layout) : Datum → List Char
  | .finite negative m q =>
    let (num, den) := scaled m 1 (-q)
    (if negative then ['-'] else []) ++ magnitudeText num den layout
  | .infinite negative => (if negative then ['-'] else []) ++ ['i', 'n', 'f']
  | .nan negative _ => (if negative then ['-'] else []) ++ ['n', 'a', 'n']

/-- The text of a number. -/
def write (layout : Layout) (x : Binary64) : String := String.ofList (layout.datumText x.datum)

/-- The text of a number in single precision. -/
def writeSingle (layout : Layout) (x : Binary32) : String := String.ofList (layout.datumText x.datum)

end Layout

/-- The decimal text of a natural number. -/
def decimal (n : Nat) : String := String.ofList (digits n)

end IqTape
