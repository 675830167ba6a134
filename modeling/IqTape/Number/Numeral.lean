import IqTape.Number.Binary

/-!
# Reading numerals

Users write whole numbers in decimal, and real numbers in decimal or hexadecimal
with an optional exponent.  Text is read up to its first NUL, and blanks around
it are ignored.

A real numeral is read exactly, as a quotient, and rounded once.  It is refused
when it is too large for double precision, and when it is so small that digits
are lost because of its size.

## Main definitions

* `trim` — text without blanks at its ends.
* `readNat?` — a whole number below `2 ^ 64`.
* `Numeral`, `readNumeral?` — a real numeral as significand, base and exponent.
* `readReal?` — the number in double precision.
-/

namespace IqTape

/-- The blanks that are ignored around a value. -/
def isBlank (c : Char) : Bool := c == ' ' || c == '\t' || c == '\r' || c == '\n'

/-- Text without blanks at its ends. -/
def trim (s : List Char) : List Char :=
  ((s.dropWhile isBlank).reverse.dropWhile isBlank).reverse

/-- Letters in lower case; only the letters of ASCII have one. -/
def lower (s : List Char) : List Char := s.map Char.toLower

/-- Text up to its first NUL. -/
def untilNul (s : List Char) : List Char := s.takeWhile (· != '\x00')

/-- The number that decimal digits spell. -/
def ofDigits (base : Nat) (value : Char → Nat) (ds : List Char) : Nat :=
  ds.foldl (fun n c => n * base + value c) 0

/-- The value of a decimal digit. -/
def digitValue (c : Char) : Nat := c.toNat - '0'.toNat

/-- A digit of a hexadecimal numeral. -/
def isHexDigit (c : Char) : Bool :=
  c.isDigit || ('a' ≤ c && c ≤ 'f') || ('A' ≤ c && c ≤ 'F')

/-- The value of a hexadecimal digit. -/
def hexDigitValue (c : Char) : Nat :=
  if c.isDigit then digitValue c
  else if 'a' ≤ c then c.toNat - 'a'.toNat + 10
  else c.toNat - 'A'.toNat + 10

/-- A whole number below `2 ^ 64`, in decimal digits only. -/
def readNat? (text : List Char) : Option UInt64 :=
  let ds := untilNul (trim text)
  if ds.isEmpty || !ds.all Char.isDigit then none
  else
    let n := ofDigits 10 digitValue ds
    if n < 2 ^ 64 then some n.toUInt64 else none

/-- A real numeral: `±significand · base ^ exponent`. -/
structure Numeral where
  /-- Whether a minus stands in front. -/
  negative : Bool
  /-- The digits as a whole number. -/
  significand : Nat
  /-- Ten, or two for a hexadecimal numeral. -/
  base : Nat
  exponent : Int
  deriving DecidableEq, Repr

/-- The blanks that may stand in front of a sign. -/
def isSpace (c : Char) : Bool := isBlank c || c == '\x0b' || c == '\x0c'

/-- A sign, and the rest. -/
def splitSign : List Char → Bool × List Char
  | '-' :: s => (true, s)
  | '+' :: s => (false, s)
  | s => (false, s)

/-- The exponent at the end of a numeral: nothing, or a mark, a sign and digits. -/
def readExponent? (isMark : Char → Bool) : List Char → Option Int
  | [] => some 0
  | c :: s =>
    let (negative, ds) := splitSign s
    if isMark c && !ds.isEmpty && ds.all Char.isDigit then
      let n : Int := ofDigits 10 digitValue ds
      some (if negative then -n else n)
    else none

/-- Split digits with at most one point in them from what follows: the digits
before the point, those behind it, and the rest. -/
def splitPoint (isDigit : Char → Bool) (s : List Char) : List Char × List Char × List Char :=
  let whole := s.takeWhile isDigit
  match s.dropWhile isDigit with
  | '.' :: s => (whole, s.takeWhile isDigit, s.dropWhile isDigit)
  | s => (whole, [], s)

/-- A numeral without its sign, in decimal. -/
def readDecimal? (negative : Bool) (s : List Char) : Option Numeral :=
  let (whole, fraction, rest) := splitPoint Char.isDigit s
  if whole.isEmpty && fraction.isEmpty then none
  else
    (readExponent? (fun c => c == 'e' || c == 'E') rest).map fun e =>
      ⟨negative, ofDigits 10 digitValue (whole ++ fraction), 10, e - fraction.length⟩

/-- A numeral without its sign and its `0x`, in hexadecimal. -/
def readHex? (negative : Bool) (s : List Char) : Option Numeral :=
  let (whole, fraction, rest) := splitPoint isHexDigit s
  if whole.isEmpty && fraction.isEmpty then none
  else
    (readExponent? (fun c => c == 'p' || c == 'P') rest).map fun e =>
      ⟨negative, ofDigits 16 hexDigitValue (whole ++ fraction), 2, e - 4 * fraction.length⟩

/-- A whole text read as a numeral. -/
def readNumeral? (s : List Char) : Option Numeral :=
  let (negative, s) := splitSign (s.dropWhile isSpace)
  match s with
  | '0' :: 'x' :: s => readHex? negative s
  | '0' :: 'X' :: s => readHex? negative s
  | s => readDecimal? negative s

namespace Numeral

/-- Beyond so many digits on either side of the point, in any base, a number is
out of range. -/
def reach : Int := 1300

/-- The number of digits of the significand in the numeral's base. -/
def width (n : Numeral) : Nat := (Nat.toDigits n.base n.significand).length

/-- Places of a decimal fraction that are read one by one; of those behind them only
counts whether there are any. -/
def placesRead : Nat := 1076

/-- Whether digits stand behind the places that are read. -/
def isCut (n : Numeral) : Bool :=
  n.base == 10 && n.significand * 10 ^ placesRead % 10 ^ (-n.exponent).toNat != 0

/-- Whether rounding `num / den` loses digits because the number is small: it
stays below the least normal number even when rounded at full precision, and it
is not a multiple of the least number.  Exactly a half in the last place of full
precision is no loss, unless the numeral was cut. -/
def losesDigits (cut : Bool) (num den : Nat) : Bool :=
  let f := FloatFormat.binary64
  let leastNormal : Int := f.leastQuantum + (f.fractionBits : Int)
  let top := magnitude num den
  let last := top - (f.fractionBits : Int)
  let (a, b) := scaled num den last
  let roundsUp := roundEven a b = 2 ^ (f.fractionBits + 1)
  let kept := a / b % 2 ^ (f.leastQuantum - last).toNat = 0
  let beyond := a % b
  let noLoss := kept && (beyond == 0 || (2 * beyond == b && !cut))
  top < leastNormal && !(roundsUp && top + 1 = leastNormal) && !noLoss

/-- The power of the base just above the number. -/
def top (n : Numeral) : Int := n.exponent + n.width

/-- The number as a quotient, less its sign. -/
def ratio (n : Numeral) : Nat × Nat :=
  (n.significand * n.base ^ n.exponent.toNat, n.base ^ (-n.exponent).toNat)

/-- The number nearest to the numeral: an infinity where it is too large, and
zero where it is too small. -/
def round (n : Numeral) : Binary64 :=
  if n.significand = 0 ∨ n.top < -reach then Binary64.ofRatio n.negative 0 1
  else if reach < n.top then Binary64.infinite n.negative
  else Binary64.ofRatio n.negative n.ratio.1 n.ratio.2

/-- Whether the numeral is too small to keep its digits. -/
def vanishes (n : Numeral) : Bool :=
  n.significand != 0 && (n.top < -reach || (n.top ≤ reach && losesDigits n.isCut n.ratio.1 n.ratio.2))

/-- The number in double precision, unless it is out of range. -/
def toBinary64? (n : Numeral) : Option Binary64 :=
  if n.vanishes || !n.round.isFinite then none else some n.round

end Numeral

/-- A real number, in decimal or hexadecimal, rounded to double precision. -/
def readReal? (text : List Char) : Option Binary64 :=
  let s := trim text
  if s.isEmpty then none
  else
    match untilNul s with
    | [] => some Binary64.zero
    | s => (readNumeral? s).bind Numeral.toBinary64?

end IqTape
