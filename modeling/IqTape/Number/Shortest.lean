import IqTape.Number.Layout
import IqTape.Number.Numeral

/-!
# Short texts of numbers

Where a number is written to be read again, it gets as few digits as will do.

## Main definitions

* `Layout.reads` — whether a layout keeps a number.
* `Layout.shortest` — a short text of a number that reads back as the number.
-/

namespace IqTape

namespace Layout

/-- Whether the text of a number in a layout reads back as the number. -/
def reads (layout : Layout) (x : Binary64) : Bool :=
  (readNumeral? (layout.write x).toList).map Numeral.round == some x

/-- Seventeen digits always read back. -/
def enoughDigits : Nat := 17

/-- The fewest significant digits that keep a number. -/
def leastDigits (x : Binary64) : Nat :=
  ((List.range enoughDigits).find? fun n => (Layout.significant n).reads x).getD enoughDigits

/-- From this exponent on, a short text has an exponent. -/
def shortLimit : Int := 15

/-- Whether a text has a point or an exponent, which whole numbers have not. -/
def looksReal (text : List Char) : Bool := text.any fun c => c == '.' || c == 'e'

/-- A short text of a magnitude with so many significant digits. -/
def shortText (count num den : Nat) : List Char :=
  if num = 0 then ['0']
  else
    let (n, e) := significantDigits count num den
    placed shortLimit (digits n) e

/-- The text of a number with as few digits as will do; a whole one has a zero behind
the point. -/
def shortest (x : Binary64) : String :=
  match x.datum with
  | .finite negative m q =>
    let (num, den) := scaled m 1 (-q)
    let text := shortText (max 1 (leastDigits x)) num den
    let text := if looksReal text then text else text ++ ['.', '0']
    String.ofList (if negative then '-' :: text else text)
  | _ => plain.write x

end Layout

end IqTape
