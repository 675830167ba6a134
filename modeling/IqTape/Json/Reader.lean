import IqTape.Json.Value
import IqTape.Number.Layout
import IqTape.Number.Numeral

/-!
# Reading JSON

`Json.read` reads a whole text as one value and refuses everything that the
grammar of JSON does not allow: comments, trailing commas, bare control
characters, half of a surrogate pair, digits after a leading zero, or anything
but blanks around the value.  Of two members with one name the later counts.

A whole number outside the range of 64 bits is read as a fractional number; a
number too large for double precision is refused.

A text that is refused comes with the byte at which reading stopped.  That is the
first one that does not fit, but a word that is none of the three literals stops
reading where it begins, and a control character in a string, a bad letter behind a
backslash and a second half of a surrogate pair out of place stop it only after they
have been read.

## Main definitions

* `Json.Reading.Step` — a value and the rest of a text, or where reading stopped.
* `Json.Reading.value` — a value at the front of a text.
* `Json.ParseFault` — where a text is no JSON.
* `Json.read`, `Json.read?` — a whole text.

## Implementation notes

Every call takes at least one character or goes one level into the grammar, so
twice the length of the text is fuel enough.
-/

namespace IqTape
namespace Json
namespace Reading

/-- What was read at the front of a text, and the rest of the text; or what is left
of the text where reading stopped. -/
abbrev Step (α : Type) := Except (List Char) (α × List Char)

/-- Change what was read. -/
def Step.map {α β : Type} (f : α → β) : Step α → Step β
  | .ok (a, rest) => .ok (f a, rest)
  | .error left => .error left

/-- A text without the blanks in front. -/
def skipBlanks (s : List Char) : List Char := s.dropWhile isBlank

def expect (word : List Char) (s : List Char) : Step Unit :=
  if word.isPrefixOf s then .ok ((), s.drop word.length) else .error s

/-- The number that so many hexadecimal digits spell behind those of another. -/
def hexCode : Nat → Nat → List Char → Step Nat
  | 0, n, s => .ok (n, s)
  | _ + 1, _, [] => .error []
  | count + 1, n, c :: s =>
    if isHexDigit c then hexCode count (n * 16 + hexDigitValue c) s else .error (c :: s)

/-- The character of a code, with the second half of a pair where it is the
first half of one. -/
def unicode (s : List Char) : Step Char :=
  match hexCode 4 0 s with
  | .error left => .error left
  | .ok (n, rest) =>
    if 0xD800 ≤ n ∧ n < 0xDC00 then
      match rest with
      | '\\' :: 'u' :: rest =>
        match hexCode 4 0 rest with
        | .error left => .error left
        | .ok (m, rest) =>
          if 0xDC00 ≤ m ∧ m < 0xE000 then
            .ok (Char.ofNat (0x10000 + (n - 0xD800) * 0x400 + (m - 0xDC00)), rest)
          else .error rest
      | rest => .error rest
    else if 0xDC00 ≤ n ∧ n < 0xE000 then .error rest
    else .ok (Char.ofNat n, rest)

/-- What stands after a backslash. -/
def escaped : List Char → Step Char
  | '"' :: rest => .ok ('"', rest)
  | '\\' :: rest => .ok ('\\', rest)
  | '/' :: rest => .ok ('/', rest)
  | 'b' :: rest => .ok ('\x08', rest)
  | 'f' :: rest => .ok ('\x0c', rest)
  | 'n' :: rest => .ok ('\n', rest)
  | 'r' :: rest => .ok ('\r', rest)
  | 't' :: rest => .ok ('\t', rest)
  | 'u' :: rest => unicode rest
  | s => .error (s.drop 1)

/-- The rest of a string behind its opening quote; `found` holds the characters so
far, the latest first. -/
def string : Nat → List Char → List Char → Step String
  | 0, _, s => .error s
  | fuel + 1, found, s =>
    match s with
    | [] => .error []
    | '"' :: rest => .ok (String.ofList found.reverse, rest)
    | '\\' :: rest =>
      match escaped rest with
      | .ok (c, rest) => string fuel (c :: found) rest
      | .error left => .error left
    | c :: rest => if c.toNat < 32 then .error rest else string fuel (c :: found) rest

/-- Decimal digits, at least one. -/
def someDigits (s : List Char) : Step (List Char) :=
  let ds := s.takeWhile Char.isDigit
  if ds.isEmpty then .error s else .ok (ds, s.dropWhile Char.isDigit)

/-- The digits of the whole part: a zero alone, or digits without a leading zero. -/
def wholePart : List Char → Step (List Char)
  | '0' :: rest => .ok (['0'], rest)
  | s => someDigits s

/-- The digits behind a point, where there is one. -/
def fraction : List Char → Step (List Char)
  | '.' :: s => someDigits s
  | s => .ok ([], s)

/-- The exponent, where there is one. -/
def exponent : List Char → Step (Option Int)
  | c :: s =>
    if c = 'e' ∨ c = 'E' then
      let (negative, s) := splitSign s
      (someDigits s).map fun ds =>
        let n : Int := ofDigits 10 digitValue ds
        some (if negative then -n else n)
    else .ok (none, c :: s)
  | [] => .ok (none, [])

/-- The number that a numeral stands for. -/
def numberValue? (negative : Bool) (whole fraction : List Char) (exponent : Option Int) :
    Option Json :=
  let n : Int := ofDigits 10 digitValue whole
  let signed := if negative then -n else n
  if fraction.isEmpty && exponent.isNone && -2 ^ 63 ≤ signed && signed < 2 ^ 64 then
    some (.integer signed)
  else
    let numeral : Numeral :=
      ⟨negative, ofDigits 10 digitValue (whole ++ fraction), 10,
        exponent.getD 0 - fraction.length⟩
    if numeral.round.isFinite then some (.real numeral.round) else none

def number (s : List Char) : Step Json :=
  let (negative, s) := match s with
    | '-' :: s => (true, s)
    | s => (false, s)
  match wholePart s with
  | .error left => .error left
  | .ok (whole, s) =>
    match fraction s with
    | .error left => .error left
    | .ok (fraction, s) =>
      match exponent s with
      | .error left => .error left
      | .ok (exponent, s) =>
        match numberValue? negative whole fraction exponent with
        | some v => .ok (v, s)
        | none => .error s

/-- Values that are neither lists nor objects. -/
def scalar (s : List Char) : Step Json :=
  match s with
  | '"' :: rest => (string (rest.length + 1) [] rest).map .string
  | 'n' :: _ => (expect ['n', 'u', 'l', 'l'] s).map fun _ => .null
  | 't' :: _ => (expect ['t', 'r', 'u', 'e'] s).map fun _ => .bool true
  | 'f' :: _ => (expect ['f', 'a', 'l', 's', 'e'] s).map fun _ => .bool false
  | _ => number s

/-- The name of a member and the colon behind it. -/
def memberName (s : List Char) : Step String :=
  match skipBlanks s with
  | '"' :: rest =>
    match string (rest.length + 1) [] rest with
    | .error left => .error left
    | .ok (name, rest) =>
      match skipBlanks rest with
      | ':' :: rest => .ok (name, rest)
      | left => .error left
  | left => .error left

mutual

/-- A value at the front of a text, after blanks. -/
def value : Nat → List Char → Step Json
  | 0, s => .error s
  | fuel + 1, s =>
    match skipBlanks s with
    | '[' :: rest =>
      match skipBlanks rest with
      | ']' :: rest => .ok (.array [], rest)
      | _ => (values fuel [] rest).map .array
    | '\x7b' :: rest =>
      match skipBlanks rest with
      | '\x7d' :: rest => .ok (.object [], rest)
      | _ => (members fuel [] rest).map .object
    | s => scalar s

/-- The values of a list, up to its closing bracket. -/
def values : Nat → List Json → List Char → Step (List Json)
  | 0, _, s => .error s
  | fuel + 1, found, s =>
    match value fuel s with
    | .error left => .error left
    | .ok (v, rest) =>
      match skipBlanks rest with
      | ',' :: rest => values fuel (v :: found) rest
      | ']' :: rest => .ok ((v :: found).reverse, rest)
      | left => .error left

/-- The members of an object, up to its closing brace. -/
def members : Nat → List (String × Json) → List Char → Step (List (String × Json))
  | 0, _, s => .error s
  | fuel + 1, found, s =>
    match memberName s with
    | .error left => .error left
    | .ok (name, rest) =>
      match value fuel rest with
      | .error left => .error left
      | .ok (v, rest) =>
        match skipBlanks rest with
        | ',' :: rest => members fuel (put name v found) rest
        | '\x7d' :: rest => .ok (put name v found, rest)
        | left => .error left

end

/-- A value with nothing but blanks around it. -/
def whole (text : List Char) : Except (List Char) Json :=
  match value (2 * text.length + 2) text with
  | .error left => .error left
  | .ok (v, rest) =>
    match skipBlanks rest with
    | [] => .ok v
    | left => .error left

end Reading

/-- A text is no JSON. -/
structure ParseFault where
  /-- The byte at which reading stopped; the first of a text is one. -/
  byte : Nat
  deriving DecidableEq, Repr, Inhabited

/-- What is said about a text that is no JSON. -/
def ParseFault.message (f : ParseFault) : String := "parse error at byte " ++ decimal f.byte

/-- Reading a text stopped where so much of it was left. -/
def ParseFault.leaving (text left : List Char) : ParseFault :=
  let size (s : List Char) : Nat := (String.ofList s).utf8ByteSize
  ⟨size text - size left + 1⟩

/-- The value that a whole text spells. -/
def read (text : List Char) : Except ParseFault Json :=
  (Reading.whole text).mapError (.leaving text)

/-- The value that a whole text spells, if it spells one. -/
def read? (text : List Char) : Option Json := (read text).toOption

end Json
end IqTape
