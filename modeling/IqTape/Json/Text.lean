import IqTape.Json.Value
import IqTape.Number.Shortest

/-!
# JSON texts

A value is written on one line without blanks, or over several lines with a value
of a list or object on each.  The members of an object are written in the order of
their names, whatever order they were given in.

## Main definitions

* `Json.ordered` — a value with the members of its objects in order.
* `Json.compact`, `Json.pretty` — the text of a value, on one line or on several.
-/

namespace IqTape
namespace Json

/-! ### Order -/

/-- Members with one more put where its name belongs. -/
def insertMember (name : String) (value : Json) : List (String × Json) → List (String × Json)
  | [] => [(name, value)]
  | (k, v) :: rest =>
    if name < k then (name, value) :: (k, v) :: rest
    else (k, v) :: insertMember name value rest

mutual

/-- A value with the members of its objects in the order of their names. -/
def ordered : Json → Json
  | .array values => .array (orderedValues values)
  | .object members => .object (orderedMembers members)
  | j => j

/-- Values with the members of their objects in order. -/
def orderedValues : List Json → List Json
  | [] => []
  | v :: rest => ordered v :: orderedValues rest

/-- Members in the order of their names. -/
def orderedMembers : List (String × Json) → List (String × Json)
  | [] => []
  | (k, v) :: rest => insertMember k (ordered v) (orderedMembers rest)

end

/-! ### Text -/

/-- The four hexadecimal digits of a control character. -/
def controlCode (c : Char) : List Char :=
  let ds := Nat.toDigits 16 c.toNat
  List.replicate (4 - ds.length) '0' ++ ds

/-- A character inside quotes. -/
def escape (c : Char) : List Char :=
  if c = '"' then ['\\', '"']
  else if c = '\\' then ['\\', '\\']
  else if c = '\x08' then ['\\', 'b']
  else if c = '\x0c' then ['\\', 'f']
  else if c = '\n' then ['\\', 'n']
  else if c = '\r' then ['\\', 'r']
  else if c = '\t' then ['\\', 't']
  else if c.toNat < 32 then '\\' :: 'u' :: controlCode c
  else [c]

/-- A text in quotes. -/
def quoted (s : String) : String :=
  String.ofList ('"' :: (s.toList.flatMap escape ++ ['"']))

/-- A number with a fraction; a number that is none has no text of its own. -/
def realText (x : Binary64) : String := if x.isFinite then Layout.shortest x else "null"

/-- How many blanks a list or object puts in front of its values. -/
def indentation : Nat := 2

/-- Where the next value starts: on the same line, or so many blanks into a new one. -/
def newLine : Option Nat → String
  | none => ""
  | some depth => String.ofList ('\n' :: List.replicate depth ' ')

/-- The depth inside a list or object. -/
def inside (depth : Option Nat) : Option Nat := depth.map (· + indentation)

/-- What stands between a name and its value. -/
def colon (depth : Option Nat) : String := if depth.isSome then ": " else ":"

mutual

/-- The text of a value at a depth, or on one line. -/
def text (depth : Option Nat) : Json → String
  | .null => "null"
  | .bool b => if b then "true" else "false"
  | .integer n => if n < 0 then "-" ++ decimal n.natAbs else decimal n.natAbs
  | .real x => realText x
  | .string s => quoted s
  | .array values =>
    if values.isEmpty then "[]"
    else "[" ++ textValues (inside depth) values ++ newLine depth ++ "]"
  | .object members =>
    if members.isEmpty then "\x7b\x7d"
    else "\x7b" ++ textMembers (inside depth) members ++ newLine depth ++ "\x7d"

/-- Values with commas between them. -/
def textValues (depth : Option Nat) : List Json → String
  | [] => ""
  | [v] => newLine depth ++ text depth v
  | v :: rest => newLine depth ++ text depth v ++ "," ++ textValues depth rest

/-- Members with commas between them. -/
def textMembers (depth : Option Nat) : List (String × Json) → String
  | [] => ""
  | [(k, v)] => newLine depth ++ quoted k ++ colon depth ++ text depth v
  | (k, v) :: rest =>
    newLine depth ++ quoted k ++ colon depth ++ text depth v ++ "," ++ textMembers depth rest

end

/-- The text of a value on one line, without blanks. -/
def compact (j : Json) : String := j.ordered.text none

/-- The text of a value on several lines. -/
def pretty (j : Json) : String := j.ordered.text (some 0)

end Json
end IqTape
