import IqTape.Number.Binary

/-!
# JSON values

Configuration files, control requests and reports are JSON.  Whole numbers and
fractional numbers are kept apart, because a field that counts something does not
take a fraction.

## Main definitions

* `Json`, `Json.Kind` — a value, and what kind of value it is.
* `Json.field?` — a member of an object by name.
* `Json.set` — an object with one member replaced or added.

## Main results

* `Json.field?_object_set` — what `set` puts in is found under its name.
-/

namespace IqTape

/-- A JSON value. -/
inductive Json
  /-- The literal `null`. -/
  | null
  | bool (b : Bool)
  /-- A whole number. -/
  | integer (n : Int)
  /-- A number with a fraction or an exponent. -/
  | real (x : Binary64)
  | string (s : String)
  | array (values : List Json)
  | object (members : List (String × Json))
  deriving Repr, Inhabited

namespace Json

/-- The kinds of values. -/
inductive Kind
  /-- The literal `null`. -/
  | null
  | flag
  /-- Numbers, whole or not. -/
  | number
  | text
  | list
  | object
  deriving DecidableEq, Repr, Inhabited

/-- The name of a kind. -/
def Kind.name : Kind → String
  | null => "null"
  | flag => "boolean"
  | number => "number"
  | text => "string"
  | list => "array"
  | object => "object"

/-- What is said about a value of one kind where another is wanted. -/
def Kind.mismatch (wanted found : Kind) : String :=
  "type must be " ++ wanted.name ++ ", but is " ++ found.name

/-- The kind of a value. -/
def kind : Json → Kind
  | null => .null
  | bool _ => .flag
  | integer _ => .number
  | real _ => .number
  | string _ => .text
  | array _ => .list
  | object _ => .object

def nat (n : Nat) : Json := .integer n

/-- The value of a name in a list of members. -/
def lookup (name : String) : List (String × Json) → Option Json
  | [] => none
  | (k, v) :: rest => if k = name then some v else lookup name rest

/-- Members with the value of one name replaced, or added at the end. -/
def put (name : String) (value : Json) : List (String × Json) → List (String × Json)
  | [] => [(name, value)]
  | (k, v) :: rest => if k = name then (k, value) :: rest else (k, v) :: put name value rest

/-- A member of an object; nothing where there is none, or no object. -/
def field? (j : Json) (name : String) : Option Json :=
  match j with
  | .object members => lookup name members
  | _ => none

/-- An object with one member replaced or added. -/
def set (j : Json) (name : String) (value : Json) : Json :=
  match j with
  | .object members => .object (put name value members)
  | _ => .object [(name, value)]

@[simp] theorem lookup_put_self (name : String) (value : Json) (ms : List (String × Json)) :
    lookup name (put name value ms) = some value := by
  induction ms with
  | nil => simp [put, lookup]
  | cons m ms ih =>
    obtain ⟨k, v⟩ := m
    by_cases h : k = name <;> simp [put, lookup, h, ih]

theorem lookup_put_of_ne {name other : String} (h : name ≠ other) (value : Json)
    (ms : List (String × Json)) : lookup other (put name value ms) = lookup other ms := by
  induction ms with
  | nil => simp [put, lookup, h]
  | cons m ms ih =>
    obtain ⟨k, v⟩ := m
    by_cases hk : k = name
    · subst hk; simp [put, lookup, h]
    · by_cases ho : k = other
      · subst ho; simp [put, lookup, hk]
      · simp [put, lookup, hk, ho, ih]

theorem field?_object_set (ms : List (String × Json)) (name : String) (value : Json) :
    (Json.set (.object ms) name value).field? name = some value := by
  simp [Json.set, field?]

end Json
end IqTape
