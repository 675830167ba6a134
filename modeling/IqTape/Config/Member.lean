import IqTape.Config.Fault
import IqTape.Config.Value

/-!
# Configuration files

A configuration file holds an object.  A setting is read from a member of an
object if the object has it, and stays as it is if not.  Reading goes through the
settings in a fixed order and stops at the first that is refused; those before it
have been set.

## Main definitions

* `FileTexts` — the files that can be opened.
* `readConfigFile` — the object that a file holds.
* `ConfigSource` — where settings are taken from.
* `ConfigStep`, `ConfigStep.run` — reading settings one after the other.
* `member` — one setting from one member.
* `Json.asText?`, `Json.asFlag?`, `Json.asWord?`, `Json.asWord32?`, `Json.asInt32?`,
  `Json.asReal?`, `Json.asSingle?`, `Json.asHertz?` — the kinds of value.
-/

namespace IqTape

/-! ### Files -/

/-- The text of a file, if it can be opened. -/
abbrev FileTexts := String → Option String

/-- The object that a configuration file holds. -/
def readConfigFile [JsonLibrary] (files : FileTexts) (path : String) : Except ConfigFault Json :=
  match files path with
  | none => .error (.noFile path)
  | some text =>
    match JsonLibrary.readFront text.toUTF8.toList with
    | .error f => .error (if f.malformed then .notJson f else .notCaught f)
    | .ok (.object members) => .ok (.object members)
    | .ok _ => .error (.notObject path)

/-- Where settings are taken from. -/
inductive ConfigSource
  /-- A command line without the name of the program, and the file that it names. -/
  | arguments (arguments : List String)
  | value (v : Json)
  | file (path : String)

/-! ### Kinds of value -/

namespace Json

def asText? : Json → Option String
  | .string s => some s
  | _ => none

def asFlag? : Json → Option Bool
  | .bool b => some b
  | _ => none

/-- A number as a word of 64 bits.  A negative one wraps around; a fraction is cut off. -/
def asWord? : Json → Option UInt64
  | .integer n => some (UInt64.ofInt n)
  | .real x => some x.castWord
  | _ => none

/-- A number as a word of 32 bits, or a truth value as one or zero. -/
def asWord32? : Json → Option UInt32
  | .bool b => some (if b then 1 else 0)
  | .integer n => some (UInt32.ofInt n)
  | .real x => some (UInt32.ofInt x.toInt64)
  | _ => none

/-- A number as a signed word of 32 bits, or a truth value as one or zero. -/
def asInt32? : Json → Option Int
  | .bool b => some (if b then 1 else 0)
  | .integer n => some (n.bmod (2 ^ 32))
  | .real x => some x.toInt32
  | _ => none

/-- A number in double precision. -/
def asReal? : Json → Option Binary64
  | .integer n => some (.ofInt n)
  | .real x => some x
  | _ => none

/-- A number in single precision, rounded once, or a truth value as one or zero. -/
def asSingle? : Json → Option Binary32
  | .bool b => some (.ofInt (if b then 1 else 0))
  | .integer n => some (.ofInt n)
  | .real x => some x.narrow
  | _ => none

/-- A frequency: a whole number that is not negative, or a text with a unit. -/
def asHertz? : Json → Option UInt64
  | .integer n => if n < 0 then none else some n.toNat.toUInt64
  | .string s => readFrequency? s
  | _ => none

end Json

/-! ### Members -/

/-- One step of reading a configuration of type `α` from a value.  A fault leaves
the configuration as it was before the step. -/
abbrev ConfigStep (α : Type) := Json → α → Except ConfigFault α

/-- Take the steps in order, up to the first fault. -/
def ConfigStep.run {α : Type} : List (ConfigStep α) → Json → α → α × Option ConfigFault
  | [], _, c => (c, none)
  | s :: rest, j, c =>
    match s j c with
    | .ok c => run rest j c
    | .error f => (c, some f)

/-- Set a field from a member, if it is there and of the wanted kind. -/
def member {α β : Type} (key : String) (wanted : Json.Kind) (read : Json → Option β)
    (set : β → α → α) : ConfigStep α := fun j c =>
  match j.field? key with
  | none => .ok c
  | some v =>
    match read v with
    | some b => .ok (set b c)
    | none => .error (.wrongKind wanted v.kind)

/-- Set a field from a text member that is read further. -/
def namedMember {α β : Type} (key : String) (setting : Setting) (read : String → Option β)
    (set : β → α → α) : ConfigStep α := fun j c =>
  match j.field? key with
  | none => .ok c
  | some v =>
    match v.asText? with
    | none => .error (.wrongKind .text v.kind)
    | some text =>
      match read text with
      | some b => .ok (set b c)
      | none => .error (.member setting v)

/-- Set a field from a frequency. -/
def hertzMember {α : Type} (key : String) (setting : Setting) (limit : Nat)
    (set : UInt64 → α → α) : ConfigStep α := fun j c =>
  match j.field? key with
  | none => .ok c
  | some v =>
    match v.asHertz? with
    | some hertz => if hertz.toNat < limit then .ok (set hertz c) else .error (.member setting v)
    | none => .error (.member setting v)

end IqTape
