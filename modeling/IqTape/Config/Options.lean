/-!
# Command-line options

Options and operands may come in any order.  An option has a letter and a name:
`-x`, `--name`.  Letters may share a dash; the value of an option follows it
directly, or is the next argument whatever that looks like; a name may be cut
short where only one option starts so, and may have its value behind an equals
sign.  Two dashes alone end the options, and a dash alone is an operand.

## Main definitions

* `OptionRule` — an option of a program.
* `Reading` — what one argument says.
* `scanOptions` — the options and operands of a command line.
-/

namespace IqTape

/-- An option of a program. -/
structure OptionRule (α : Type) where
  letter : Char
  name : String
  hasValue : Bool
  meaning : α
  deriving Repr

/-- An option that was given, with its value if it has one. -/
structure Given (α : Type) where
  meaning : α
  value : Option String
  deriving DecidableEq, Repr

/-- What one argument says. -/
inductive Reading (α : Type)
  | complete (given : List (Given α))
  /-- Some options, and one more whose value is the next argument. -/
  | awaiting (given : List (Given α)) (last : α)
  /-- Some options, and then something that is none. -/
  | bad (given : List (Given α))
  deriving Repr

/-- Put an option in front of what the rest of an argument says. -/
def Reading.prepend {α : Type} (g : Given α) : Reading α → Reading α
  | .complete given => .complete (g :: given)
  | .awaiting given last => .awaiting (g :: given) last
  | .bad given => .bad (g :: given)

/-- The letters behind one dash. -/
def readLetters {α : Type} (rules : List (OptionRule α)) : List Char → Reading α
  | [] => .complete []
  | c :: rest =>
    match rules.find? (·.letter == c) with
    | none => .bad []
    | some rule =>
      if rule.hasValue then
        if rest.isEmpty then .awaiting [] rule.meaning
        else .complete [⟨rule.meaning, some (String.ofList rest)⟩]
      else (readLetters rules rest).prepend ⟨rule.meaning, none⟩

/-- The option that a name, perhaps cut short, stands for. -/
def findRule? {α : Type} (rules : List (OptionRule α)) (name : List Char) :
    Option (OptionRule α) :=
  match rules.find? (·.name.toList == name) with
  | some rule => some rule
  | none =>
    match rules.filter (fun rule => name.isPrefixOf rule.name.toList) with
    | [rule] => some rule
    | _ => none

/-- A name behind two dashes. -/
def readName {α : Type} (rules : List (OptionRule α)) (s : List Char) : Reading α :=
  match findRule? rules (s.takeWhile (· != '=')) with
  | none => .bad []
  | some rule =>
    match s.dropWhile (· != '=') with
    | _ :: value =>
      if rule.hasValue then .complete [⟨rule.meaning, some (String.ofList value)⟩] else .bad []
    | [] => if rule.hasValue then .awaiting [] rule.meaning else .complete [⟨rule.meaning, none⟩]

/-- What a command line says. -/
structure CommandLine (α : Type) where
  /-- The options, up to the first mistake. -/
  given : List (Given α)
  /-- The operands, unless there is a mistake. -/
  operands : Option (List String)
  deriving Repr

/-- Put options in front of what the rest of a command line says. -/
def CommandLine.prepend {α : Type} (given : List (Given α)) (line : CommandLine α) :
    CommandLine α :=
  { line with given := given ++ line.given }

/-- The options and operands of a command line. -/
def scanOptions {α : Type} (rules : List (OptionRule α)) : List String → CommandLine α
  | [] => ⟨[], some []⟩
  | argument :: rest =>
    match argument.toList with
    | ['-', '-'] => ⟨[], some rest⟩
    | '-' :: c :: s =>
      match (if c = '-' then readName rules s else readLetters rules (c :: s)) with
      | .complete given => (scanOptions rules rest).prepend given
      | .awaiting given last =>
        match rest with
        | [] => ⟨given, none⟩
        | value :: rest => (scanOptions rules rest).prepend (given ++ [⟨last, some value⟩])
      | .bad given => ⟨given, none⟩
    | _ =>
      let line := scanOptions rules rest
      { line with operands := line.operands.map (argument :: ·) }

/-! ### The configuration file -/

/-- The file that a command line names, found before the options are read: the
argument behind `-c` or `--config`, or what is attached to one of them. -/
def configFile : List String → String
  | [] => ""
  | argument :: rest =>
    match argument, rest with
    | "-c", file :: _ => file
    | "--config", file :: _ => file
    | argument, rest =>
      let s := argument.toList
      let attached := ['-', '-', 'c', 'o', 'n', 'f', 'i', 'g', '=']
      if attached.isPrefixOf s then String.ofList (s.drop attached.length)
      else
        match s with
        | '-' :: 'c' :: c :: s => String.ofList (c :: s)
        | _ => configFile rest

end IqTape
