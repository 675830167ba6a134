/-!
# What can be wrong with a tape

Every operation on a tape either succeeds or names one fault.

## Main definitions

* `Fault` — the reasons for a refusal.
* `Fault.message` — the wording of each.
* `statusText` — the wording of an outcome, success included.
-/

namespace IqTape

/-- Why an operation on a tape was refused. -/
inductive Fault
  /-- The file does not start with the mark of a tape. -/
  | invalidMagic
  /-- The header is of a version that is not known. -/
  | unsupportedVersion
  /-- A stored checksum does not match the bytes it covers. -/
  | checksumMismatch
  /-- More bytes are needed. -/
  | incomplete
  | corrupted
  /-- A block is too large to be framed. -/
  | invalidBlockSize
  /-- A field holds a value that is not listed, or two fields disagree. -/
  | formatViolation
  | io
  /-- A payload could not be packed or unpacked. -/
  | compression
  deriving DecidableEq, Repr, Inhabited

namespace Fault

/-- The wording of a fault. -/
def message : Fault → String
  | invalidMagic => "invalid magic"
  | unsupportedVersion => "unsupported version"
  | checksumMismatch => "checksum mismatch"
  | incomplete => "incomplete data"
  | corrupted => "corrupted data"
  | invalidBlockSize => "invalid block size"
  | formatViolation => "format violation"
  | io => "I/O error"
  | compression => "compression error"

/-- The faults in the order of their numbers, which start at one. -/
def all : List Fault :=
  [invalidMagic, unsupportedVersion, checksumMismatch, incomplete, corrupted, invalidBlockSize,
    formatViolation, io, compression]

end Fault

/-- The wording of an outcome; `none` is success. -/
def statusText : Option Fault → String
  | none => "ok"
  | some f => f.message

/-- The wording of an outcome given by its number; zero is success. -/
def statusTextOfNumber : Nat → String
  | 0 => statusText none
  | n + 1 =>
    match Fault.all[n]? with
    | some f => statusText (some f)
    | none => "unknown"

/-- The fault of an outcome that may carry a result. -/
def faultOf {α : Type} : Except Fault α → Option Fault
  | .ok _ => none
  | .error f => some f

end IqTape
