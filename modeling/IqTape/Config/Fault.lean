import IqTape.Json.Library
import IqTape.Json.Text

/-!
# What can be wrong with a configuration

A configuration comes from a file and from the command line, and is checked as a
whole at the end.

## Main definitions

* `Setting` — the settings that have a form of their own.
* `Invalidity` — why a configuration is refused as a whole.
* `ConfigFault`, `ConfigFault.notice` — everything that can go wrong, and what is
  said about it.
-/

namespace IqTape

/-- A setting whose value has a form of its own. -/
inductive Setting
  | device
  | frequency
  | rate
  | gain
  | duration
  | format
  | form
  | blockSamples
  | capacity
  | interval
  | target
  | speed
  | controlPort
  deriving DecidableEq, Repr, Inhabited

/-- Why a configuration is refused as a whole. -/
inductive Invalidity
  /-- The sample rate is zero. -/
  | noRate
  | emptyBlocks
  /-- A block of so many samples does not fit a frame. -/
  | blockTooLarge (samples : UInt32) (limit : Nat)
  /-- The queue would have no room. -/
  | noCapacity
  /-- There would be no time between progress lines. -/
  | noInterval
  | noOutput
  /-- The speed is not positive. -/
  | noSpeed
  | noInput
  | badTarget (text : String)
  /-- The local address is none. -/
  | badBind (text : String)
  /-- The control port is no port. -/
  | badControlPort (port : Int)
  deriving DecidableEq, Repr

/-- The text of an integer. -/
def integerText (n : Int) : String :=
  if n < 0 then "-" ++ decimal n.natAbs else decimal n.natAbs

/-- The reason in words. -/
def Invalidity.message : Invalidity → String
  | noRate => "Sample rate must be > 0"
  | emptyBlocks => "Block samples must be > 0"
  | blockTooLarge samples limit =>
    "Block samples too large: " ++ decimal samples.toNat ++ " samples exceed the " ++
      decimal limit ++ " byte block limit"
  | noCapacity => "Ring capacity must be > 0"
  | noInterval => "Stats interval must be > 0"
  | noOutput => "Output path is empty"
  | noSpeed => "Speed must be > 0"
  | noInput => "Input path is empty"
  | badTarget text => "Invalid UDP target: " ++ text
  | badBind text => "Invalid bind address: " ++ text
  | badControlPort port => "Invalid control port: " ++ integerText port

/-- What can be wrong with a configuration. -/
inductive ConfigFault
  /-- The file cannot be opened. -/
  | noFile (path : String)
  /-- The file is not JSON. -/
  | notJson (f : Json.Refusal)
  /-- The file holds a number that is too large.  The programs are not prepared for that. -/
  | notCaught (f : Json.Refusal)
  /-- The file holds something else than an object. -/
  | notObject (path : String)
  /-- A member is of the wrong kind. -/
  | wrongKind (wanted found : Json.Kind)
  /-- A member has a value that the setting does not take. -/
  | member (setting : Setting) (value : Json)
  /-- An option has a value that the setting does not take. -/
  | option (setting : Setting) (text : String)
  /-- An argument is not an option of the program. -/
  | usage
  /-- There is an operand too many. -/
  | operand (text : String)
  /-- The configuration is refused as a whole. -/
  | invalid (reason : Invalidity)
  deriving Repr

/-- The start of the message about a member. -/
def Setting.memberWording : Setting → String
  | device => "Unknown device in config: "
  | frequency => "Invalid freq in config: "
  | rate => "Invalid rate in config: "
  | gain => "Invalid gain in config: "
  | duration => "Invalid duration in config: "
  | format => "Unknown format in config: "
  | form => "Unknown compression in config: "
  | blockSamples => "Invalid block samples in config: "
  | capacity => "Invalid ring capacity in config: "
  | interval => "Invalid stats interval in config: "
  | target => "Invalid target in config: "
  | speed => "Invalid speed in config: "
  | controlPort => "Invalid control port in config: "

/-- The start and the end of the message about an option. -/
def Setting.optionWording : Setting → String × String
  | device => ("Unknown device: ", " (use sim, hackrf, pluto)")
  | frequency => ("Invalid frequency: ", "")
  | rate => ("Invalid sample rate: ", "")
  | gain => ("Invalid gain: ", "")
  | duration => ("Invalid duration: ", "")
  | format => ("Unknown format: ", " (use int8, int16, float32)")
  | form => ("Unknown compression: ", " (use none, lz4)")
  | blockSamples => ("Invalid block samples: ", "")
  | capacity => ("Invalid ring capacity: ", "")
  | interval => ("Invalid stats interval: ", "")
  | target => ("Invalid UDP target: ", "")
  | speed => ("Invalid speed: ", "")
  | controlPort => ("Invalid control port: ", "")

/-- What is said about a fault; nothing about a mistaken option, and nothing where the
program itself comes to its end. -/
def ConfigFault.notice : ConfigFault → String
  | noFile path => "Error: Cannot open config file: " ++ path ++ "\n"
  | notJson f => "Error: Invalid JSON in config file: " ++ f.shown ++ "\n"
  | notCaught _ => ""
  | notObject path => "Error: Config file must contain a JSON object: " ++ path ++ "\n"
  | wrongKind wanted found =>
    "Error: Invalid value in config file: " ++ wanted.mismatch found ++ "\n"
  | member setting value => "Error: " ++ setting.memberWording ++ value.compact ++ "\n"
  | option setting text =>
    "Error: " ++ setting.optionWording.1 ++ text ++ setting.optionWording.2 ++ "\n"
  | usage => ""
  | operand text => "Error: Unexpected argument: " ++ text ++ "\n"
  | invalid reason => "Error: " ++ reason.message ++ "\n"

end IqTape
