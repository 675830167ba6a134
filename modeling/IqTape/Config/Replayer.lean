import IqTape.Config.Address
import IqTape.Config.Recorder

/-!
# Configuration of a replayer

Settings come from a configuration file and from the command line, which wins.
The first operand is the file to replay.

## Main definitions

* `ReplayConfig` — the settings.
* `ReplayConfig.loadJson`, `ReplayConfig.loadFile` — settings from a file.
* `ReplayConfig.parseArguments` — settings from a command line.
* `ReplayConfig.validate` — the check at the end.
* `ReplayConfig.toJson` — the settings as a value that can be loaded again.
-/

namespace IqTape

/-- The settings of a replayer. -/
structure ReplayConfig where
  input : String
  target : String
  bind : String
  /-- How much faster than recorded. -/
  speed : Binary64
  /-- Whether the file is replayed over and over. -/
  loop : Bool
  /-- Seconds between progress lines. -/
  interval : UInt64
  /-- The port for control requests; zero is none. -/
  controlPort : Int
  /-- Whether only errors are printed. -/
  quiet : Bool
  verbose : Bool
  /-- The configuration file that was read. -/
  file : String
  help : Bool
  /-- Whether the version was asked for. -/
  version : Bool
  deriving DecidableEq, Repr

namespace ReplayConfig

/-- The settings when nothing is said. -/
def initial : ReplayConfig where
  input := defaultTape
  target := "127.0.0.1:5555"
  bind := "0.0.0.0:0"
  speed := .one
  loop := false
  interval := defaultInterval
  controlPort := 0
  quiet := false
  verbose := false
  file := ""
  help := false
  version := false

instance : Inhabited ReplayConfig := ⟨initial⟩

/-- The largest port. -/
def maxPort : Int := 65535

/-! ### From a file -/

/-- The members of a configuration file, in the order in which they are read. -/
def members : List (ConfigStep ReplayConfig) := [
  member "input" .text Json.asText? fun v c => { c with input := v },
  namedMember "target" .target normalTarget? fun v c => { c with target := v },
  member "bind" .text Json.asText? fun v c => { c with bind := v },
  member "speed" .number Json.asReal? fun v c => { c with speed := v },
  member "loop" .flag Json.asFlag? fun v c => { c with loop := v },
  member "stats-interval" .number Json.asWord? fun v c => { c with interval := v },
  member "control-port" .number Json.asInt32? fun v c => { c with controlPort := v },
  member "quiet" .flag Json.asFlag? fun v c => { c with quiet := v },
  member "verbose" .flag Json.asFlag? fun v c => { c with verbose := v }]

/-- Take settings from a value. -/
def loadJson (c : ReplayConfig) (j : Json) : ReplayConfig × Option ConfigFault :=
  ConfigStep.run members j c

/-- Take settings from a file. -/
def loadFile [JsonLibrary] (files : FileTexts) (c : ReplayConfig) (path : String) :
    ReplayConfig × Option ConfigFault :=
  match readConfigFile files path with
  | .error f => (c, some f)
  | .ok j => loadJson { c with file := path } j

/-- The settings as a value that can be loaded again. -/
def toJson (c : ReplayConfig) : Json :=
  .object [
    ("input", .string c.input),
    ("target", .string c.target),
    ("bind", .string c.bind),
    ("speed", .real c.speed),
    ("loop", .bool c.loop),
    ("stats-interval", .nat c.interval.toNat),
    ("control-port", .integer c.controlPort),
    ("quiet", .bool c.quiet),
    ("verbose", .bool c.verbose)]

/-! ### The check at the end -/

/-- The first reason to refuse the settings. -/
def validate (c : ReplayConfig) : Option Invalidity :=
  if !Binary64.zero.lt c.speed then some .noSpeed
  else if c.input.isEmpty then some .noInput
  else if (SocketAddress.read? c.target).isNone then some (.badTarget c.target)
  else if (SocketAddress.read? c.bind).isNone then some (.badBind c.bind)
  else if c.controlPort < 0 ∨ maxPort < c.controlPort then some (.badControlPort c.controlPort)
  else if c.interval = 0 then some .noInterval
  else none

/-! ### From the command line -/

/-- What an option of a replayer means. -/
inductive Choice
  /-- A setting that has a form of its own. -/
  | setting (s : Setting)
  | input
  | bind
  | loop
  /-- The configuration file, which has been read by then. -/
  | file
  /-- Errors only. -/
  | quiet
  | verbose
  | help
  | version
  deriving DecidableEq, Repr

/-- The options of a replayer. -/
def rules : List (OptionRule Choice) := [
  ⟨'i', "input", true, .input⟩,
  ⟨'t', "target", true, .setting .target⟩,
  ⟨'B', "bind", true, .bind⟩,
  ⟨'s', "speed", true, .setting .speed⟩,
  ⟨'l', "loop", false, .loop⟩,
  ⟨'S', "stats-interval", true, .setting .interval⟩,
  ⟨'C', "control-port", true, .setting .controlPort⟩,
  ⟨'c', "config", true, .file⟩,
  ⟨'q', "quiet", false, .quiet⟩,
  ⟨'v', "verbose", false, .verbose⟩,
  ⟨'h', "help", false, .help⟩,
  ⟨'V', "version", false, .version⟩]

/-- A port that something can listen on. -/
def readPort? (text : String) : Option Int :=
  match readNat? text.toList with
  | some n => if n = 0 ∨ maxPort < n.toNat then none else some n.toNat
  | none => none

/-- The settings with one of them read from a text. -/
def withSetting? (c : ReplayConfig) (s : Setting) (text : String) : Option ReplayConfig :=
  match s with
  | .target => (normalTarget? text).map fun v => { c with target := v }
  | .speed => (readReal? text.toList).map fun v => { c with speed := v }
  | .interval => (readNat? text.toList).map fun v => { c with interval := v }
  | .controlPort => (readPort? text).map fun v => { c with controlPort := v }
  | _ => none

/-- What follows from an option. -/
inductive Effect
  | onward (c : ReplayConfig)
  | stop (c : ReplayConfig)
  /-- The option is refused. -/
  | refused (f : ConfigFault)

/-- The settings after an option. -/
def choose (c : ReplayConfig) (g : Given Choice) : Effect :=
  let value := g.value.getD ""
  match g.meaning with
  | .setting s =>
    match c.withSetting? s value with
    | some c => .onward c
    | none => .refused (.option s value)
  | .input => .onward { c with input := value }
  | .bind => .onward { c with bind := value }
  | .loop => .onward { c with loop := true }
  | .file => .onward c
  | .quiet => .onward { c with quiet := true }
  | .verbose => .onward { c with verbose := true }
  | .help => .stop { c with help := true }
  | .version => .stop { c with version := true }

/-- The settings after the operands: the first is the file to replay, and there
is no second. -/
def takeOperands (c : ReplayConfig) : List String → ReplayConfig × Option ConfigFault
  | [] => (c, c.validate.map .invalid)
  | [input] =>
    let c := { c with input := input }
    (c, c.validate.map .invalid)
  | input :: operand :: _ => ({ c with input := input }, some (.operand operand))

/-- The settings after the options and operands; the whole is checked, unless help
or the version was asked for before. -/
def chooseAll (operands : Option (List String)) :
    List (Given Choice) → ReplayConfig → ReplayConfig × Option ConfigFault
  | [], c =>
    match operands with
    | none => (c, some .usage)
    | some operands => c.takeOperands operands
  | g :: rest, c =>
    match c.choose g with
    | .onward c => chooseAll operands rest c
    | .stop c => (c, none)
    | .refused f => (c, some f)

/-- Take settings from the options and operands of a command line. -/
def parseOptions (c : ReplayConfig) (arguments : List String) :
    ReplayConfig × Option ConfigFault :=
  let line := scanOptions rules arguments
  chooseAll line.operands line.given c

/-- Take settings from a command line and from the file that it names. -/
def parseArguments [JsonLibrary] (files : FileTexts) (c : ReplayConfig)
    (arguments : List String) : ReplayConfig × Option ConfigFault :=
  let file := configFile arguments
  if file.isEmpty then c.parseOptions arguments
  else
    match loadFile files c file with
    | (c, some f) => (c, some f)
    | (c, none) => c.parseOptions arguments

/-- Take settings from somewhere. -/
def take [JsonLibrary] (files : FileTexts) (c : ReplayConfig) :
    ConfigSource → ReplayConfig × Option ConfigFault
  | .arguments arguments => parseArguments files c arguments
  | .value v => c.loadJson v
  | .file path => loadFile files c path

/-! ### Texts -/

/-- The name under which the replayer speaks of itself. -/
def toolName : String := "glos-replayer"

/-- How the replayer is called. -/
def usage (program : String) : String :=
  "Usage: " ++ program ++ " [OPTIONS] [FILE]\n\n" ++
  "Replay a GLOS recording as UDP datagrams with original timing\n\n" ++
  "Playback:\n" ++
  "  -i, --input FILE          Input file (default: " ++ initial.input ++ ")\n" ++
  "  -t, --target ADDR         udp://host:port or host:port (default: " ++
    initial.target ++ ")\n" ++
  "  -B, --bind ADDR           Local bind address (default: " ++ initial.bind ++ ")\n" ++
  "  -s, --speed N             Playback speed factor, > 0 (default: 1.0)\n" ++
  "  -l, --loop                Restart from the beginning at end of file\n" ++
  "\n" ++
  "Control:\n" ++
  "  -C, --control-port PORT   TCP control port (disabled by default)\n" ++
  "\n" ++
  "Misc:\n" ++
  "  -c, --config FILE         JSON config file (options override it)\n" ++
  "  -S, --stats-interval SEC  Progress interval (default: " ++
    decimal initial.interval.toNat ++ ")\n" ++
  "  -q, --quiet               Errors only\n" ++
  "  -v, --verbose             Detailed progress lines\n" ++
  "  -h, --help                Show this help\n" ++
  "  -V, --version             Show version\n" ++
  "\n" ++
  "Examples:\n" ++
  "  " ++ program ++ " recording.glos\n" ++
  "  " ++ program ++ " -t udp://192.168.1.20:5555 -s 2 --loop capture.glos\n" ++
  "\n"

/-- The version of the replayer. -/
def versionText : String :=
  toolName ++ " version " ++ toolsVersion ++ "\nGLOS I/Q sample replayer\n"

end ReplayConfig

end IqTape
