import IqTape.Config.Member
import IqTape.Config.Options
import IqTape.Tape.Frame

/-!
# Configuration of a recorder

Settings come from a configuration file and from the command line, which wins.
The file is looked for in the arguments before any option is read.

## Main definitions

* `RecorderConfig` — the settings.
* `RecorderConfig.loadJson`, `RecorderConfig.loadFile` — settings from a file.
* `RecorderConfig.parseArguments` — settings from a command line.
* `RecorderConfig.validate` — the check at the end.
* `RecorderConfig.toJson` — the settings as a value that can be loaded again.
-/

namespace IqTape

/-- The settings of a recorder. -/
structure RecorderConfig where
  device : DeviceKind
  /-- Centre frequency in hertz. -/
  frequency : UInt64
  /-- Samples per second. -/
  rate : UInt32
  /-- Gain in decibels. -/
  gain : Binary32
  format : SampleFormat
  form : PayloadForm
  output : String
  /-- Seconds to record; zero is no limit. -/
  duration : UInt64
  blockSamples : UInt32
  capacity : UInt64
  /-- Seconds between progress lines. -/
  interval : UInt64
  /-- Whether only errors are printed. -/
  quiet : Bool
  verbose : Bool
  /-- The configuration file that was read. -/
  file : String
  help : Bool
  /-- Whether the version was asked for. -/
  version : Bool
  deriving DecidableEq, Repr

/-- The file that is recorded to and replayed from when none is named. -/
def defaultTape : String := "recording.glos"

/-- The seconds between progress lines when nothing is said. -/
def defaultInterval : UInt64 := 5

namespace RecorderConfig

/-- The settings when nothing is said. -/
def initial : RecorderConfig where
  device := .simulated
  frequency := 1602000000
  rate := 2000000
  gain := (Binary64.ofNat 40).narrow
  format := .int16
  form := .raw
  output := defaultTape
  duration := 0
  blockSamples := 50000
  capacity := 256
  interval := defaultInterval
  quiet := false
  verbose := false
  file := ""
  help := false
  version := false

instance : Inhabited RecorderConfig := ⟨initial⟩

/-- Rates and block sizes are below this. -/
def wordLimit : Nat := 2 ^ 32

/-! ### From a file -/

/-- The members of a configuration file, in the order in which they are read. -/
def members : List (ConfigStep RecorderConfig) := [
  namedMember "device" .device DeviceKind.read? fun v c => { c with device := v },
  hertzMember "freq" .frequency (2 ^ 64) fun v c => { c with frequency := v },
  hertzMember "rate" .rate wordLimit fun v c => { c with rate := v.toUInt32 },
  member "gain" .number Json.asSingle? fun v c => { c with gain := v },
  member "output" .text Json.asText? fun v c => { c with output := v },
  member "duration" .number Json.asWord? fun v c => { c with duration := v },
  namedMember "format" .format SampleFormat.read? fun v c => { c with format := v },
  namedMember "compress" .form PayloadForm.read? fun v c => { c with form := v },
  member "block-samples" .number Json.asWord32? fun v c => { c with blockSamples := v },
  member "ring-capacity" .number Json.asWord? fun v c => { c with capacity := v },
  member "stats-interval" .number Json.asWord? fun v c => { c with interval := v },
  member "quiet" .flag Json.asFlag? fun v c => { c with quiet := v },
  member "verbose" .flag Json.asFlag? fun v c => { c with verbose := v }]

/-- Take settings from a value. -/
def loadJson (c : RecorderConfig) (j : Json) : RecorderConfig × Option ConfigFault :=
  ConfigStep.run members j c

/-- Take settings from a file. -/
def loadFile [JsonLibrary] (files : FileTexts) (c : RecorderConfig) (path : String) :
    RecorderConfig × Option ConfigFault :=
  match readConfigFile files path with
  | .error f => (c, some f)
  | .ok j => loadJson { c with file := path } j

/-- The settings as a value that can be loaded again. -/
def toJson (c : RecorderConfig) : Json :=
  .object [
    ("device", .string c.device.name),
    ("freq", .nat c.frequency.toNat),
    ("rate", .nat c.rate.toNat),
    ("gain", .real c.gain.widen),
    ("output", .string c.output),
    ("duration", .nat c.duration.toNat),
    ("format", .string c.format.name),
    ("compress", .string c.form.name),
    ("block-samples", .nat c.blockSamples.toNat),
    ("ring-capacity", .nat c.capacity.toNat),
    ("stats-interval", .nat c.interval.toNat),
    ("quiet", .bool c.quiet),
    ("verbose", .bool c.verbose)]

/-! ### The check at the end -/

/-- The first reason to refuse the settings. -/
def validate (c : RecorderConfig) : Option Invalidity :=
  if c.rate = 0 then some .noRate
  else if c.blockSamples = 0 then some .emptyBlocks
  else if Block.maxFrame < c.blockSamples.toNat * c.format.bytesPerSample + Block.overhead then
    some (.blockTooLarge c.blockSamples Block.maxFrame)
  else if c.capacity = 0 then some .noCapacity
  else if c.interval = 0 then some .noInterval
  else if c.output.isEmpty then some .noOutput
  else none

/-! ### From the command line -/

/-- What an option of a recorder means. -/
inductive Choice
  /-- A setting that has a form of its own. -/
  | setting (s : Setting)
  | output
  /-- The configuration file, which has been read by then. -/
  | file
  /-- Errors only. -/
  | quiet
  | verbose
  | help
  | version
  deriving DecidableEq, Repr

/-- The options of a recorder. -/
def rules : List (OptionRule Choice) := [
  ⟨'d', "device", true, .setting .device⟩,
  ⟨'f', "freq", true, .setting .frequency⟩,
  ⟨'r', "rate", true, .setting .rate⟩,
  ⟨'g', "gain", true, .setting .gain⟩,
  ⟨'o', "output", true, .output⟩,
  ⟨'t', "duration", true, .setting .duration⟩,
  ⟨'F', "format", true, .setting .format⟩,
  ⟨'z', "compress", true, .setting .form⟩,
  ⟨'b', "block-samples", true, .setting .blockSamples⟩,
  ⟨'R', "ring-capacity", true, .setting .capacity⟩,
  ⟨'s', "stats-interval", true, .setting .interval⟩,
  ⟨'c', "config", true, .file⟩,
  ⟨'q', "quiet", false, .quiet⟩,
  ⟨'v', "verbose", false, .verbose⟩,
  ⟨'h', "help", false, .help⟩,
  ⟨'V', "version", false, .version⟩]

/-- A number below the limit of rates and block sizes. -/
def shortWord? (n : UInt64) : Option UInt32 :=
  if n.toNat < wordLimit then some n.toUInt32 else none

/-- The settings with one of them read from a text. -/
def withSetting? (c : RecorderConfig) (s : Setting) (text : String) : Option RecorderConfig :=
  match s with
  | .device => (DeviceKind.read? text).map fun v => { c with device := v }
  | .frequency => (readFrequency? text).map fun v => { c with frequency := v }
  | .rate => ((readFrequency? text).bind shortWord?).map fun v => { c with rate := v }
  | .gain => (readReal? text.toList).map fun v => { c with gain := v.narrow }
  | .duration => (readNat? text.toList).map fun v => { c with duration := v }
  | .format => (SampleFormat.read? text).map fun v => { c with format := v }
  | .form => (PayloadForm.read? text).map fun v => { c with form := v }
  | .blockSamples =>
    ((readNat? text.toList).bind shortWord?).map fun v => { c with blockSamples := v }
  | .capacity => (readNat? text.toList).map fun v => { c with capacity := v }
  | .interval => (readNat? text.toList).map fun v => { c with interval := v }
  | _ => none

/-- What follows from an option. -/
inductive Effect
  | onward (c : RecorderConfig)
  | stop (c : RecorderConfig)
  /-- The option is refused. -/
  | refused (f : ConfigFault)

/-- The settings after an option. -/
def choose (c : RecorderConfig) (g : Given Choice) : Effect :=
  let value := g.value.getD ""
  match g.meaning with
  | .setting s =>
    match c.withSetting? s value with
    | some c => .onward c
    | none => .refused (.option s value)
  | .output => .onward { c with output := value }
  | .file => .onward c
  | .quiet => .onward { c with quiet := true }
  | .verbose => .onward { c with verbose := true }
  | .help => .stop { c with help := true }
  | .version => .stop { c with version := true }

/-- The settings after the options and operands; no operand is allowed, and the
whole is checked, unless help or the version was asked for before. -/
def chooseAll (operands : Option (List String)) :
    List (Given Choice) → RecorderConfig → RecorderConfig × Option ConfigFault
  | [], c =>
    match operands with
    | none => (c, some .usage)
    | some (operand :: _) => (c, some (.operand operand))
    | some [] => (c, c.validate.map .invalid)
  | g :: rest, c =>
    match c.choose g with
    | .onward c => chooseAll operands rest c
    | .stop c => (c, none)
    | .refused f => (c, some f)

/-- Take settings from the options and operands of a command line. -/
def parseOptions (c : RecorderConfig) (arguments : List String) :
    RecorderConfig × Option ConfigFault :=
  let line := scanOptions rules arguments
  chooseAll line.operands line.given c

/-- Take settings from a command line and from the file that it names. -/
def parseArguments [JsonLibrary] (files : FileTexts) (c : RecorderConfig)
    (arguments : List String) : RecorderConfig × Option ConfigFault :=
  let file := configFile arguments
  if file.isEmpty then c.parseOptions arguments
  else
    match loadFile files c file with
    | (c, some f) => (c, some f)
    | (c, none) => c.parseOptions arguments

/-- Take settings from somewhere. -/
def take [JsonLibrary] (files : FileTexts) (c : RecorderConfig) :
    ConfigSource → RecorderConfig × Option ConfigFault
  | .arguments arguments => parseArguments files c arguments
  | .value v => c.loadJson v
  | .file path => loadFile files c path

end RecorderConfig

/-- The version of the tools. -/
def toolsVersion : String := "1.0.0"

namespace RecorderConfig

/-- The name under which the recorder speaks of itself. -/
def toolName : String := "glos-recorder"

/-- How the recorder is called. -/
def usage (program : String) : String :=
  "Usage: " ++ program ++ " [OPTIONS]\n\n" ++
  "Record I/Q samples from an SDR device into a GLOS file\n\n" ++
  "Device:\n" ++
  "  -d, --device NAME         sim, hackrf, pluto (default: sim)\n" ++
  "  -f, --freq FREQ           Center frequency, e.g. 1602MHz (default: 1602MHz)\n" ++
  "  -r, --rate RATE           Sample rate, e.g. 2MHz (default: 2MHz)\n" ++
  "  -g, --gain DB             Receiver gain in dB (default: " ++
    Layout.plain.writeSingle initial.gain ++ ")\n" ++
  "\n" ++
  "Output:\n" ++
  "  -o, --output FILE         Output file (default: " ++ initial.output ++ ")\n" ++
  "  -t, --duration SEC        Stop after SEC seconds (default: until Ctrl+C)\n" ++
  "  -F, --format FMT          int8, int16, float32 (default: int16)\n" ++
  "  -z, --compress MODE       none, lz4 (default: none)\n" ++
  "  -b, --block-samples N     Samples per block (default: " ++
    decimal initial.blockSamples.toNat ++ ")\n" ++
  "  -R, --ring-capacity N     Capture queue size in chunks (default: " ++
    decimal initial.capacity.toNat ++ ")\n" ++
  "\n" ++
  "Misc:\n" ++
  "  -c, --config FILE         JSON config file (options override it)\n" ++
  "  -s, --stats-interval SEC  Progress interval (default: " ++
    decimal initial.interval.toNat ++ ")\n" ++
  "  -q, --quiet               Errors only\n" ++
  "  -v, --verbose             Detailed progress lines\n" ++
  "  -h, --help                Show this help\n" ++
  "  -V, --version             Show version\n" ++
  "\n" ++
  "Examples:\n" ++
  "  " ++ program ++ " -t 10 -o test.glos\n" ++
  "  " ++ program ++ " -f 1.602GHz -r 2MHz -z lz4 -o capture.glos\n" ++
  "\n"

/-- The version of the recorder. -/
def versionText : String :=
  toolName ++ " version " ++ toolsVersion ++ "\nGLOS I/Q sample recorder\n"

end RecorderConfig

end IqTape
