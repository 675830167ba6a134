import IqTape.Config.Options
import IqTape.Config.Recorder
import IqTape.Console
import IqTape.Number.Rate
import IqTape.Tape.Reader

/-!
# The inspector

The inspector reads a whole tape and reports its header, what could be read and
the first blocks.

## Main definitions

* `Inspection` — what was found.
* `Inspection.toJson`, `Inspection.text` — the report.
* `inspector` — the tool.
-/

namespace IqTape

/-- A block as it is listed. -/
structure BlockLine where
  /-- When its first sample was taken. -/
  timestamp : UInt64
  count : UInt32
  /-- How many bytes. -/
  bytes : Nat
  deriving DecidableEq, Repr, Inhabited

/-- What was found on a tape. -/
structure Inspection where
  name : String
  header : Header
  counts : ReadCounts
  /-- Whether the total in the header is wrong. -/
  totals : Option Fault
  fault : Option Fault
  /-- The time of the first block. -/
  first : UInt64
  /-- The time of the last block. -/
  last : UInt64
  /-- The first blocks. -/
  preview : List BlockLine
  deriving Repr, Inhabited

namespace Inspection

/-- How many blocks are listed. -/
def previewLength : Nat := 3

/-- Read a tape to its end.  What the reader says on the way comes with it. -/
def ofReader (name : String) (start : Reader) : Inspection × String :=
  let (found, r) := start.drain
  let blocks := found.map Prod.fst
  let times := blocks.map Block.timestamp
  ({  name := name
      header := r.header
      counts := r.counts
      totals := faultOf r.validateTotals
      fault := r.error?
      first := times.head?.getD 0
      last := times.getLast?.getD 0
      preview := (blocks.take previewLength).map fun b => ⟨b.timestamp, b.count, b.payload.length⟩ },
    start.noticeSince r)

/-- A listed block as a value. -/
def blockJson (b : BlockLine) : Json :=
  .object [
    ("timestamp_ns", .nat b.timestamp.toNat),
    ("sample_count", .nat b.count.toNat),
    ("data_bytes", .nat b.bytes)]

/-- The report as a value. -/
def toJson (i : Inspection) : Json :=
  .object [
    ("file", .string i.name),
    ("header", i.header.toJson),
    ("read_stats", i.counts.toJson),
    ("totals_check", .string (statusText i.totals)),
    ("read_error", .string (statusText i.fault)),
    ("first_timestamp_ns", .nat i.first.toNat),
    ("last_timestamp_ns", .nat i.last.toNat),
    ("blocks", .array (i.preview.map blockJson))]

/-- The lines about the header. -/
def headerText (i : Inspection) : String :=
  let h := i.header
  String.join [
    "File:           ", i.name, "\n",
    "Version:        ", decimal h.version.toNat, "\n",
    "Byte order:     ", if h.isLittleEndian then "little-endian" else "big-endian", "\n",
    "Device:         ", h.radio.name, "\n",
    "Sample format:  ", h.format.name, "\n",
    "Compression:    ", h.form.name, "\n",
    "Sample rate:    ", decimal h.rate.toNat, " Hz\n",
    "Center freq:    ", decimal h.frequency.toNat, " Hz\n",
    "Gain:           ", Layout.plain.writeSingle h.gain, " dB\n",
    "Session start:  ", decimal h.start.toNat, "\n",
    "Session end:    ", decimal h.finish.toNat,
    if h.isFinalized then "" else " (not finalized)", "\n",
    "Total samples:  ", decimal h.total.toNat, "\n",
    "\n"]

/-- The lines about what could be read. -/
def countsText (i : Inspection) : String :=
  let c := i.counts
  String.join [
    "Blocks ok:      ", decimal c.blocks.toNat, "\n",
    "Corrupted:      ", decimal c.corrupted.toNat, "\n",
    "Samples read:   ", decimal c.samples.toNat, "\n",
    "Bytes read:     ", decimal c.processed.toNat, "\n",
    "Bytes skipped:  ", decimal c.skipped.toNat, "\n",
    "Totals check:   ", statusText i.totals, "\n",
    match i.fault with
    | some f => "Read error:     " ++ f.message ++ "\n"
    | none => ""]

/-- The line about the time between the first and the last block. -/
def spanText (i : Inspection) : String :=
  if 1 < i.counts.blocks ∧ 0 < i.header.rate then
    "Time span:      " ++ places 3 (seconds (i.last - i.first).toNat) ++ " s\n"
  else ""

/-- The line about one block. -/
def blockText (index : Nat) (b : BlockLine) : String :=
  String.join [
    "Block ", decimal index, ": ts=", decimal b.timestamp.toNat, " samples=",
    decimal b.count.toNat, " bytes=", decimal b.bytes, "\n"]

/-- The report as text. -/
def text (i : Inspection) : String :=
  String.join [i.headerText, i.countsText, i.spanText,
    String.join (i.preview.mapIdx blockText)]

end Inspection

namespace Inspector

/-- What an option of the inspector means. -/
inductive Choice
  | json
  | help
  | version
  deriving DecidableEq, Repr

/-- The options of the inspector. -/
def rules : List (OptionRule Choice) := [
  ⟨'j', "json", false, .json⟩,
  ⟨'h', "help", false, .help⟩,
  ⟨'V', "version", false, .version⟩]

/-- How the inspector is called. -/
def usage (program : String) : String :=
  "Usage: " ++ program ++ " [OPTIONS] FILE\n\n" ++
  "Validate a GLOS file and print its header and block statistics\n\n" ++
  "Options:\n" ++
  "  -j, --json      Machine-readable output\n" ++
  "  -h, --help      Show this help\n" ++
  "  -V, --version   Show version\n" ++
  "\n"

/-- The version of the inspector. -/
def versionText : String := "glos-info version " ++ toolsVersion ++ "\n"

/-- What a command line asks for. -/
inductive Task
  | done (r : ToolResult)
  | inspect (json : Bool) (name : String)
  deriving DecidableEq, Repr

/-- What the options and operands of a command line ask for. -/
def taskOf (program : String) (operands : Option (List String)) (json : Bool) :
    List (Given Choice) → Task
  | [] =>
    match operands with
    | some [name] => .inspect json name
    | _ => .done (.failure (.report (usage program)))
  | g :: rest =>
    match g.meaning with
    | .json => taskOf program operands true rest
    | .help => .done (.success (usage program))
    | .version => .done (.success versionText)

/-- What a command line asks for. -/
def task (program : String) (arguments : List String) : Task :=
  let line := scanOptions rules arguments
  taskOf program line.operands false line.given

/-- Inspect a file; `none` is one that cannot be opened. -/
def inspect (json : Bool) (name : String) (file : Option Source) : ToolResult :=
  match (Reader.idle .standard).openFile file with
  | (_, some f) => .failure (.complain ("Error: " ++ name ++ ": " ++ f.message ++ "\n"))
  | (r, none) =>
    let (found, notice) := Inspection.ofReader name r
    let text := if json then found.toJson.pretty ++ "\n" else found.text
    ⟨⟨text, notice⟩, if found.fault.isNone then 0 else 1⟩

end Inspector

/-- The inspector, called with some arguments where some files can be opened. -/
def inspector (program : String) (files : String → Option Source) (arguments : List String) :
    ToolResult :=
  match Inspector.task program arguments with
  | .done r => r
  | .inspect json name => Inspector.inspect json name (files name)

end IqTape
