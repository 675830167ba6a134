import IqTape.Json.Value
import IqTape.Number.Rate

/-!
# Counters of a recording

What a recording has taken in, written and lost, and the report drawn up from it.
The counters are words of 64 bits, and sums wrap.

## Main definitions

* `CaptureCounters` — the counters and the start of the session.
* `CaptureSummary` — the figures of a report.
* `CaptureCounters.summary`, `CaptureSummary.text`, `CaptureSummary.toJson` — the
  report.
-/

namespace IqTape

/-- The counters of a recording. -/
structure CaptureCounters where
  /-- Samples handed to the writer. -/
  samples : UInt64
  blocks : UInt64
  /-- Bytes written. -/
  bytes : UInt64
  /-- Blocks that could not be written. -/
  writeErrors : UInt64
  /-- Samples in chunks that found no room. -/
  droppedSamples : UInt64
  /-- Chunks that found no room. -/
  droppedChunks : UInt64
  /-- The clock when the session started. -/
  startedAt : Int
  deriving DecidableEq, Repr, Inhabited

/-- The figures of a recording's report. -/
structure CaptureSummary where
  duration : Binary64
  counters : CaptureCounters
  /-- Dropped samples, in percent of all. -/
  dropRate : Binary64
  /-- Samples, in millions per second. -/
  throughput : Binary64
  /-- Bytes, in millions per second. -/
  writeSpeed : Binary64
  deriving DecidableEq, Repr, Inhabited

namespace CaptureCounters

/-- The counters of a session that starts now. -/
def fresh (now : Int) : CaptureCounters := ⟨0, 0, 0, 0, 0, 0, now⟩

/-- A chunk found no room. -/
def drop (c : CaptureCounters) (samples : UInt32) : CaptureCounters :=
  { c with
    droppedSamples := c.droppedSamples + samples.toUInt64
    droppedChunks := c.droppedChunks + 1 }

/-- Samples were handed to the writer. -/
def addSamples (c : CaptureCounters) (n : UInt64) : CaptureCounters :=
  { c with samples := c.samples + n }

/-- A block was written. -/
def addBlock (c : CaptureCounters) : CaptureCounters := { c with blocks := c.blocks + 1 }

/-- Bytes were written. -/
def addBytes (c : CaptureCounters) (n : UInt64) : CaptureCounters :=
  { c with bytes := c.bytes + n }

/-- A block could not be written. -/
def addWriteError (c : CaptureCounters) : CaptureCounters :=
  { c with writeErrors := c.writeErrors + 1 }

/-- How long the session has run. -/
def elapsed (c : CaptureCounters) (now : Int) : Binary64 := secondsBetween c.startedAt now

/-- Dropped samples, in percent of all; zero when there are none. -/
def dropRate (c : CaptureCounters) : Binary64 :=
  let total := c.samples + c.droppedSamples
  if total = 0 then .zero
  else
    ((Binary64.ofNat c.droppedSamples.toNat).div (.ofNat total.toNat)).mul (.ofNat 100)

/-- The figures for a given duration. -/
def summary (c : CaptureCounters) (duration : Binary64) : CaptureSummary :=
  ⟨duration, c, c.dropRate, megaPerSecond c.samples duration, megaPerSecond c.bytes duration⟩

end CaptureCounters

namespace CaptureSummary

/-- The report as a value. -/
def toJson (s : CaptureSummary) : Json :=
  let c := s.counters
  .object [
    ("duration_sec", .real s.duration),
    ("samples_recorded", .nat c.samples.toNat),
    ("blocks_written", .nat c.blocks.toNat),
    ("dropped", .object [
      ("samples", .nat c.droppedSamples.toNat),
      ("chunks", .nat c.droppedChunks.toNat),
      ("rate_pct", .real s.dropRate)]),
    ("write_errors", .nat c.writeErrors.toNat),
    ("bytes_written", .nat c.bytes.toNat),
    ("throughput_msps", .real s.throughput),
    ("write_speed_mbps", .real s.writeSpeed)]

/-- The report as text. -/
def text (s : CaptureSummary) : String :=
  let c := s.counters
  String.join [
    ruleLine,
    "  Duration      : ", places 1 s.duration, "s\n",
    "  Samples       : ", decimal c.samples.toNat, "\n",
    "  Blocks        : ", decimal c.blocks.toNat, "\n",
    "  Dropped       : ", decimal c.droppedSamples.toNat, " (", places 2 s.dropRate, "%, ",
    decimal c.droppedChunks.toNat, " chunks)\n",
    "  Write errors  : ", decimal c.writeErrors.toNat, "\n",
    "  Bytes written : ", places 1 (inMillions c.bytes), " MB\n",
    "  Throughput    : ", places 3 s.throughput, " Msps\n",
    "  Write speed   : ", places 1 s.writeSpeed, " MB/s\n",
    ruleLine]

end CaptureSummary

end IqTape
