import IqTape.Json.Value
import IqTape.Number.Rate

/-!
# Counters of a replay

What a replay has sent and how well it kept time, and the report drawn up from
it.  The counters are words of 64 bits, and sums wrap.

## Main definitions

* `ReplayCounters` — the counters and the start of the session.
* `ReplayCounters.toJson`, `ReplayCounters.text` — the report at some time.
-/

namespace IqTape

/-- The counters of a replay. -/
structure ReplayCounters where
  packets : UInt64
  samples : UInt64
  /-- Bytes in them. -/
  bytes : UInt64
  /-- Blocks that were due more than a millisecond before they could be sent. -/
  underruns : UInt64
  /-- Blocks that could not be sent. -/
  sendErrors : UInt64
  /-- The sum of the timing errors, in nanoseconds. -/
  timingError : UInt64
  loops : UInt64
  /-- The clock when the session started. -/
  startedAt : Int
  deriving DecidableEq, Repr, Inhabited

namespace ReplayCounters

/-- The counters of a session that starts now. -/
def fresh (now : Int) : ReplayCounters := ⟨0, 0, 0, 0, 0, 0, 0, now⟩

/-- A datagram was sent. -/
def addPacket (c : ReplayCounters) : ReplayCounters := { c with packets := c.packets + 1 }

def addSamples (c : ReplayCounters) (n : UInt64) : ReplayCounters :=
  { c with samples := c.samples + n }

/-- Bytes were sent. -/
def addBytes (c : ReplayCounters) (n : UInt64) : ReplayCounters :=
  { c with bytes := c.bytes + n }

/-- A block was due long before it could be sent. -/
def addUnderrun (c : ReplayCounters) : ReplayCounters := { c with underruns := c.underruns + 1 }

/-- A block could not be sent. -/
def addSendError (c : ReplayCounters) : ReplayCounters :=
  { c with sendErrors := c.sendErrors + 1 }

/-- A block was sent off its time. -/
def addTimingError (c : ReplayCounters) (nanos : UInt64) : ReplayCounters :=
  { c with timingError := c.timingError + nanos }

/-- A pass over the tape ended. -/
def addLoop (c : ReplayCounters) : ReplayCounters := { c with loops := c.loops + 1 }

/-- How long the session has run. -/
def elapsed (c : ReplayCounters) (now : Int) : Binary64 := secondsBetween c.startedAt now

/-- The mean timing error in microseconds; zero when nothing was sent. -/
def meanTimingError (c : ReplayCounters) : Binary64 :=
  if c.packets = 0 then .zero
  else
    ((Binary64.ofNat c.timingError.toNat).div (.ofNat c.packets.toNat)).div (.ofNat 1000)

/-- Samples sent, in millions per second. -/
def throughput (c : ReplayCounters) (time : Binary64) : Binary64 := megaPerSecond c.samples time

/-- The report as a value. -/
def toJson (c : ReplayCounters) (now : Int) : Json :=
  let elapsed := c.elapsed now
  .object [
    ("uptime_sec", .real elapsed),
    ("packets_sent", .nat c.packets.toNat),
    ("samples_sent", .nat c.samples.toNat),
    ("bytes_sent", .nat c.bytes.toNat),
    ("underruns", .nat c.underruns.toNat),
    ("send_errors", .nat c.sendErrors.toNat),
    ("timing", .object [
      ("error_ns_total", .nat c.timingError.toNat),
      ("avg_error_us", .real c.meanTimingError)]),
    ("throughput_msps", .real (c.throughput elapsed)),
    ("loops", .nat c.loops.toNat)]

/-- The report as text. -/
def text (c : ReplayCounters) (now : Int) : String :=
  let elapsed := c.elapsed now
  String.join [
    ruleLine,
    "  Duration      : ", places 1 elapsed, "s\n",
    "  Packets sent  : ", decimal c.packets.toNat, "\n",
    "  Samples sent  : ", decimal c.samples.toNat, "\n",
    "  Bytes sent    : ", places 1 (inMillions c.bytes), " MB\n",
    "  Underruns     : ", decimal c.underruns.toNat, "\n",
    "  Send errors   : ", decimal c.sendErrors.toNat, "\n",
    "  Throughput    : ", places 3 (c.throughput elapsed), " Msps\n",
    "  Timing error  : ", places 1 c.meanTimingError, " us avg\n",
    ruleLine]

end ReplayCounters

end IqTape
