import IqTape.Capture.Counters
import IqTape.Capture.Device
import IqTape.Console
import IqTape.Tape.Writer

/-!
# What a recorder says

## Main definitions

* `Progress` — the figures of a progress line.
* `RecorderNotice` — something that a recorder says.
* `RecorderNotice.console` — its text, on the channel it goes to.
-/

namespace IqTape

/-- The state of a queue in a progress line. -/
structure QueueFigures where
  size : Nat
  capacity : Nat
  /-- The most chunks that were in the queue. -/
  highWater : Nat
  deriving DecidableEq, Repr, Inhabited

/-- The figures of a progress line. -/
structure Progress where
  /-- How long the session has run. -/
  elapsed : Binary64
  counters : CaptureCounters
  /-- The queue, if details are wanted. -/
  queue : Option QueueFigures
  deriving DecidableEq, Repr, Inhabited

def Progress.text (p : Progress) : String :=
  let c := p.counters
  let details := match p.queue with
    | none => ""
    | some q => String.join [
        " queue=", decimal q.size, "/", decimal q.capacity, " high_water=", decimal q.highWater,
        " write_errors=", decimal c.writeErrors.toNat]
  String.join [
    "[recorder] [ ", places 0 p.elapsed, "s ] samples=", decimal c.samples.toNat,
    " blocks=", decimal c.blocks.toNat, " dropped=", decimal c.droppedSamples.toNat,
    " (", places 2 c.dropRate, "%) speed=", places 1 (megaPerSecond c.bytes p.elapsed), "MB/s",
    details, "\n"]

/-- Something that a recorder says. -/
inductive RecorderNotice
  /-- The device does not deliver what the tape is to hold. -/
  | formatMismatch (device tape : SampleFormat)
  /-- The tape could not be started. -/
  | notStarted (f : Writer.OpenFault)
  | starting (d : DeviceInfo)
  /-- The session has lasted as long as it should. -/
  | limitReached (seconds : UInt64)
  /-- The session was asked to stop. -/
  | stopRequested
  /-- The device has finished and the queue is empty. -/
  | captureEnded
  /-- A chunk has more or fewer bytes than its samples take. -/
  | discarded (bytes : Nat) (samples : UInt32)
  /-- A block could not be written. -/
  | notWritten (f : Fault)
  | progress (p : Progress)
  /-- The last block was shorter than the others. -/
  | flushed (samples : UInt32)
  | deviceFailed
  /-- The tape could not be finished. -/
  | notFinished (name : String) (f : Writer.FinishFault)
  | finished (name : String) (blocks samples : UInt64)
  deriving DecidableEq, Repr

/-- The text of a notice, on the channel it goes to. -/
def RecorderNotice.console : RecorderNotice → Console
  | formatMismatch device tape => .complain <|
    "Warning: Device produces " ++ device.name ++ " but the file is " ++ tape.name ++ "\n"
  | notStarted f => .complain f.notice
  | starting d => .report <| String.join [
    "[recorder] Starting: ", d.name, " @ ", decimal d.rate.toNat, " Hz, center=",
    decimal d.frequency.toNat, " Hz, gain=", Layout.plain.writeSingle d.gain, " dB\n"]
  | limitReached seconds => .report <|
    "[recorder] Duration limit reached (" ++ decimal seconds.toNat ++ "s), finalizing\n"
  | stopRequested => .report "[recorder] Stop requested, finalizing\n"
  | captureEnded => .report "[recorder] Capture ended, flushing\n"
  | discarded bytes samples => .complain <| String.join [
    "Warning: Discarding chunk with ", decimal bytes, " bytes for ", decimal samples.toNat,
    " samples\n"]
  | notWritten f => .complain <| "Warning: Write error: " ++ f.message ++ "\n"
  | progress p => .report p.text
  | flushed samples => .report <|
    "[recorder] Flushed partial block (" ++ decimal samples.toNat ++ " samples)\n"
  | deviceFailed => .complain "Warning: Capture thread finished with error\n"
  | notFinished name f => .complain <|
    f.notice ++ "Error: Failed to finalize " ++ name ++ ": " ++ Fault.io.message ++ "\n"
  | finished name blocks samples => .report <| String.join [
    "[recorder] File finalized: ", name, " (", decimal blocks.toNat, " blocks, ",
    decimal samples.toNat, " samples)\n"]

end IqTape
