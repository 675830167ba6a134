import IqTape.Config.Member
import IqTape.Console
import IqTape.Control.Command

/-!
# Answers in words

The client of a replayer shows an answer as it came or in words.  A member that is
not there is shown by its default; a member of another kind is a mistake of the
replayer, and its name is reported.

## Main definitions

* `Answer.take` — a member of an answer.
* `Answer.text` — a good answer in words.
* `Answer.shown` — what is shown of an answer.
-/

namespace IqTape

namespace Answer

/-! ### Members -/

/-- A member of an answer, or a default where there is none. -/
def take {α : Type} (kind : Json → Option α) (key : String) (default : α) (answer : Json) :
    Except String α :=
  match answer with
  | .object _ =>
    match answer.field? key with
    | none => .ok default
    | some v =>
      match kind v with
      | some a => .ok a
      | none => .error key
  | _ => .error key

/-- A text in an answer. -/
def takeText (key default : String) (answer : Json) : Except String String :=
  take Json.asText? key default answer

/-- A truth value in an answer, in words. -/
def takeFlag (key : String) (answer : Json) : Except String String := do
  return if ← take Json.asFlag? key false answer then "yes" else "no"

/-- A short count in an answer. -/
def takeShort (key : String) (answer : Json) : Except String String := do
  return integerText (← take Json.asInt32? key 0 answer)

/-- A long count in an answer. -/
def takeLong (key : String) (answer : Json) : Except String String := do
  return decimal (← take Json.asWord? key 0 answer).toNat

/-- A number in an answer. -/
def takeReal (layout : Layout) (key : String) (default : Binary64) (answer : Json) :
    Except String String := do
  return layout.write (← take Json.asReal? key default answer)

/-- A part of an answer in words, if there is one. -/
def takePart (key : String) (text : Json → Except String String) (answer : Json) :
    Except String String :=
  match answer.field? key with
  | some part => text part
  | none => .ok ""

/-! ### Texts -/

/-- The recording of a status in words. -/
def recordingText (h : Json) : Except String String := do
  return String.join [
    "\nRecording:\n",
    "  Device:         ", ← takeText "device" "?" h, "\n",
    "  Sample rate:    ", ← takeShort "sample_rate_hz" h, " Hz\n",
    "  Center freq:    ", ← takeLong "center_freq_hz" h, " Hz\n",
    "  Format:         ", ← takeText "sample_format" "?" h, "\n",
    "  Compression:    ", ← takeText "compression" "?" h, "\n",
    "  Total samples:  ", ← takeLong "total_samples" h, "\n"]

/-- A status in words. -/
def statusText (r : Json) : Except String String := do
  return String.join [
    "GLOS Replay Status\n",
    "==================\n",
    "Version:          ", ← takeText "version" "unknown" r, "\n",
    "Input:            ", ← takeText "input" "?" r, "\n",
    "Target:           udp://", ← takeText "target" "?" r, "\n",
    "Speed:            ", ← takeReal .plain "speed" .one r, "x\n",
    "Loop:             ", ← takeFlag "loop" r, "\n",
    "Running:          ", ← takeFlag "running" r, "\n",
    "Paused:           ", ← takeFlag "paused" r, "\n",
    "Loops completed:  ", ← takeShort "loops_completed" r, "\n",
    "Packets sent:     ", ← takeShort "packets_sent" r, "\n",
    ← takePart "header" recordingText r]

/-- The timing of the counters in words. -/
def timingText (t : Json) : Except String String := do
  return String.join [
    "\nTiming:\n",
    "  Avg error:  ", ← takeReal (.fixed 1) "avg_error_us" .zero t, " us\n",
    "  Total:      ", ← takeLong "error_ns_total" t, " ns\n"]

/-- The counters in words. -/
def statsText (r : Json) : Except String String := do
  return String.join [
    "GLOS Replay Statistics\n",
    "======================\n\n",
    "Uptime:       ", ← takeReal (.fixed 1) "uptime_sec" .zero r, " seconds\n",
    "Packets sent: ", ← takeShort "packets_sent" r, "\n",
    "Samples sent: ", ← takeLong "samples_sent" r, "\n",
    "Bytes sent:   ", ← takeLong "bytes_sent" r, "\n",
    "Underruns:    ", ← takeShort "underruns" r, "\n",
    "Send errors:  ", ← takeShort "send_errors" r, "\n",
    "Loops:        ", ← takeShort "loops" r, "\n",
    "Throughput:   ", ← takeReal (.fixed 3) "throughput_msps" .zero r, " Msps\n",
    ← takePart "timing" timingText r]

/-- A good answer in words. -/
def text (c : ControlCommand) (r : Json) : Except String String :=
  match c with
  | .status => statusText r
  | .stats => statsText r
  | .pause => (takeText "message" "Playback paused" r).map (· ++ "\n")
  | .resume => (takeText "message" "Playback resumed" r).map (· ++ "\n")
  | .stop => .ok "Replay stopping\n"

/-- Whether an answer is good. -/
def isGood (r : Json) : Except String Bool := (takeText "status" "" r).map (· == "ok")

/-- What is shown of an answer to a command, as it came or in words. -/
def shown (asItCame : Bool) (c : ControlCommand) (r : Json) : Except String Console := do
  if asItCame then return .report (r.pretty ++ "\n")
  else if ← isGood r then return .report (← text c r)
  else return .complain ("Error: " ++ (← takeText "error" "Unknown error" r) ++ "\n")

end Answer

end IqTape
