import IqTape.Config.Replayer
import IqTape.Console
import IqTape.Replay.Counters
import IqTape.Tape.Reader

/-!
# What a replayer says

## Main definitions

* `SetupFault`, `SetupFault.notice` — why a replay cannot begin.
* `ReplayNotice`, `ReplayNotice.console` — something that a replayer says, and its
  text on the channel it goes to.
-/

namespace IqTape

/-- Why a replay cannot begin. -/
inductive SetupFault
  /-- The speed is not a positive number. -/
  | badSpeed (speed : Binary64)
  | badTarget (text : String)
  /-- The tape cannot be read. -/
  | notOpened (path : String) (f : Fault)
  /-- The local address is none. -/
  | badBind (text : String)
  | noSocket (reason : String)
  /-- The socket does not get its local address. -/
  | notBound (address reason : String)
  /-- The socket does not reach the target. -/
  | notConnected (address reason : String)
  deriving DecidableEq, Repr

/-- What is said when a replay cannot begin. -/
def SetupFault.notice : SetupFault → String
  | badSpeed speed =>
    "Error: Replay speed must be > 0 (got " ++ Layout.plain.write speed ++ ")\n"
  | badTarget text => "Error: Invalid target address: " ++ text ++ "\n"
  | notOpened path f => "Error: Cannot open " ++ path ++ ": " ++ f.message ++ "\n"
  | badBind text => "Error: Invalid bind address: " ++ text ++ "\n"
  | noSocket reason => "Error: Cannot create UDP socket: " ++ reason ++ "\n"
  | notBound address reason =>
    "Error: Cannot bind UDP socket to " ++ address ++ ": " ++ reason ++ "\n"
  | notConnected address reason =>
    "Error: Cannot connect UDP socket to " ++ address ++ ": " ++ reason ++ "\n"

/-- The figures of a progress line. -/
structure ReplayProgress where
  /-- How long the session has run. -/
  elapsed : Binary64
  counters : ReplayCounters
  detailed : Bool
  deriving DecidableEq, Repr, Inhabited

def ReplayProgress.text (p : ReplayProgress) : String :=
  let c := p.counters
  let details :=
    if p.detailed then String.join [
      " send_errors=", decimal c.sendErrors.toNat, " rate=", places 3 (c.throughput p.elapsed),
      "Msps"]
    else ""
  String.join [
    "[replayer] [ ", places 0 p.elapsed, "s ] packets=", decimal c.packets.toNat,
    " samples=", decimal c.samples.toNat, " underruns=", decimal c.underruns.toNat,
    " timing_err=", places 1 c.meanTimingError, "us", details, "\n"]

/-- Something that a replayer says. -/
inductive ReplayNotice
  /-- The replay cannot begin. -/
  | notSetUp (f : SetupFault)
  /-- The replay was not set up. -/
  | notReady
  | starting (c : ReplayConfig) (h : Header)
  | loop (pass : Nat)
  /-- The tape cannot be read again. -/
  | notReopened (path : String) (f : Fault)
  /-- The source of the tape failed. -/
  | sourceFailed
  /-- A block does not fit a datagram. -/
  | notFramed (b : Block) (f : Fault)
  /-- A datagram was not sent. -/
  | notSent (reason : String)
  | progress (p : ReplayProgress)
  /-- The tape could not be read to its end. -/
  | cutShort (path : String) (f : Fault)
  | damaged (blocks : UInt64)
  | endOfTape (blocks : Nat) (samples : UInt64)
  /-- A tape without blocks is not started again. -/
  | noBlocks (path : String)
  | finished (c : ReplayCounters) (now : Int)
  deriving Repr

/-- The text of a notice, on the channel it goes to. -/
def ReplayNotice.console : ReplayNotice → Console
  | notSetUp f => .complain f.notice
  | notReady => .complain "Error: Replay session not initialized\n"
  | starting c h => .report <| String.join [
    "[replayer] ", c.input, ": ", h.radio.name, ", ", decimal h.rate.toNat, " Hz, center=",
    decimal h.frequency.toNat, " Hz, ", h.format.name, ", ", h.form.name, "\n",
    "[replayer] Sending to udp://", c.target, " at ", Layout.plain.write c.speed, "x",
    if c.loop then " (looping)" else "", "\n"]
  | loop pass => .report <| "[replayer] Loop #" ++ decimal pass ++ "\n"
  | notReopened path f =>
    .complain <| "Error: Cannot reopen " ++ path ++ ": " ++ f.message ++ "\n"
  | sourceFailed => .complain Reader.failureNotice
  | notFramed b f => .complain <| String.join [
    "Warning: Cannot frame block at ", decimal b.timestamp.toNat, " (",
    decimal b.payload.length, " bytes): ", f.message, "\n"]
  | notSent reason => .complain <| "Warning: send failed: " ++ reason ++ "\n"
  | progress p => .report p.text
  | cutShort path f =>
    .complain <| "Warning: Read error in " ++ path ++ ": " ++ f.message ++ "\n"
  | damaged blocks =>
    .complain <| "Warning: Skipped " ++ decimal blocks.toNat ++ " corrupted blocks\n"
  | endOfTape blocks samples => .report <| String.join [
    "[replayer] EOF: ", decimal blocks, " blocks, ", decimal samples.toNat, " samples\n"]
  | noBlocks path => .complain <| "Warning: No blocks in " ++ path ++ ", not looping\n"
  | finished c now => .report <| "[replayer] Replay finished\n" ++ c.text now

end IqTape
