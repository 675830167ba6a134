import IqTape.Tool.Client
import IqTape.Tool.Info
import IqTape.Tool.Record
import IqTape.Tool.Replay
import Std.Async.Signal
import Std.Async.TCP
import Std.Async.UDP

/-!
# The command line

One program holds the four tools, and its first argument names one of them.  All
decisions are made by the machines and functions of the other modules.  Here the
clocks are read, files and sockets are opened, and the machines are stepped in turn:
a recording between the simulated device and the writer, a replay between the
schedule and the control connections.
-/

namespace IqTape

namespace Live

/-! ### Clocks, consoles and files -/

/-- What the clocks show now. -/
def readMoment : IO Moment := do
  let steady ← IO.monoNanosNow
  let wall ← Std.Time.Timestamp.now
  return ⟨steady, wall.toNanosecondsSinceUnixEpoch.val⟩

/-- Print on both channels. -/
def say (c : Console) : IO Unit := do
  IO.print c.out
  (← IO.getStdout).flush
  IO.eprint c.err

/-- Print the end of a tool. -/
def close (r : ToolResult) : IO UInt32 := do
  say r.console
  return r.code.toUInt32

/-- What a file holds, if it can be opened. -/
def readSource? (name : String) : IO (Option Source) := do
  match ← EIO.toBaseIO <| IO.FS.Handle.mk name .read with
  | .error _ => return none
  | .ok handle =>
    match ← EIO.toBaseIO handle.readBinToEnd with
    | .error _ => return some .unreadable
    | .ok data => return some (.ofBytes data.toList)

/-- The text of the file that a command line names for settings. -/
def readSettings (arguments : List String) : IO FileTexts := do
  let name := configFile arguments
  let text ← EIO.toBaseIO <| IO.FS.readFile name
  return fun asked => if asked = name then text.toOption else none

/-- Create a file, if that is possible. -/
def create? (name : String) : IO (Option IO.FS.Handle) := do
  let handle ← EIO.toBaseIO <| IO.FS.Handle.mk name .write
  return handle.toOption

/-- A look at whether the program has been interrupted. -/
abbrev Watch := IO Bool

/-- Watch out for interrupts from now on. -/
def watchInterrupt : IO Watch := do
  let waiter ← Std.Async.Signal.Waiter.mk .sigint false
  let signal ← waiter.wait
  return IO.hasFinished signal

/-! ### Recording -/

/-- Step the device and the writer in turn until the writer is through.  The device
sleeps until `wake`. -/
partial def record (interrupted : Watch) (d : ToneDevice) (run : ToneRun) (wake : Int)
    (r : Recording) : IO Recording := do
  let now ← readMoment
  let r := if ← interrupted then r.requestStop else r
  let (r, said) := r.settle now
  say (.join (said.map (·.console)))
  if r.isOver then return r
  if run.phase = .ended ∨ now.steady < wake then
    IO.sleep 1
    record interrupted d run wake r
  else
    let (run, action) := run.step d r.stopping now.steady
    let (r, said) := if run.phase = .ended then r.deviceDone true else (r, [])
    say (.join (said.map (·.console)))
    match action with
    | .nothing => record interrupted d run wake r
    | .offer c => record interrupted d run wake (r.offer c).2
    | .sleep nanos => record interrupted d run (now.steady + nanos) r

def recorder (program : String) (arguments : List String) : IO UInt32 := do
  match RecorderTool.prepare program (← readSettings arguments) arguments with
  | .error r => close r
  | .ok (c, d) =>
    let file ← create? c.output
    let now ← readMoment
    let (r, said) := RecorderTool.launch now (file.map fun _ => .empty) c d.info
    say said
    let r ← if r.isOver then pure r else
      match ToneRun.begin d now with
      | .error f =>
        say (.complain f.notice)
        pure ((r.deviceDone false).1.settle now).1
      | .ok run => record (← watchInterrupt) d run now.steady r
    if let some handle := file then handle.write ⟨r.writer.sink.content.toArray⟩
    close (RecorderTool.conclude (← readMoment).steady r)

/-! ### Sockets -/

/-- The words of the system for what went wrong. -/
def words : IO.Error → String
  | .alreadyExists _ _ details | .invalidArgument _ _ details | .permissionDenied _ _ details
  | .resourceExhausted _ _ details | .inappropriateType _ _ details | .noSuchThing _ _ details
  | .interrupted _ _ details | .noFileOrDirectory _ _ details
  | .otherError _ details | .resourceBusy _ details | .resourceVanished _ details
  | .unsupportedOperation _ details | .hardwareFault _ details
  | .unsatisfiedConstraints _ details | .illegalOperation _ details | .protocolError _ details
  | .timeExpired _ details => details.capitalize
  | .unexpectedEof => "Unexpected end"
  | .userError text => text

/-- Why a call failed, if it did. -/
def reason? (call : IO Unit) : IO (Option String) := do
  match ← EIO.toBaseIO call with
  | .ok () => return none
  | .error e => return some (words e)

/-- An address as a socket wants it. -/
def endpointOf (a : SocketAddress) : Std.Net.SocketAddress :=
  .v4 ⟨(Std.Net.IPv4Addr.ofString a.host).getD (.ofParts 0 0 0 0), a.port⟩

/-- Make a socket for datagrams as the settings say.  There is none if they make no
sense; whoever gets the answers sees that first. -/
def datagramSocket (c : ReplayConfig) : IO (Option Std.Async.UDP.Socket × SocketAnswers) := do
  match SocketAddress.read? c.bind, (normalTarget? c.target).bind SocketAddress.read? with
  | some here, some there =>
    match ← EIO.toBaseIO Std.Async.UDP.Socket.mk with
    | .error e => return (none, ⟨some (words e), none, none, none, 0⟩)
    | .ok socket =>
      match ← reason? (socket.bind (endpointOf here)) with
      | some reason => return (none, ⟨none, some reason, none, none, 0⟩)
      | none =>
        let connected ← reason? (socket.connect (endpointOf there))
        return (some socket, ⟨none, none, connected, none, (← socket.getSockName).port⟩)
  | _, _ => return (none, ⟨none, none, none, none, 0⟩)

/-- Make a socket that listens on a port. -/
def listener (port : Int) : IO (Option Std.Async.TCP.Socket.Server × SocketAnswers) := do
  match ← EIO.toBaseIO Std.Async.TCP.Socket.Server.mk with
  | .error e => return (none, ⟨some (words e), none, none, none, 0⟩)
  | .ok socket =>
    match ← reason? (socket.bind (endpointOf (ControlServer.address port))) with
    | some reason => return (none, ⟨none, some reason, none, none, 0⟩)
    | none =>
      let listening ← reason? (socket.listen 8)
      return (some socket, ⟨none, none, none, listening, (← socket.getSockName).port⟩)

/-! ### Replaying -/

/-- A control connection: the bytes that it waits for, and its unfinished line. -/
structure Connection where
  socket : Std.Async.TCP.Socket.Client
  next : Std.Async.AsyncTask (Option ByteArray)
  cutter : LineCutter

/-- Wait for bytes on a connection. -/
def Connection.await (socket : Std.Async.TCP.Socket.Client) (cutter : LineCutter) :
    IO Connection := do
  return ⟨socket, ← Std.Async.Async.toIO (socket.recv? 4096), cutter⟩

/-- Answer what has come in on a connection; the connection goes on unless it has
ended. -/
def Connection.serve (c : Connection) (clients : Nat) (s : ReplaySession) :
    IO (Option Connection × ReplaySession) := do
  if !(← IO.hasFinished c.next) then return (some c, s)
  match ← EIO.toBaseIO c.next.block with
  | .error _ => return (none, s)
  | .ok none => return (none, s)
  | .ok (some data) =>
    let (answers, cutter, s, goesOn) :=
      converse (← IO.monoNanosNow) clients data.toList c.cutter s
    if !goesOn then throw (IO.userError "an answer is no text")
    let text := written answers
    let failed ← reason? (if text.isEmpty then pure () else (c.socket.send text.toUTF8).block)
    if failed.isSome ∨ cutter = .closed then return (none, s)
    return (some (← Connection.await c.socket cutter), s)

/-- A running replay: its sockets and its control connections. -/
structure Stage where
  input : String
  socket : Option Std.Async.UDP.Socket
  server : Option Std.Async.TCP.Socket.Server
  connections : List Connection
  /-- Whether the program has been interrupted. -/
  interrupted : Watch

/-- Let control connections in, and answer them. -/
def Stage.attend (stage : Stage) (s : ReplaySession) : IO (Stage × ReplaySession) := do
  let s := if ← stage.interrupted then s.requestStop else s
  let newcomer ← match stage.server with
    | some server => server.tryAccept
    | none => pure none
  let connections ← match newcomer with
    | some socket => do pure (stage.connections ++ [← Connection.await socket .fresh])
    | none => pure stage.connections
  let mut s := s
  let mut left : List Connection := []
  for c in connections do
    let (c, later) ← c.serve connections.length s
    s := later
    left := left ++ c.toList
  return ({ stage with connections := left }, s)

/-- Sleep until a time, and answer control connections meanwhile. -/
partial def Stage.sleepUntil (deadline : Int) (stage : Stage) (s : ReplaySession) :
    IO (Stage × ReplaySession) := do
  let (stage, s) ← stage.attend s
  let left := deadline - (← IO.monoNanosNow)
  if left ≤ 0 ∨ s.stopping then return (stage, s)
  IO.sleep (min 10 (left / 1000000)).toNat.toUInt32
  stage.sleepUntil deadline s

/-- Try to send the datagram that a session is about to send. -/
def Stage.trySend (stage : Stage) (s : ReplaySession) : IO (Option String) :=
  match s.phase, stage.socket with
  | .sending _ datagram, some socket => reason? (socket.send ⟨datagram.toArray⟩).block
  | _, _ => pure none

/-- Step a session until it is over. -/
partial def Stage.run (stage : Stage) (s : ReplaySession) : IO Bool := do
  match s.result? with
  | some ok => return ok
  | none =>
    let (stage, s) ← stage.attend s
    let tape ← if s.phase = .opening then readSource? stage.input else pure none
    let fault ← stage.trySend s
    let now : Int ← IO.monoNanosNow
    let (s, deed, notices) := s.step ⟨now, tape, fault⟩
    say (.join (notices.map (·.console)))
    let (stage, s) ← match deed with
      | .sleep nanos => stage.sleepUntil (now + nanos) s
      | _ => pure (stage, s)
    stage.run s

def replayer (program : String) (arguments : List String) : IO UInt32 := do
  match ReplayerTool.prepare program (← readSettings arguments) arguments with
  | .error r => close r
  | .ok c =>
    let (socket, net) ← datagramSocket c
    let (server, control) ← if 0 < c.controlPort then listener c.controlPort else pure (none, net)
    let tape ← readSource? c.input
    match ReplayerTool.launch (← IO.monoNanosNow) tape net control c with
    | (_, .error r) => close r
    | (_, .ok l) =>
      say l.console
      let (s, notices) := l.session.begin (← IO.monoNanosNow)
      say (.join (notices.map (·.console)))
      let ok ← Stage.run ⟨c.input, socket, server, [], ← watchInterrupt⟩ s
      return if ok then 0 else 1

/-! ### The client -/

/-- Bytes from a connection up to a line break, its end, or more than an answer has. -/
partial def receiveLine (socket : Std.Async.TCP.Socket.Client) (found : Bytes) : IO Bytes := do
  if found.contains 0x0A ∨ ClientTool.maxAnswer < found.length then return found
  match ← EIO.toBaseIO (socket.recv? 65536).block with
  | .ok (some data) => receiveLine socket (found ++ data.toList)
  | _ => return found

def client (program : String) (arguments : List String) : IO UInt32 := do
  match ClientTool.prepare program arguments with
  | .error r => close r
  | .ok o =>
    match ← EIO.toBaseIO Std.Async.TCP.Socket.Client.mk with
    | .error _ => close (.failure (.complain ClientTool.ConnectFault.noSocket.notice))
    | .ok socket =>
      let refused ← match ClientTool.addressOf? o with
        | some there => reason? (socket.connect (endpointOf there)).block
        | none => pure none
      match ClientTool.connect o ⟨none, none, refused, none, 0⟩ with
      | (_, some f) => close (.failure (.complain f.notice))
      | (_, none) =>
        match ← reason? (socket.send (ClientTool.request o).toUTF8).block with
        | some _ => close (.failure (.complain ClientTool.notSent))
        | none => close (ClientTool.conclude o (← receiveLine socket []))

/-! ### The inspector -/

/-- The inspector; any argument may be the file. -/
def inspect (program : String) (arguments : List String) : IO UInt32 := do
  let sources ← arguments.mapM fun name => do return (name, ← readSource? name)
  close (inspector program (fun name => (sources.lookup name).join) arguments)

end Live

end IqTape

/-- Run the tool that the first argument names. -/
def main (arguments : List String) : IO UInt32 :=
  match arguments with
  | "recorder" :: rest => IqTape.Live.recorder "glos-recorder" rest
  | "replayer" :: rest => IqTape.Live.replayer "glos-replayer" rest
  | "info" :: rest => IqTape.Live.inspect "glos-info" rest
  | "ctl" :: rest => IqTape.Live.client "glos-ctl" rest
  | _ => do
    IO.eprintln "usage: recorder | replayer | info | ctl, and the arguments of the tool"
    return 1
