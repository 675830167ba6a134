import IqTape.Json.Library
import IqTape.Replay.Session

/-!
# Control commands

A running replay is controlled by requests.  A request is an object that names a
command, and the reply is an object whose status says whether the command was
carried out.

## Main definitions

* `ControlCommand` — the five commands.
* `RequestFault` — what can be wrong with a request.
* `ControlCommand.ofRequest` — the command that a request names.
* `ControlCommand.apply`, `ControlCommand.reply` — its effect and its answer.
* `respond` — the answer to a request, and the session after it.
-/

namespace IqTape

/-- What a client can ask for. -/
inductive ControlCommand
  | status
  | stats
  | pause
  | resume
  | stop
  deriving DecidableEq, Repr, Inhabited

/-- What is wrong with a request. -/
inductive RequestFault
  /-- It is refused as a value. -/
  | notJson (words : String)
  /-- Its command is not a text. -/
  | notText (found : Json.Kind)
  | unknown (name : String)
  deriving DecidableEq, Repr

/-- What is said about a bad request. -/
def RequestFault.message : RequestFault → String
  | notJson words => "Invalid request: " ++ words
  | notText found => "Invalid request: " ++ Json.Kind.text.mismatch found
  | unknown name => "Unknown command: " ++ name

namespace ControlCommand

/-- The name of a command. -/
def name : ControlCommand → String
  | status => "status"
  | stats => "stats"
  | pause => "pause"
  | resume => "resume"
  | stop => "stop"

def all : List ControlCommand := [status, stats, pause, resume, stop]

/-- The command with a given name. -/
def ofName? (name : String) : Option ControlCommand := all.find? (·.name == name)

@[simp] theorem ofName?_name (c : ControlCommand) : ofName? c.name = some c := by
  cases c <;> decide

/-- The command that a request names.  A request without a command names the
empty one, which does not exist. -/
def ofRequest (request : Json) : Except RequestFault ControlCommand :=
  match (request.field? "cmd").getD (.string "") with
  | .string name =>
    match ofName? name with
    | some c => .ok c
    | none => .error (.unknown name)
  | command => .error (.notText command.kind)

/-- The session after a command. -/
def apply (c : ControlCommand) (s : ReplaySession) : ReplaySession :=
  match c with
  | status => s
  | stats => s
  | pause => s.pause
  | resume => s.resume
  | stop => s.requestStop

/-- The answer to a command, given to one of so many clients. -/
def reply (c : ControlCommand) (now : Int) (clients : Nat) (s : ReplaySession) : Json :=
  match c with
  | status => (s.toJson.set "status" (.string "ok")).set "control_clients" (.nat clients)
  | stats => (s.counters.toJson now).set "status" (.string "ok")
  | pause =>
    let told := if s.paused then [("message", Json.string "Already paused")] else []
    .object (told ++ [("status", .string "ok"), ("paused", .bool true)])
  | resume =>
    let told := if s.paused then [] else [("message", Json.string "Not paused")]
    .object (told ++ [("status", .string "ok"), ("paused", .bool false)])
  | stop => .object [("status", .string "ok")]

end ControlCommand

/-- The answer to a bad request. -/
def RequestFault.reply (f : RequestFault) : Json :=
  .object [("status", .string "error"), ("error", .string f.message)]

/-- The answer to a request, and the session after it. -/
def respond (now : Int) (clients : Nat) (request : Json) (s : ReplaySession) :
    Except RequestFault Json × ReplaySession :=
  match ControlCommand.ofRequest request with
  | .ok c => (.ok (c.reply now clients s), c.apply s)
  | .error f => (.error f, s)

/-- The answer to a request or to what should be one. -/
def replyOf : Except RequestFault Json → Json
  | .ok reply => reply
  | .error f => f.reply

end IqTape
