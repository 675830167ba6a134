import IqTape.Config.Options
import IqTape.Control.Answer
import IqTape.Control.Server

/-!
# The control client

The client sends one command to a running replayer and shows the answer, as it
came or in words.

## Main definitions

* `ClientOptions`, `ClientTool.prepare` — what a command line asks for.
* `ClientTool.connect`, `ClientTool.request` — the connection and the request.
* `ClientTool.conclude` — the end of the tool after an answer.
* `ClientTool.run` — the whole tool.
-/

namespace IqTape

/-- What a command line asks for. -/
structure ClientOptions where
  host : String
  port : UInt16
  /-- Whether the answer is shown as it came. -/
  json : Bool
  command : ControlCommand
  deriving DecidableEq, Repr, Inhabited

namespace ClientTool

/-! ### The command line -/

/-- The host when none is named. -/
def defaultHost : String := "localhost"

/-- The port when none is named. -/
def defaultPort : UInt16 := 5556

/-- What an option of the client means. -/
inductive Choice
  | host
  | port
  | json
  | help
  deriving DecidableEq, Repr

/-- The options of the client. -/
def rules : List (OptionRule Choice) := [
  ⟨'H', "host", true, .host⟩,
  ⟨'P', "port", true, .port⟩,
  ⟨'j', "json", false, .json⟩,
  ⟨'h', "help", false, .help⟩]

/-- How the client is called. -/
def usage (program : String) : String :=
  "Usage: " ++ program ++ " [OPTIONS] COMMAND\n\n" ++
  "Control client for glos-replayer (started with --control-port)\n\n" ++
  "Options:\n" ++
  "  -H, --host HOST     Replayer host (default: localhost)\n" ++
  "  -P, --port PORT     Control port (default: " ++ decimal defaultPort.toNat ++ ")\n" ++
  "  -j, --json          Output raw JSON\n" ++
  "  -h, --help          Show this help\n" ++
  "\n" ++
  "Commands:\n" ++
  "  status              Show replay status\n" ++
  "  stats               Show replay statistics\n" ++
  "  pause               Pause playback\n" ++
  "  resume              Resume playback\n" ++
  "  stop                Stop the replay\n" ++
  "\n" ++
  "Examples:\n" ++
  "  " ++ program ++ " -P 5556 status\n" ++
  "  " ++ program ++ " -H 192.168.1.100 -P 5556 pause\n" ++
  "  " ++ program ++ " -j stats\n" ++
  "\n"

/-- A port that is not zero: blanks, a sign and decimal digits. -/
def readPort? (text : List Char) : Option UInt16 :=
  let (negative, ds) := splitSign (text.dropWhile isSpace)
  if ds.isEmpty || !ds.all Char.isDigit || negative then none
  else
    let n := ofDigits 10 digitValue ds
    if n = 0 ∨ 65535 < n then none else some n.toUInt16

/-- What is wrong with a command line. -/
inductive LineFault
  /-- An argument is not an option of the client. -/
  | usage
  /-- The port is none. -/
  | badPort (text : String)
  | noCommand
  /-- There is an operand too many. -/
  | operand (text : String)
  | unknown (name : String)
  deriving DecidableEq, Repr

/-- What is said about a bad command line. -/
def LineFault.notice : LineFault → String
  | usage => ""
  | badPort text => "Error: Invalid port: " ++ text ++ "\n"
  | noCommand => "Error: No command specified\n"
  | operand text => "Error: Unexpected argument: " ++ text ++ "\n"
  | unknown name => "Error: Unknown command: " ++ name ++ "\n"

/-- What a command line comes to. -/
inductive Line
  | run (o : ClientOptions)
  | help
  | bad (f : LineFault)
  deriving DecidableEq, Repr

/-- The command among the operands. -/
def commandOf : Option (List String) → Except LineFault ControlCommand
  | none => .error .usage
  | some [] => .error .noCommand
  | some (_ :: operand :: _) => .error (.operand operand)
  | some [name] =>
    match ControlCommand.ofName? name with
    | some c => .ok c
    | none => .error (.unknown name)

/-- What the options and operands of a command line come to. -/
def lineOf (operands : Option (List String)) (o : ClientOptions) : List (Given Choice) → Line
  | [] =>
    match commandOf operands with
    | .ok c => .run { o with command := c }
    | .error f => .bad f
  | g :: rest =>
    let value := g.value.getD ""
    match g.meaning with
    | .host => lineOf operands { o with host := value } rest
    | .port =>
      match readPort? value.toList with
      | some port => lineOf operands { o with port := port } rest
      | none => .bad (.badPort value)
    | .json => lineOf operands { o with json := true } rest
    | .help => .help

/-- What a command line asks for; or the end of the tool. -/
def prepare (program : String) (arguments : List String) : Except ToolResult ClientOptions :=
  let line := scanOptions rules arguments
  match lineOf line.operands ⟨defaultHost, defaultPort, false, .status⟩ line.given with
  | .run o => .ok o
  | .help => .error (.success (usage program))
  | .bad f => .error (.failure ⟨usage program, f.notice⟩)

/-! ### The connection -/

/-- Why there is no connection. -/
inductive ConnectFault
  | noSocket
  | badHost (host : String)
  /-- The replayer is not reached. -/
  | notReached (host : String) (port : UInt16) (reason : String)
  deriving DecidableEq, Repr

/-- What is said when there is no connection. -/
def ConnectFault.notice : ConnectFault → String
  | noSocket => "Error: Cannot create socket\n"
  | badHost host => "Error: Invalid address: " ++ host ++ "\n"
  | notReached host port reason =>
    "Error: Cannot connect to " ++ host ++ ":" ++ decimal port.toNat ++ " - " ++ reason ++ "\n"

/-- The address of a replayer; only one host has a name. -/
def addressOf? (o : ClientOptions) : Option SocketAddress :=
  if (readHost? o.host.toList).isSome then some ⟨o.host, o.port⟩
  else if o.host = defaultHost then some ⟨"127.0.0.1", o.port⟩
  else none

/-- Connect to a replayer. -/
def connect (o : ClientOptions) (net : SocketAnswers) : List SocketCall × Option ConnectFault :=
  match net.create, addressOf? o, net.connect with
  | some _, _, _ => ([], some .noSocket)
  | none, none, _ => ([], some (.badHost o.host))
  | none, some there, some reason =>
    ([.connect there], some (.notReached o.host o.port reason))
  | none, some there, none => ([.connect there], none)

/-- The line that is sent. -/
def request (o : ClientOptions) : String :=
  (Json.object [("cmd", .string o.command.name)]).compact ++ "\n"

/-- The most bytes in an answer. -/
def maxAnswer : Nat := 65536

/-! ### The answer -/

/-- The line that answers, if it comes whole. -/
def answerOf? (received : Bytes) : Option Bytes :=
  let line := received.takeWhile (· != 0x0A)
  if line.length < received.length ∧ line.length ≤ maxAnswer then some line else none

/-- What is said about an answer that is not as it should be. -/
def malformed (reason : String) : String := "Error: Malformed response: " ++ reason ++ "\n"

/-- What is said when no answer could be used. -/
def notReceived : String := "Error: Failed to receive response\n"

/-- What is said when the request could not be sent. -/
def notSent : String := "Error: Failed to send request\n"

/-- The end of the tool after what was received. -/
def conclude [JsonLibrary] (o : ClientOptions) (received : Bytes) : ToolResult :=
  match answerOf? received with
  | none => .failure (.complain notReceived)
  | some line =>
    match JsonLibrary.readAll line with
    | .error f => .failure (.complain (malformed f.shown ++ notReceived))
    | .ok r =>
      match Answer.shown o.json o.command r, Answer.isGood r with
      | .ok console, .ok good => ⟨console, if good then 0 else 1⟩
      | .ok console, .error key => .failure (console ++ .complain (malformed key))
      | .error key, _ => .failure (.complain (malformed key))

/-! ### The tool -/

/-- How a replayer treats a client that has connected. -/
inductive Peer
  /-- It goes away before the request is sent. -/
  | gone
  /-- It sends something and goes away. -/
  | sends (bs : Bytes)
  deriving DecidableEq, Repr

/-- What the tool does. -/
structure Exchange where
  /-- The calls that set up the socket. -/
  calls : List SocketCall
  /-- What is sent, if there is a socket and someone to hear it. -/
  request : Option String
  result : ToolResult
  deriving DecidableEq, Repr

/-- The whole tool, given how the system and the replayer behave. -/
def run [JsonLibrary] (program : String) (arguments : List String) (net : SocketAnswers)
    (peer : Peer) : Exchange :=
  match prepare program arguments with
  | .error r => ⟨[], none, r⟩
  | .ok o =>
    match connect o net, peer with
    | (calls, some .noSocket), _ =>
      ⟨calls, none, .failure (.complain ConnectFault.noSocket.notice)⟩
    | (calls, some f), _ => ⟨calls, some "", .failure (.complain f.notice)⟩
    | (calls, none), .gone => ⟨calls, none, .failure (.complain notSent)⟩
    | (calls, none), .sends bs => ⟨calls, some (request o), conclude o bs⟩

end ClientTool

end IqTape
