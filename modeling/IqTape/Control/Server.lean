import IqTape.Control.Command
import IqTape.Control.Line

/-!
# The control server

A server listens on a port and answers each line of a client with one line.  A
line that is not a request is answered too, so that a client can match answers to
requests by counting.  Only where the library that reads the lines refuses one with
words that are no text, there is no answer: the program comes to its end.

## Main definitions

* `ControlServer` — the state of a server.
* `ControlServer.start`, `ControlServer.stop` — begin and end listening.
* `answerLine` — the answer to one line.
* `converse`, `written` — the answers to bytes that come in, and what is written for them.
* `serve` — the answers to what a client sends.
-/

namespace IqTape

/-- A control server. -/
structure ControlServer where
  running : Bool
  port : UInt16
  deriving DecidableEq, Repr, Inhabited

/-- Why a server does not listen. -/
inductive ListenFault
  | noSocket (reason : String)
  /-- The socket does not get its port. -/
  | notBound (port : Int) (reason : String)
  /-- The socket does not listen. -/
  | notListening (reason : String)
  deriving DecidableEq, Repr

/-- What is said when a server does not listen. -/
def ListenFault.notice : ListenFault → String
  | noSocket reason => "Error: Cannot create control socket: " ++ reason ++ "\n"
  | notBound port reason =>
    "Error: Cannot bind control socket to port " ++ integerText port ++ ": " ++ reason ++ "\n"
  | notListening reason => "Error: listen failed: " ++ reason ++ "\n"

namespace ControlServer

/-- A server that has not been started. -/
def idle : ControlServer := ⟨false, 0⟩

/-- The local address of a server: any host, and the low bits of a port. -/
def address (port : Int) : SocketAddress := ⟨"0.0.0.0", (port % 2 ^ 16).toNat.toUInt16⟩

/-- Begin to listen, unless the server listens already. -/
def start (port : Int) (net : SocketAnswers) (server : ControlServer) :
    ControlServer × List SocketCall × Option ListenFault :=
  if server.running then (server, [], none)
  else
    let here := address port
    match net.create, net.bind, net.listen with
    | some reason, _, _ => (server, [], some (.noSocket reason))
    | none, some reason, _ => (server, [.bind here], some (.notBound port reason))
    | none, none, some reason => (server, [.bind here], some (.notListening reason))
    | none, none, none => (⟨true, net.portFor here.port⟩, [.bind here], none)

/-- What is said when a server listens. -/
def notice (server : ControlServer) : String :=
  "[replayer] Control server listening on TCP port: " ++ decimal server.port.toNat ++ "\n"

/-- What is said when a server was to begin to listen: what went wrong, or, unless
only errors are printed, that it listens now. -/
def startNotice (quiet : Bool) (before after : ControlServer) : Option ListenFault → Console
  | some f => .complain f.notice
  | none => if before.running || quiet then .silent else .report after.notice

def stop (server : ControlServer) : ControlServer := { server with running := false }

end ControlServer

/-- The answer to one line, and the session after it; none where the program comes to its
end.  A line that is refused is answered with the words of the library, and these cannot
be written unless they are a text. -/
def answerLine [JsonLibrary] (now : Int) (clients : Nat) (line : Bytes) (s : ReplaySession) :
    Option (Json × ReplaySession) :=
  match JsonLibrary.readAll line with
  | .error f => f.text?.map fun words => ((RequestFault.notJson words).reply, s)
  | .ok request =>
    let (answer, s) := respond now clients request s
    some (replyOf answer, s)

/-- The answers to lines, the session after them, and whether the program goes on. -/
def answerLines [JsonLibrary] (now : Int) (clients : Nat) : List Bytes → ReplaySession →
    List Json × ReplaySession × Bool
  | [], s => ([], s, true)
  | line :: rest, s =>
    match answerLine now clients line s with
    | none => ([], s, false)
    | some (answer, s) =>
      let (answers, s, goesOn) := answerLines now clients rest s
      (answer :: answers, s, goesOn)

/-- The answers to bytes that come in on a connection, with its unfinished line and
the session after them, and whether the program goes on. -/
def converse [JsonLibrary] (now : Int) (clients : Nat) (bs : Bytes) (cutter : LineCutter)
    (s : ReplaySession) : List Json × LineCutter × ReplaySession × Bool :=
  let (lines, cutter) := LineCutter.feedAll [] bs cutter
  let (answers, s, goesOn) := answerLines now clients lines s
  (answers, cutter, s, goesOn)

/-- What is written for some answers, each on a line. -/
def written (answers : List Json) : String := String.join (answers.map fun a => a.compact ++ "\n")

/-- The answers to all that a client sends, while so many clients are connected. -/
def serve [JsonLibrary] (now : Int) (clients : Nat) (bs : Bytes) (s : ReplaySession) :
    List Json × ReplaySession :=
  let (answers, s, _) := answerLines now clients (linesOf bs) s
  (answers, s)

end IqTape
