import IqTape.Config.Address

/-!
# Sockets

A socket is set up by a few calls to the system.  What the system answers is not
decided here: a machine that needs a socket is handed the answers, and says which
calls it has made.

## Main definitions

* `SocketAnswers` — how the system answers.
* `SocketCall`, `SocketCall.text` — a call that was made.
* `SocketAddress.endpoint` — the host of an address as the system writes it.
-/

namespace IqTape

/-- How the system answers the calls that set up a socket.  A text says why a
call failed. -/
structure SocketAnswers where
  /-- The answer to making a socket. -/
  create : Option String
  /-- The answer to binding it to a local address. -/
  bind : Option String
  connect : Option String
  /-- The answer to listening on it. -/
  listen : Option String
  /-- The port that the system picks where none is asked for. -/
  freePort : UInt16
  deriving DecidableEq, Repr, Inhabited

namespace SocketAnswers

/-- The port that a socket gets when it asks for one; zero leaves the choice to
the system. -/
def portFor (a : SocketAnswers) (port : UInt16) : UInt16 := if port = 0 then a.freePort else port

end SocketAnswers

/-- A host as the system writes it, with a port. -/
def SocketAddress.endpoint (a : SocketAddress) : String :=
  String.ofList (untilNul a.host.toList) ++ ":" ++ decimal a.port.toNat

/-- A call that sets up a socket. -/
inductive SocketCall
  /-- Bind the socket to a local address. -/
  | bind (a : SocketAddress)
  | connect (a : SocketAddress)
  deriving DecidableEq, Repr

/-- A call in words. -/
def SocketCall.text : SocketCall → String
  | bind a => "bind " ++ a.endpoint
  | connect a => "connect " ++ a.endpoint

end IqTape
