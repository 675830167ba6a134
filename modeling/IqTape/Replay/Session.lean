import IqTape.Number.Rate
import IqTape.Net.Socket
import IqTape.Replay.Datagram
import IqTape.Replay.Notice
import IqTape.Replay.Schedule

/-!
# Replaying a tape

A session reads the blocks of a tape, waits for each until it is due and sends it
as a datagram.  When the end is reached it starts again, if it is to loop.  It may
be paused, resumed and stopped at any time; a stop takes effect before the next
block is read and once more before a block is sent.

The replay is a machine that makes one step at a time.  At each step it is told
what it meets outside: the time, the tape as it is now, and whether a datagram can
be sent.  Requests come in between steps, in any order.

## Main definitions

* `ReplaySession`, `ReplayPhase` — the state of a session, and what it does next.
* `Surroundings`, `ReplayDeed` — what a step meets, and what it does outside.
* `ReplaySession.setUp`, `ReplaySession.begin`, `ReplaySession.step` — the replay.
* `ReplaySession.pause`, `ReplaySession.resume`, `ReplaySession.requestStop` —
  requests.
-/

namespace IqTape

/-- What a replay does next. -/
inductive ReplayPhase
  /-- It looks at the stop flag before a pass over the tape. -/
  | between
  | opening
  /-- It looks at the stop flag and reads a block. -/
  | reading
  /-- It waits until a block is due. -/
  | waiting (b : Block) (w : Wait)
  /-- It looks at the stop flag before it sends a block. -/
  | deciding (b : Block)
  | sending (b : Block) (datagram : Bytes)
  /-- It has tried to send a block. -/
  | tried (b : Block)
  | closing
  | finishing (ok : Bool)
  /-- The replay is over, or has not begun. -/
  | over (ok : Bool)
  deriving DecidableEq, Repr, Inhabited

/-- A replay with its tape and its flags. -/
structure ReplaySession where
  config : ReplayConfig
  /-- The header of the tape when the session was set up. -/
  header : Header
  counters : ReplayCounters
  /-- The local port, if there is a socket. -/
  port : Option UInt16
  /-- Whether the session has been set up. -/
  ready : Bool
  /-- Whether the session is asked to stop. -/
  stopping : Bool
  paused : Bool
  running : Bool
  phase : ReplayPhase
  /-- When blocks are due. -/
  schedule : Schedule
  reader : Reader
  passes : Nat
  /-- Blocks sent or tried in this pass. -/
  blocks : Nat
  samples : UInt64
  /-- The clock at the last progress line. -/
  reportedAt : Int
  deriving Inhabited

/-- What a step meets outside. -/
structure Surroundings where
  now : Int
  /-- The tape, if it can be opened. -/
  tape : Option Source
  /-- Why a datagram cannot be sent, if that is so. -/
  sendFault : Option String

/-- What a step does outside. -/
inductive ReplayDeed
  | nothing
  | sleep (nanos : Int)
  /-- It tries to send a datagram. -/
  | send (datagram : Bytes)
  deriving DecidableEq, Repr

/-- What a step comes to. -/
abbrev ReplaySession.Outcome := ReplaySession × ReplayDeed × List ReplayNotice

namespace ReplaySession

/-- A session that has not been set up. -/
def idle (config : ReplayConfig) (now : Int) : ReplaySession where
  config := config
  header := .blank
  counters := .fresh now
  port := none
  ready := false
  stopping := false
  paused := false
  running := false
  phase := .over false
  schedule := .starting config.speed now
  reader := .idle .standard
  passes := 0
  blocks := 0
  samples := 0
  reportedAt := now

/-! ### Requests -/

/-- Ask the session to stop; that ends a pause. -/
def requestStop (s : ReplaySession) : ReplaySession := { s with stopping := true, paused := false }

def pause (s : ReplaySession) : ReplaySession := { s with paused := true }

def resume (s : ReplaySession) : ReplaySession := { s with paused := false }

/-- The state of the session as a value. -/
def toJson (s : ReplaySession) : Json :=
  .object [
    ("replayer", .string ReplayConfig.toolName),
    ("version", .string toolsVersion),
    ("running", .bool s.running),
    ("paused", .bool s.paused),
    ("stopping", .bool s.stopping),
    ("input", .string s.config.input),
    ("target", .string s.config.target),
    ("speed", .real s.config.speed),
    ("loop", .bool s.config.loop),
    ("loops_completed", .nat s.counters.loops.toNat),
    ("packets_sent", .nat s.counters.packets.toNat),
    ("header", s.header.toJson)]

/-! ### Setting up -/

/-- Make the socket of a session. -/
def openSocket (net : SocketAnswers) (s : ReplaySession) :
    ReplaySession × List SocketCall × Option SetupFault :=
  match SocketAddress.read? s.config.bind, SocketAddress.read? s.config.target with
  | none, _ => (s, [], some (.badBind s.config.bind))
  | some _, none => (s, [], some (.badTarget s.config.target))
  | some here, some there =>
    let closed := { s with port := none }
    match net.create, net.bind, net.connect with
    | some reason, _, _ => (closed, [], some (.noSocket reason))
    | none, some reason, _ =>
      (closed, [.bind here], some (.notBound s.config.bind reason))
    | none, none, some reason =>
      (closed, [.bind here, .connect there], some (.notConnected s.config.target reason))
    | none, none, none =>
      ({ s with port := some (net.portFor here.port) }, [.bind here, .connect there], none)

/-- Check the settings, read the header of the tape and make a socket. -/
def setUp (now : Int) (tape : Option Source) (net : SocketAnswers) (s : ReplaySession) :
    ReplaySession × List SocketCall × Option SetupFault :=
  if !(Binary64.zero.lt s.config.speed && s.config.speed.isFinite) then
    (s, [], some (.badSpeed s.config.speed))
  else
    match normalTarget? s.config.target with
    | none => (s, [], some (.badTarget s.config.target))
    | some target =>
      let s := { s with config := { s.config with target := target } }
      match (Reader.idle .standard).openFile tape with
      | (_, some f) => (s, [], some (.notOpened s.config.input f))
      | (r, none) =>
        match { s with header := r.header }.openSocket net with
        | (s, calls, some f) => (s, calls, some f)
        | (s, calls, none) =>
          ({ s with counters := .fresh now, ready := true }, calls, none)

/-! ### The replay -/

/-- What is said unless only errors are printed. -/
def unlessQuiet (s : ReplaySession) (notice : ReplayNotice) : List ReplayNotice :=
  if s.config.quiet then [] else [notice]

def begin (now : Int) (s : ReplaySession) : ReplaySession × List ReplayNotice :=
  if !s.ready then ({ s with phase := .over false }, [.notReady])
  else
    ({ s with
        running := true
        phase := .between
        schedule := .starting s.config.speed now
        passes := 0
        reportedAt := now },
      s.unlessQuiet (.starting s.config s.header))

/-- Begin a pass, unless the session is to stop. -/
def startPass (now : Int) (s : ReplaySession) : Outcome :=
  if s.stopping then ({ s with phase := .finishing true }, .nothing, [])
  else
    let s := { s with passes := s.passes + 1, phase := .opening }
    if s.passes ≤ 1 then (s, .nothing, [])
    else
      ({ s with schedule := s.schedule.restart now }, .nothing, s.unlessQuiet (.loop s.passes))

def openTape (tape : Option Source) (s : ReplaySession) : Outcome :=
  match (Reader.idle .standard).openFile tape with
  | (_, some f) =>
    ({ s with phase := .finishing false }, .nothing, [.notReopened s.config.input f])
  | (r, none) =>
    ({ s with reader := r, blocks := 0, samples := 0, phase := .reading }, .nothing, [])

/-- Read a block, unless the session is to stop. -/
def read (s : ReplaySession) : Outcome :=
  if s.stopping then ({ s with phase := .closing }, .nothing, [])
  else
    let (b, r) := s.reader.next
    let failed : List ReplayNotice :=
      if r.failed && !s.reader.failed then [.sourceFailed] else []
    let phase : ReplayPhase := match b with
      | some b => .waiting b (.arriving b.timestamp)
      | none => .closing
    ({ s with reader := r, phase := phase }, .nothing, failed)

/-- Count the wait for a block that is due. -/
def countWait (c : ReplayCounters) (error : UInt64) (underrun : Bool) : ReplayCounters :=
  (if underrun then c.addUnderrun else c).addTimingError error

/-- Wait for a block. -/
def await (now : Int) (b : Block) (w : Wait) (s : ReplaySession) : Outcome :=
  let (w, schedule, nap) := w.step s.paused now s.schedule
  let s := { s with schedule := schedule }
  let s := match w with
    | .due error underrun =>
      { s with phase := .deciding b, counters := countWait s.counters error underrun }
    | w => { s with phase := .waiting b w }
  (s, (nap.map ReplayDeed.sleep).getD .nothing, [])

/-- Make a datagram of a block, unless the session is to stop. -/
def frame (b : Block) (s : ReplaySession) : Outcome :=
  if s.stopping then ({ s with phase := .closing }, .nothing, [])
  else
    match Datagram.encode b with
    | .ok datagram => ({ s with phase := .sending b datagram }, .nothing, [])
    | .error f =>
      ({ s with phase := .tried b, counters := s.counters.addSendError }, .nothing,
        if s.config.verbose then [.notFramed b f] else [])

def send (fault : Option String) (b : Block) (datagram : Bytes) (s : ReplaySession) : Outcome :=
  match fault with
  | some reason =>
    ({ s with phase := .tried b, counters := s.counters.addSendError }, .send datagram,
      if s.config.verbose then [.notSent reason] else [])
  | none =>
    let counters := (s.counters.addPacket.addSamples b.count.toUInt64).addBytes
      datagram.length.toUInt64
    ({ s with phase := .tried b, counters := counters }, .send datagram, [])

/-- Count a block, and print a progress line if it is time for one. -/
def count (now : Int) (b : Block) (s : ReplaySession) : Outcome :=
  let s := { s with
    phase := .reading, blocks := s.blocks + 1, samples := s.samples + b.count.toUInt64 }
  if s.config.quiet ∨ now - s.reportedAt < intervalNanos s.config.interval then
    (s, .nothing, [])
  else
    ({ s with reportedAt := now }, .nothing,
      [.progress ⟨s.counters.elapsed now, s.counters, s.config.verbose⟩])

def endPass (s : ReplaySession) : Outcome :=
  let cut : List ReplayNotice := match s.reader.error? with
    | some f => [.cutShort s.config.input f]
    | none => []
  let damaged : List ReplayNotice :=
    if s.reader.counts.corrupted = 0 then [] else [.damaged s.reader.counts.corrupted]
  let atEnd := if s.stopping then [] else s.unlessQuiet (.endOfTape s.blocks s.samples)
  let said := cut ++ damaged ++ atEnd
  let s := { s with counters := s.counters.addLoop }
  if !s.config.loop then ({ s with phase := .finishing true }, .nothing, said)
  else if s.blocks = 0 then
    ({ s with phase := .finishing true }, .nothing, said ++ [.noBlocks s.config.input])
  else ({ s with phase := .between }, .nothing, said)

def finish (now : Int) (ok : Bool) (s : ReplaySession) : Outcome :=
  ({ s with running := false, phase := .over ok }, .nothing,
    s.unlessQuiet (.finished s.counters now))

/-- One step of the replay. -/
def step (outside : Surroundings) (s : ReplaySession) : Outcome :=
  match s.phase with
  | .between => s.startPass outside.now
  | .opening => s.openTape outside.tape
  | .reading => s.read
  | .waiting b w => s.await outside.now b w
  | .deciding b => s.frame b
  | .sending b datagram => s.send outside.sendFault b datagram
  | .tried b => s.count outside.now b
  | .closing => s.endPass
  | .finishing ok => s.finish outside.now ok
  | .over _ => (s, .nothing, [])

/-- Whether the next step sends a datagram. -/
def isSending (s : ReplaySession) : Bool :=
  match s.phase with
  | .sending _ _ => true
  | _ => false

/-- Whether the replay is over, and then whether it went well. -/
def result? (s : ReplaySession) : Option Bool :=
  match s.phase with
  | .over ok => some ok
  | _ => none

end ReplaySession

end IqTape
