import IqTape.Capture.Cutter
import IqTape.Capture.Notice
import IqTape.Capture.Queue
import IqTape.Number.Rate

/-!
# Recording a device

Two parties make a recording.  The device offers chunks to a queue and is never
held up.  The writer takes them out, cuts them into blocks and appends the blocks
to a tape.  Whatever ends the session, the time limit, a request to stop or the
end of the device, the writer still writes the last block and finishes the tape.

The writer is a machine that makes one step at a time and is told the time at
each.  The device and requests to stop come in between steps, in any order.

## Main definitions

* `publish` — offer a chunk and count it if it is refused.
* `Recording`, `RecordingPhase` — the state that both parties share, and what the
  writer does next.
* `Recording.begin`, `Recording.step` — the writer.
* `Recording.settle` — what the writer does at one moment.
* `Recording.offer`, `Recording.deviceDone` — the device.
* `Recording.requestStop` — a request to stop.
-/

namespace IqTape

/-- Offer a chunk to a queue.  A device never waits for room: a chunk that is refused,
because the queue is full or closed, is counted as dropped. -/
def publish (q : Queue) (counters : CaptureCounters) (c : Chunk) :
    Bool × Queue × CaptureCounters :=
  match q.push c with
  | (true, q) => (true, q, counters)
  | (false, q) => (false, q, counters.drop c.count)

/-- What the writer of a recording does next. -/
inductive RecordingPhase
  /-- It opens the tape; `none` is a file that cannot be created. -/
  | opening (file : Option Sink)
  | starting
  /-- It looks at the time limit and the stop flag. -/
  | checking
  /-- It looks for a chunk until some time. -/
  | waiting (deadline : Int)
  /-- It writes the last block. -/
  | flushing
  /-- It waits for the device to end, and finishes the tape. -/
  | joining
  | over (ok : Bool)
  deriving DecidableEq, Repr, Inhabited

/-- A recorder with its session. -/
structure Recording where
  config : RecorderConfig
  phase : RecordingPhase
  device : DeviceInfo
  writer : Writer
  /-- The queue between the device and the writer. -/
  queue : Queue
  /-- The samples that do not fill a block yet. -/
  cutter : Cutter
  counters : CaptureCounters
  /-- Whether the session is asked to stop. -/
  stopping : Bool
  deviceFailed : Bool
  /-- The clock when the session started. -/
  startedAt : Int
  /-- The clock at the last progress line. -/
  reportedAt : Int
  /-- The most chunks in the queue of the last session that came to its end. -/
  highWater : Nat
  deriving Inhabited

/-- What has been said so far, and the state. -/
abbrev Recording.Outcome := Recording × List RecorderNotice

namespace Recording

/-- How long the writer looks for a chunk before it looks at the time limit and
the stop flag again. -/
def patience : Int := 100000000

/-- A recorder that has not recorded anything. -/
def idle (config : RecorderConfig) (now : Int) : Recording where
  config := config
  phase := .over false
  device := default
  writer := .idle
  queue := .empty 0
  cutter := .empty
  counters := .fresh now
  stopping := false
  deviceFailed := false
  startedAt := now
  reportedAt := now
  highWater := 0

/-- Begin a session with a device; `none` is a file that cannot be created. -/
def begin (device : DeviceInfo) (file : Option Sink) (r : Recording) : Recording :=
  { r with device := device, phase := .opening file }

/-- Ask the session to stop. -/
def requestStop (r : Recording) : Recording := { r with stopping := true }

/-! ### The device -/

/-- The device offers a chunk. -/
def offer (c : Chunk) (r : Recording) : Bool × Recording :=
  let (accepted, queue, counters) := publish r.queue r.counters c
  (accepted, { r with queue := queue, counters := counters })

/-- The device ends, well or not. -/
def deviceDone (ok : Bool) (r : Recording) : Outcome :=
  let r := { r with queue := r.queue.close }
  if ok then (r, []) else ({ r with deviceFailed := true }, [.deviceFailed])

/-! ### The writer -/

/-- What is said unless only errors are printed. -/
def unlessQuiet (r : Recording) (notice : RecorderNotice) : List RecorderNotice :=
  if r.config.quiet then [] else [notice]

/-- The header of the tape. -/
def header (r : Recording) (second : UInt64) : Header :=
  { Header.opened r.config.device.radio r.config.rate r.config.frequency second with
    gain := r.config.gain
    format := r.config.format
    form := r.config.form }

def openTape (second : UInt64) (file : Option Sink) (r : Recording) : Outcome :=
  let mismatch : List RecorderNotice :=
    if r.device.format = r.config.format then []
    else [.formatMismatch r.device.format r.config.format]
  let fresh : Writer := { Writer.idle with packer := r.writer.packer }
  match fresh.create r.config.output file (r.header second) with
  | (w, none) => ({ r with writer := w, phase := .starting }, mismatch)
  | (w, some f) => ({ r with writer := w, phase := .over false }, mismatch ++ [.notStarted f])

/-- Set up the session; from here on the device runs. -/
def start (now : Int) (r : Recording) : Outcome :=
  ({ r with
      phase := .checking
      queue := .empty r.config.capacity.toNat
      cutter := .empty
      counters := .fresh now
      stopping := false
      deviceFailed := false
      startedAt := now
      reportedAt := now },
    r.unlessQuiet (.starting r.device))

/-- Whether the session has lasted as long as it should. -/
def limitReached (now : Int) (r : Recording) : Bool :=
  decide (0 < r.config.duration) &&
    !(secondsBetween r.startedAt now).lt (.ofNat r.config.duration.toNat)

/-- Look at the time limit and the stop flag. -/
def check (now : Int) (r : Recording) : Outcome :=
  if r.limitReached now then
    ({ r with phase := .flushing }, r.unlessQuiet (.limitReached r.config.duration))
  else if r.stopping then
    ({ r with phase := .flushing }, r.unlessQuiet .stopRequested)
  else ({ r with phase := .waiting (now + patience) }, [])

/-- Append a block to the tape. -/
def write (r : Recording) (b : Block) : Outcome :=
  match r.writer.append b with
  | (w, some f) =>
    ({ r with writer := w, counters := r.counters.addWriteError }, [.notWritten f])
  | (w, none) =>
    let counters := r.counters.addBlock.addBytes (w.bytes - r.writer.bytes)
    ({ r with writer := w, counters := counters }, [])

/-- Append blocks in order. -/
def writeAll (bs : List Block) (r : Recording) : Outcome :=
  bs.foldl
    (fun (r, said) b =>
      let (r, more) := r.write b
      (r, said ++ more))
    (r, [])

/-- The figures of a progress line. -/
def progress (now : Int) (r : Recording) : Progress :=
  let q := r.queue
  ⟨secondsBetween r.startedAt now, r.counters,
    if r.config.verbose then some ⟨q.size, q.capacity, q.highWater⟩ else none⟩

/-- Print a progress line if it is time for one. -/
def report (now : Int) (r : Recording) : Outcome :=
  if !r.config.quiet && decide (intervalNanos r.config.interval ≤ now - r.reportedAt) then
    ({ r with reportedAt := now }, [.progress (r.progress now)])
  else (r, [])

/-- The bytes of one sample on the tape. -/
def sampleSize (r : Recording) : Nat := r.config.format.bytesPerSample

/-- Take in a chunk and write the blocks that it fills. -/
def accept (now : Int) (c : Chunk) (r : Recording) : Outcome :=
  if !c.isWhole r.sampleSize then (r, [.discarded c.data.length c.count])
  else
    let (blocks, cutter) := (r.cutter.add c).cut r.sampleSize r.config.blockSamples
    let r := { r with cutter := cutter, counters := r.counters.addSamples c.count.toUInt64 }
    let (r, said) := r.writeAll blocks
    let (r, more) := r.report now
    (r, said ++ more)

/-- Look for a chunk. -/
def look (now deadline : Int) (r : Recording) : Outcome :=
  match r.queue.poll with
  | (some (.chunk c), q) => { r with queue := q, phase := .checking }.accept now c
  | (some .closed, q) =>
    ({ r with queue := q, phase := .flushing }, r.unlessQuiet .captureEnded)
  | (_, q) =>
    ({ r with queue := q, phase := if deadline ≤ now then .checking else .waiting deadline }, [])

/-- Write the last block, and make the device stop. -/
def flush (r : Recording) : Outcome :=
  let next : Recording := { r with stopping := true, phase := .joining }
  match r.cutter.tail with
  | none => (next, [])
  | some b =>
    let (next, said) := next.write b
    ({ next with cutter := .empty }, said ++ r.unlessQuiet (.flushed b.count))

def finish (second : UInt64) (r : Recording) : Outcome :=
  let r := { r with highWater := r.queue.highWater }
  match r.writer.finish second with
  | (w, some f) =>
    ({ r with writer := w.close, phase := .over false }, [.notFinished r.config.output f])
  | (w, none) =>
    ({ r with writer := w.close, phase := .over true },
      r.unlessQuiet (.finished r.config.output w.blocks w.samples))

/-- One step of the writer. -/
def step (now : Moment) (r : Recording) : Outcome :=
  match r.phase with
  | .opening file => r.openTape now.second file
  | .starting => r.start now.steady
  | .checking => r.check now.steady
  | .waiting deadline => r.look now.steady deadline
  | .flushing => r.flush
  | .joining => if r.queue.closed then r.finish now.second else (r, [])
  | .over _ => (r, [])

/-- Whether the session is over. -/
def isOver (r : Recording) : Bool :=
  match r.phase with
  | .over _ => true
  | _ => false

/-- Whether the session came to a good end. -/
def succeeded (r : Recording) : Bool := r.phase = .over true

/-- Whether the writer has stopped taking chunks. -/
def hasLeftLoop (r : Recording) : Bool :=
  match r.phase with
  | .joining => true
  | .over _ => true
  | _ => false

/-- Whether the next step would do nothing, unless something else happens. -/
def isBlocked (now : Int) (r : Recording) : Bool :=
  match r.phase with
  | .waiting deadline => r.queue.isEmpty && !r.queue.closed && decide (now < deadline)
  | .joining => !r.queue.closed
  | .over _ => true
  | _ => false

/-- Steps of the writer at one moment, until the next one would do nothing, but not
more than so many. -/
def stepsAt (now : Moment) : Nat → Recording → Outcome
  | 0, r => (r, [])
  | n + 1, r =>
    if r.isBlocked now.steady then (r, [])
    else
      let (r, said) := r.step now
      let (r, more) := stepsAt now n r
      (r, said ++ more)

/-- The writer goes on until it waits for something.  It makes two steps for each
chunk in the queue, and a few before the first and after the last. -/
def settle (now : Moment) (r : Recording) : Outcome := stepsAt now (2 * r.queue.size + 8) r

end Recording

end IqTape
