import IqTape.Bytes.Word

/-!
# The queue between a device and the writer

A device offers chunks of samples to a queue of fixed capacity, and the writer
takes them out in order.  Neither side waits for the other: an offer to a full or
closed queue is refused at once, and the chunk stays with the device.

The queue is a ring of slots with two positions that only grow.  The device owns
the write position and the writer the read position; each looks at the other's.
A push and a pop are therefore several steps, each of which loads or stores one
thing.  `Push.step`, `Pop.step` and `Await.step` are those steps, so that both sides
can be interleaved at will; the whole operations run them without interruption.

## Main definitions

* `Chunk` — a run of samples on its way.
* `Queue` — the ring.
* `Push`, `Push.step`, `Pop`, `Pop.step` — the operations step by step.
* `Queue.push`, `Queue.tryPop`, `Queue.pop` — the whole operations.
* `Await`, `Await.step` — a pop that waits, step by step.
* `Queue.toList` — the chunks in the queue, the oldest first.
-/

namespace IqTape

/-- A run of samples on its way from a device to the writer. -/
structure Chunk where
  /-- When the first sample was taken. -/
  timestamp : UInt64
  count : UInt32
  data : Bytes
  deriving DecidableEq, Repr, Inhabited

/-- What a slot holds while it is free. -/
def Chunk.blank : Chunk := ⟨0, 0, []⟩

/-- A ring of slots. -/
structure Queue where
  /-- How many slots there are, at least one. -/
  capacity : Nat
  slots : Array Chunk
  /-- How many chunks have been put in. -/
  writePos : Nat
  /-- How many chunks have been taken out. -/
  readPos : Nat
  closed : Bool
  /-- Pushes that were accepted. -/
  pushed : Nat
  popped : Nat
  /-- Pushes that found the open queue full. -/
  overflows : UInt64
  /-- The most chunks that a push has left in the queue. -/
  highWater : Nat
  deriving DecidableEq, Repr, Inhabited

namespace Queue

/-- An empty queue; a capacity of zero counts as one. -/
def empty (capacity : Nat) : Queue :=
  let n := max 1 capacity
  ⟨n, Array.replicate n Chunk.blank, 0, 0, false, 0, 0, 0, 0⟩

/-- How many chunks are in the queue. -/
def size (q : Queue) : Nat := q.writePos - q.readPos

/-- Whether the queue is empty. -/
def isEmpty (q : Queue) : Bool := q.size == 0

/-- The slot of a position. -/
def slot (q : Queue) (position : Nat) : Chunk := q.slots.getD (position % q.capacity) Chunk.blank

/-- Put something into the slot of a position. -/
def fill (q : Queue) (position : Nat) (c : Chunk) : Queue :=
  { q with slots := q.slots.setIfInBounds (position % q.capacity) c }

/-- The chunks in the queue, the oldest first. -/
def toList (q : Queue) : List Chunk := (List.range q.size).map fun i => q.slot (q.readPos + i)

/-- Mark the device as finished. -/
def close (q : Queue) : Queue := { q with closed := true }

end Queue

/-! ### A push, step by step -/

/-- How far a push has got. -/
inductive Push
  | asked (c : Chunk)
  | admitted (c : Chunk)
  /-- The own position is known. -/
  | located (c : Chunk) (write : Nat)
  /-- The writer's position showed no room. -/
  | crowded (c : Chunk)
  | roomy (c : Chunk) (write read : Nat)
  | filled (write read : Nat)
  /-- The position has been moved on. -/
  | published (write read : Nat)
  /-- The chunk is in the queue. -/
  | accepted
  /-- The chunk is not in the queue. -/
  | refused (c : Chunk)
  deriving DecidableEq, Repr

/-- One step of a push. -/
def Push.step (q : Queue) : Push → Push × Queue
  | .asked c => (if q.closed then .refused c else .admitted c, q)
  | .admitted c => (.located c q.writePos, q)
  | .located c write =>
    (if q.capacity ≤ write - q.readPos then .crowded c else .roomy c write q.readPos, q)
  | .crowded c => (.refused c, { q with overflows := q.overflows + 1 })
  | .roomy c write read => (.filled write read, q.fill write c)
  | .filled write read => (.published write read, { q with writePos := write + 1 })
  | .published write read =>
    (.accepted, { q with
      pushed := q.pushed + 1, highWater := max q.highWater (write + 1 - read) })
  | .accepted => (.accepted, q)
  | .refused c => (.refused c, q)

/-- A number of steps of a push without interruption. -/
def Push.run : Nat → Push → Queue → Push × Queue
  | 0, p, q => (p, q)
  | n + 1, p, q =>
    let (p, q) := p.step q
    Push.run n p q

/-- A push takes at most so many steps. -/
def Push.length : Nat := 6

/-! ### A pop, step by step -/

/-- How far an attempt to pop has got. -/
inductive Pop
  | asked
  /-- The own position is known. -/
  | located (read : Nat)
  /-- The device's position showed a chunk. -/
  | ready (read : Nat)
  /-- The chunk has been taken from its slot. -/
  | taken (read : Nat) (c : Chunk)
  | cleared (read : Nat) (c : Chunk)
  /-- The position has been moved on. -/
  | released (c : Chunk)
  /-- The chunk is out of the queue. -/
  | got (c : Chunk)
  | nothing
  deriving DecidableEq, Repr

/-- One step of an attempt to pop. -/
def Pop.step (q : Queue) : Pop → Pop × Queue
  | .asked => (.located q.readPos, q)
  | .located read => (if q.writePos = read then .nothing else .ready read, q)
  | .ready read => (.taken read (q.slot read), q)
  | .taken read c => (.cleared read c, q.fill read Chunk.blank)
  | .cleared read c => (.released c, { q with readPos := read + 1 })
  | .released c => (.got c, { q with popped := q.popped + 1 })
  | .got c => (.got c, q)
  | .nothing => (.nothing, q)

/-- A number of steps of an attempt to pop without interruption. -/
def Pop.run : Nat → Pop → Queue → Pop × Queue
  | 0, p, q => (p, q)
  | n + 1, p, q =>
    let (p, q) := p.step q
    Pop.run n p q

/-- An attempt to pop takes at most so many steps. -/
def Pop.length : Nat := 6

/-! ### Whole operations -/

/-- What a pop that waits comes to. -/
inductive PopResult
  | chunk (c : Chunk)
  | timeout
  /-- The queue is closed and empty. -/
  | closed
  deriving DecidableEq, Repr, Inhabited

namespace Queue

/-- Offer a chunk; it is accepted or refused at once. -/
def push (q : Queue) (c : Chunk) : Bool × Queue :=
  match Push.run Push.length (.asked c) q with
  | (.accepted, q) => (true, q)
  | (_, q) => (false, q)

/-- Take the oldest chunk, if there is one. -/
def tryPop (q : Queue) : Option Chunk × Queue :=
  match Pop.run Pop.length .asked q with
  | (.got c, q) => (some c, q)
  | (_, q) => (none, q)

/-- One look at the queue by a pop that waits: a chunk, or word that the queue is
closed.  A closed queue is looked at once more, because the device may have put a
last chunk in before it closed the queue. -/
def poll (q : Queue) : Option PopResult × Queue :=
  match q.tryPop with
  | (some c, q) => (some (.chunk c), q)
  | (none, q) =>
    if q.closed then
      match q.tryPop with
      | (some c, q) => (some (.chunk c), q)
      | (none, q) => (some .closed, q)
    else (none, q)

/-- Take the oldest chunk, looking again up to `waits` times.  The result comes
with the number of waits. -/
def pop : Nat → Queue → PopResult × Nat × Queue
  | 0, q =>
    match q.poll with
    | (some r, q) => (r, 0, q)
    | (none, q) => (.timeout, 0, q)
  | waits + 1, q =>
    match q.poll with
    | (some r, q) => (r, 0, q)
    | (none, q) =>
      let (r, n, q) := pop waits q
      (r, n + 1, q)

/-- The time between two looks, in nanoseconds. -/
def pollInterval : Nat := 1000000

end Queue

/-! ### A pop that waits, step by step -/

/-- How far a pop that waits has got. -/
inductive Await
  | looking (p : Pop)
  /-- There was no chunk, so it looks whether the queue is closed. -/
  | checking
  /-- The queue is closed, so it looks for a last chunk. -/
  | lastLook (p : Pop)
  /-- The queue is open, so it looks at the clock. -/
  | timing
  | answered (r : PopResult)
  deriving DecidableEq, Repr

/-- One step of a pop that waits; `late` says whether its time is up. -/
def Await.step (late : Bool) (q : Queue) : Await → Await × Queue
  | .looking p =>
    match p.step q with
    | (.got c, q) => (.answered (.chunk c), q)
    | (.nothing, q) => (.checking, q)
    | (p, q) => (.looking p, q)
  | .checking => (if q.closed then .lastLook .asked else .timing, q)
  | .lastLook p =>
    match p.step q with
    | (.got c, q) => (.answered (.chunk c), q)
    | (.nothing, q) => (.answered .closed, q)
    | (p, q) => (.lastLook p, q)
  | .timing => (if late then .answered .timeout else .looking .asked, q)
  | .answered r => (.answered r, q)

/-- A number of steps of a pop that waits without interruption, before its time is up. -/
def Await.run : Nat → Await → Queue → Await × Queue
  | 0, a, q => (a, q)
  | n + 1, a, q =>
    let (a, q) := a.step false q
    Await.run n a q

end IqTape
