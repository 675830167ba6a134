import IqTape.Capture.Recording
import IqTape.Proofs.Capture.Cutter
import IqTape.Proofs.Capture.Queue

/-!
# The queue is a short list

Between two operations nothing of the ring can be seen but a list with room for so many
chunks.  A chunk is accepted while the list is open and has room, and put at its end; a pop
takes the first one.  Next to the ring the queue and its device keep six figures, each moved
by another branch of another operation.  Every one of them is a figure of the list's history.

## Main definitions

* `QueueOp`, `QueueReply` — the whole operations and what they answer.
* `Intake` — the queue with the counters of its device, and runs of operations on it.
* `Backlog` — the list, its operations, and what a run of them has done.
* `Queue.Mirrors`, `Queue.Figures`, `CaptureCounters.Drops` — what the ring, its figures and
  the counters have to do with the list.

## Main results

* `Queue.Mirrors.push`, `Queue.Mirrors.pop` — an operation on the ring and on the list.
* `Intake.Tracks.handle`, `Intake.Tracks.run` — nothing else happens in a step, nor in a run.
* `intake_eq_backlog` — the queue behaves as the list, and its figures are exact.
-/

namespace IqTape

/-- A whole operation on a queue. -/
inductive QueueOp
  /-- Offer a chunk. -/
  | push (c : Chunk)
  /-- Offer a chunk, and count it if it is refused. -/
  | publish (c : Chunk)
  /-- Take the oldest chunk, if there is one. -/
  | tryPop
  /-- Take the oldest chunk, looking again up to so many times. -/
  | pop (waits : Nat)
  | close
  deriving DecidableEq, Repr

/-- What an operation on a queue answers. -/
inductive QueueReply
  /-- Whether the chunk was accepted, and the chunk the device is left with. -/
  | offered (accepted : Bool) (left : Option Chunk)
  | popped (c : Option Chunk)
  /-- What waiting came to, and how often it waited. -/
  | awaited (r : PopResult) (waits : Nat)
  | closed
  deriving DecidableEq, Repr

/-- The chunk that a push leaves with the device. -/
def Queue.leaves (q : Queue) (c : Chunk) : Option Chunk :=
  match (Push.run Push.length (.asked c) q).1 with
  | .refused c => some c
  | _ => none

/-- A queue and the counters of the device that fills it. -/
structure Intake where
  queue : Queue
  counters : CaptureCounters
  deriving DecidableEq, Repr

namespace Intake

/-- One operation: its answer, and what is left behind. -/
def handle (i : Intake) : QueueOp → QueueReply × Intake
  | .push c =>
    let (accepted, q) := i.queue.push c
    (.offered accepted (i.queue.leaves c), ⟨q, i.counters⟩)
  | .publish c =>
    let (accepted, q, counters) := publish i.queue i.counters c
    (.offered accepted (i.queue.leaves c), ⟨q, counters⟩)
  | .tryPop =>
    let (c, q) := i.queue.tryPop
    (.popped c, ⟨q, i.counters⟩)
  | .pop waits =>
    let (r, waited, q) := Queue.pop waits i.queue
    (.awaited r waited, ⟨q, i.counters⟩)
  | .close => (.closed, ⟨i.queue.close, i.counters⟩)

/-- The state after some operations. -/
def run (i : Intake) : List QueueOp → Intake
  | [] => i
  | o :: os => (i.handle o).2.run os

/-- The answers to some operations. -/
def replies (i : Intake) : List QueueOp → List QueueReply
  | [] => []
  | o :: os => (i.handle o).1 :: (i.handle o).2.replies os

end Intake

/-- A list with room for so many chunks. -/
structure Backlog where
  room : Nat
  /-- The chunks, the oldest first. -/
  chunks : List Chunk
  closed : Bool
  deriving DecidableEq, Repr

namespace Backlog

/-- An empty list; room for nothing counts as room for one chunk. -/
def empty (room : Nat) : Backlog := ⟨max 1 room, [], false⟩

/-- Whether a chunk is accepted: the list is open and has room. -/
def admits (b : Backlog) : Bool := !b.closed && decide (b.chunks.length < b.room)

/-- Whether the list is open and has no room. -/
def crowded (b : Backlog) : Bool := !b.closed && decide (b.room ≤ b.chunks.length)

/-- The list with a chunk at its end, if it is accepted. -/
def offer (b : Backlog) (c : Chunk) : Backlog :=
  { b with chunks := b.chunks ++ if b.admits then [c] else [] }

/-- The list without its first chunk. -/
def rest (b : Backlog) : Backlog := { b with chunks := b.chunks.tail }

/-- What waiting for a chunk comes to, when nothing else happens to the list. -/
def awaits (b : Backlog) (waits : Nat) : QueueReply :=
  match b.chunks.head? with
  | some c => .awaited (.chunk c) 0
  | none => if b.closed then .awaited .closed 0 else .awaited .timeout waits

/-- One operation: its answer, and what is left behind. -/
def handle (b : Backlog) : QueueOp → QueueReply × Backlog
  | .push c => (.offered b.admits (if b.admits then none else some c), b.offer c)
  | .publish c => (.offered b.admits (if b.admits then none else some c), b.offer c)
  | .tryPop => (.popped b.chunks.head?, b.rest)
  | .pop waits => (b.awaits waits, b.rest)
  | .close => (.closed, { b with closed := true })

/-- The list after some operations. -/
def run (b : Backlog) : List QueueOp → Backlog
  | [] => b
  | o :: os => (b.handle o).2.run os

/-- The answers to some operations. -/
def replies (b : Backlog) : List QueueOp → List QueueReply
  | [] => []
  | o :: os => (b.handle o).1 :: (b.handle o).2.replies os

/-! ### What a run has done -/

/-- What some operations show, one after the other. -/
def gather {α : Type} (f : Backlog → QueueOp → List α) (b : Backlog) : List QueueOp → List α
  | [] => []
  | o :: os => f b o ++ gather f (b.handle o).2 os

/-- The chunk that an operation puts in. -/
def accepted (b : Backlog) : QueueOp → List Chunk
  | .push c | .publish c => if b.admits then [c] else []
  | _ => []

/-- The chunk that an operation takes out. -/
def given (b : Backlog) : QueueOp → List Chunk
  | .tryPop | .pop _ => b.chunks.head?.toList
  | _ => []

/-- The chunk that an operation offers to the list while it is open and has no room. -/
def turnedAway (b : Backlog) : QueueOp → List Chunk
  | .push c | .publish c => if b.crowded then [c] else []
  | _ => []

/-- The chunk that is refused and counted, whether there is no room or the list is closed. -/
def dropped (b : Backlog) : QueueOp → List Chunk
  | .publish c => if b.admits then [] else [c]
  | _ => []

/-- How long the list is after an operation. -/
def lengths (b : Backlog) (o : QueueOp) : List Nat := [(b.handle o).2.chunks.length]

end Backlog

namespace Queue

variable {q : Queue} {b : Backlog} {c : Chunk}

/-! ### The ring and the list -/

@[simp] theorem length_toList (q : Queue) : q.toList.length = q.size := by
  simp [toList]

/-- A push keeps a chunk that it does not accept for the device. -/
theorem leaves_eq (q : Queue) (c : Chunk) :
    q.leaves c = if (q.push c).1 then none else some c := by
  by_cases hc : q.closed
  · simp [leaves, push, Push.run, Push.length, Push.step, hc]
  · by_cases hs : q.capacity ≤ q.writePos - q.readPos
    · simp [leaves, push, Push.run, Push.length, Push.step, hc, hs]
    · simp [leaves, push, Push.run, Push.length, Push.step, hc, hs]

/-- The ring holds the chunks of the list. -/
structure Mirrors (q : Queue) (b : Backlog) : Prop where
  ring : q.IsRing
  room : q.capacity = b.room
  chunks : q.toList = b.chunks
  closed : q.closed = b.closed

theorem mirrors_empty (capacity : Nat) : (empty capacity).Mirrors (.empty capacity) :=
  ⟨isRing_empty capacity, rfl, toList_empty capacity, rfl⟩

theorem Mirrors.size (h : q.Mirrors b) : q.size = b.chunks.length := by
  rw [← h.chunks, length_toList]

/-- **The ring accepts what the list accepts.** -/
theorem Mirrors.admits (h : q.Mirrors b) (c : Chunk) : (q.push c).1 = b.admits := by
  rw [push_eq, Backlog.admits, ← h.closed, ← h.room, ← h.size]
  by_cases hc : q.closed
  · simp [hc]
  · by_cases hs : q.capacity ≤ q.size
    · simp [hc, hs]
    · simp [hc, hs, Nat.lt_of_not_le hs]

/-- **A chunk offered to the ring is offered to the list.** -/
theorem Mirrors.push (h : q.Mirrors b) (c : Chunk) : (q.push c).2.Mirrors (b.offer c) := by
  refine ⟨isRing_push h.ring, ?_, ?_, ?_⟩
  · show (q.push c).2.capacity = b.room
    rw [← h.room, push_eq]
    split
    · rfl
    · split <;> rfl
  · rw [toList_push h.ring, h.chunks, h.admits]
    rfl
  · rw [closed_push]
    exact h.closed

/-- What taking a chunk out of the queue leaves behind, if there is one. -/
def behind (q : Queue) : Queue := if q.toList = [] then q else q.removed

theorem Mirrors.behind (h : q.Mirrors b) : q.behind.Mirrors b.rest := by
  rcases hcs : b.chunks with _ | ⟨c, cs⟩
  · have hnil : q.toList = [] := h.chunks.trans hcs
    have hrest : b.rest = b := by
      cases b
      cases hcs
      rfl
    rw [Queue.behind, if_pos hnil, hrest]
    exact h
  · have hcons : q.toList = c :: cs := h.chunks.trans hcs
    have hne : q.toList ≠ [] := by simp [hcons]
    obtain ⟨-, hring, hlist⟩ := poll_of_toList_eq_cons h.ring hcons
    rw [Queue.behind, if_neg hne]
    exact ⟨hring, h.room, by rw [hlist, Backlog.rest, hcs, List.tail_cons], h.closed⟩

/-- **A pop takes the first chunk.** -/
theorem tryPop_of_isRing (hq : q.IsRing) : q.tryPop = (q.toList.head?, q.behind) := by
  rcases hcs : q.toList with _ | ⟨c, cs⟩
  · have hle := toList_eq_nil_iff.1 hcs
    have heq : q.writePos = q.readPos := Nat.le_antisymm hle hq.le
    rw [tryPop_eq, if_pos heq, behind, if_pos hcs, List.head?_nil]
  · have hne : q.toList ≠ [] := by simp [hcs]
    have hlt : q.readPos < q.writePos := by
      apply Nat.lt_of_not_le
      intro hle
      exact hne (toList_eq_nil_iff.2 hle)
    have hslot : q.slot q.readPos = c := by
      have hcons := toList_eq_cons hq hlt
      rw [hcs, List.cons.injEq] at hcons
      exact hcons.1.symm
    rw [tryPop_eq, if_neg (Nat.ne_of_gt hlt), behind, if_neg hne, hslot, List.head?_cons]

/-- **A pop that waits takes the first chunk at once.**  Without one it finds the queue
closed at once, or waits to the end. -/
theorem pop_of_isRing (hq : q.IsRing) (waits : Nat) :
    pop waits q =
      match q.toList.head? with
      | some c => (.chunk c, 0, q.behind)
      | none => if q.closed then (.closed, 0, q.behind) else (.timeout, waits, q.behind) := by
  rcases hcs : q.toList with _ | ⟨c, cs⟩
  · have hstay : q.behind = q := if_pos hcs
    have hpoll := poll_of_toList_eq_nil hq hcs
    rw [hstay]
    by_cases hc : q.closed
    · rw [if_pos hc] at hpoll
      cases waits <;> simp [pop, hpoll, hc]
    · rw [if_neg hc] at hpoll
      -- Nothing changes while it waits.
      induction waits with
      | zero => simp [pop, hpoll, hc]
      | succ waits ih => simp [pop, hpoll, hc, ih]
  · have hgone : q.behind = q.removed := if_neg (by simp [hcs])
    obtain ⟨hpoll, -, -⟩ := poll_of_toList_eq_cons hq hcs
    rw [hgone]
    cases waits <;> simp [pop, hpoll]

theorem Mirrors.tryPop (h : q.Mirrors b) : q.tryPop = (b.chunks.head?, q.behind) := by
  rw [tryPop_of_isRing h.ring, h.chunks]

theorem Mirrors.pop (h : q.Mirrors b) (waits : Nat) :
    ∃ r waited, Queue.pop waits q = (r, waited, q.behind) ∧ b.awaits waits = .awaited r waited := by
  have hpop := pop_of_isRing h.ring waits
  rw [h.chunks, h.closed] at hpop
  rcases hcs : b.chunks.head? with _ | c
  · by_cases hc : b.closed
    · exact ⟨.closed, 0, by simpa [hcs, hc] using hpop, by simp [Backlog.awaits, hcs, hc]⟩
    · exact ⟨.timeout, waits, by simpa [hcs, hc] using hpop, by simp [Backlog.awaits, hcs, hc]⟩
  · exact ⟨.chunk c, 0, by simpa [hcs] using hpop, by simp [Backlog.awaits, hcs]⟩

theorem Mirrors.close (h : q.Mirrors b) : q.close.Mirrors { b with closed := true } :=
  ⟨isRing_close h.ring, h.room, h.chunks, rfl⟩

/-! ### The figures of the ring -/

/-- What the figures of a queue say about the history of its list: the chunks that were
accepted, given out and turned away, and the lengths it has had. -/
structure Figures (q : Queue) (accepted given turnedAway : List Chunk) (lengths : List Nat) :
    Prop where
  /-- The positions are counts. -/
  writePos : q.writePos = q.pushed
  readPos : q.readPos = q.popped
  pushed : q.pushed = accepted.length
  popped : q.popped = given.length
  overflows : q.overflows = turnedAway.length.toUInt64
  /-- The queue has been so long. -/
  reached : q.highWater ∈ lengths
  /-- It has never been longer. -/
  highest : ∀ n ∈ lengths, n ≤ q.highWater
  /-- Nor is it now. -/
  current : q.size ≤ q.highWater
  /-- What was put in has been given out in order, but for what is in the queue. -/
  order : accepted = given ++ q.toList

theorem figures_empty (capacity : Nat) : (empty capacity).Figures [] [] [] [0] :=
  ⟨rfl, rfl, rfl, rfl, rfl, List.mem_singleton_self 0, by simp [empty], Nat.le_refl 0, rfl⟩

variable {accepted given turnedAway : List Chunk} {lengths : List Nat}

/-- A length that is no record leaves the highest one alone. -/
theorem Figures.measured (h : q.Figures accepted given turnedAway lengths) :
    q.Figures accepted given turnedAway (lengths ++ [q.size]) := by
  refine { h with reached := List.mem_append_left _ h.reached, highest := ?_ }
  intro n hn
  rcases List.mem_append.1 hn with hn | hn
  · exact h.highest n hn
  · rw [List.mem_singleton.1 hn]
    exact h.current

/-- An open queue without room counts the chunk it refuses. -/
theorem Figures.overflowed (h : q.Figures accepted given turnedAway lengths) (c : Chunk) :
    { q with overflows := q.overflows + 1 }.Figures accepted given (turnedAway ++ [c])
      (lengths ++ [{ q with overflows := q.overflows + 1 }.size]) := by
  have hcount : q.overflows + 1 = (turnedAway ++ [c]).length.toUInt64 := by
    rw [List.length_append, h.overflows]
    exact (toUInt64_add _ 1).symm
  exact Figures.measured ⟨h.writePos, h.readPos, h.pushed, h.popped, hcount, h.reached,
    h.highest, h.current, h.order⟩

theorem Figures.added (h : q.Figures accepted given turnedAway lengths) (hq : q.IsRing)
    (hroom : q.size < q.capacity) (c : Chunk) :
    (q.added c).Figures (accepted ++ [c]) given turnedAway (lengths ++ [(q.added c).size]) := by
  have hlist := toList_added (c := c) hq hroom
  have hhigh : (q.added c).highWater = max q.highWater (q.added c).size := rfl
  refine ⟨?_, h.readPos, ?_, h.popped, h.overflows, ?_, ?_, ?_, ?_⟩
  · exact congrArg (· + 1) h.writePos
  · rw [List.length_append]
    exact congrArg (· + 1) h.pushed
  · rw [hhigh, List.mem_append, List.mem_singleton]
    rcases Nat.le_total q.highWater (q.added c).size with hle | hle
    · exact .inr (Nat.max_eq_right hle)
    · rw [Nat.max_eq_left hle]
      exact .inl h.reached
  · intro n hn
    rw [hhigh]
    rcases List.mem_append.1 hn with hn | hn
    · exact Nat.le_trans (h.highest n hn) (Nat.le_max_left _ _)
    · rw [List.mem_singleton.1 hn]
      exact Nat.le_max_right _ _
  · rw [hhigh]
    exact Nat.le_max_right _ _
  · rw [hlist, ← List.append_assoc, ← h.order]

/-- **What a push does to the figures.** -/
theorem Figures.push (h : q.Figures accepted given turnedAway lengths) (hm : q.Mirrors b)
    (c : Chunk) :
    (q.push c).2.Figures (accepted ++ if b.admits then [c] else []) given
      (turnedAway ++ if b.crowded then [c] else [])
      (lengths ++ [(b.offer c).chunks.length]) := by
  rw [← (hm.push c).size, ← hm.admits c, Backlog.crowded, ← hm.closed, ← hm.room, ← hm.size,
    push_eq]
  by_cases hc : q.closed
  · simpa [hc] using h.measured
  · by_cases hs : q.capacity ≤ q.size
    · simpa [hc, hs] using h.overflowed c
    · simpa [hc, hs] using h.added hm.ring (Nat.lt_of_not_le hs) c

/-- **What taking a chunk out does to the figures.** -/
theorem Figures.behind (h : q.Figures accepted given turnedAway lengths) (hm : q.Mirrors b) :
    q.behind.Figures accepted (given ++ b.chunks.head?.toList) turnedAway
      (lengths ++ [b.rest.chunks.length]) := by
  rw [← hm.behind.size, ← hm.chunks]
  rcases hcs : q.toList with _ | ⟨c, cs⟩
  · have hstay : q.behind = q := if_pos hcs
    simpa [hstay] using h.measured
  · have hgone : q.behind = q.removed := if_neg (by simp [hcs])
    obtain ⟨-, -, hlist⟩ := poll_of_toList_eq_cons hm.ring hcs
    have hsize : q.removed.size ≤ q.size := by
      rw [← length_toList, ← length_toList, hlist, hcs]
      exact Nat.le_succ _
    have hcurrent : q.removed.size ≤ q.removed.highWater := Nat.le_trans hsize h.current
    have horder : accepted = (given ++ [c]) ++ q.removed.toList := by
      rw [hlist, List.append_assoc, h.order, hcs]
      rfl
    have hread : q.removed.readPos = q.removed.popped := congrArg (· + 1) h.readPos
    have hpopped : q.removed.popped = (given ++ [c]).length := by
      rw [List.length_append]
      exact congrArg (· + 1) h.popped
    rw [hgone]
    exact Figures.measured ⟨h.writePos, hread, h.pushed, hpopped, h.overflows, h.reached,
      h.highest, hcurrent, horder⟩

theorem Figures.close (h : q.Figures accepted given turnedAway lengths) :
    q.close.Figures accepted given turnedAway (lengths ++ [q.size]) :=
  { h.measured with order := h.order }

end Queue

/-! ### The counters of the device -/

/-- What the counters say about the chunks that were dropped.  They are words, and wrap. -/
structure CaptureCounters.Drops (counters : CaptureCounters) (dropped : List Chunk) : Prop where
  chunks : counters.droppedChunks.toNat = dropped.length % 2 ^ 64
  samples : counters.droppedSamples.toNat = Chunk.amount dropped % 2 ^ 64

theorem CaptureCounters.drops_fresh (now : Int) : (fresh now).Drops [] := ⟨rfl, rfl⟩

/-- A chunk that is dropped is counted, with its samples. -/
theorem CaptureCounters.Drops.drop {counters : CaptureCounters} {dropped : List Chunk}
    (h : counters.Drops dropped) (c : Chunk) : (counters.drop c.count).Drops (dropped ++ [c]) := by
  constructor
  · have hone : (1 : UInt64).toNat = 1 := rfl
    simp only [CaptureCounters.drop, UInt64.toNat_add, h.chunks, hone, List.length_append,
      List.length_singleton, Nat.mod_add_mod]
  · simp only [CaptureCounters.drop, UInt64.toNat_add, h.samples, UInt32.toNat_toUInt64,
      Chunk.amount_append, Chunk.amount_singleton, Nat.mod_add_mod]

/-- A chunk that is published is pushed, and counted if it is refused. -/
theorem publish_eq (q : Queue) (counters : CaptureCounters) (c : Chunk) :
    publish q counters c =
      ((q.push c).1, (q.push c).2, if (q.push c).1 then counters else counters.drop c.count) := by
  rcases hp : q.push c with ⟨_ | _, next⟩
  · simp [publish, hp]
  · simp [publish, hp]

/-! ### Steps and runs -/

/-- How a queue and its device stand to a list and what has happened to it. -/
structure Intake.Tracks (i : Intake) (b : Backlog)
    (accepted given turnedAway dropped : List Chunk) (lengths : List Nat) : Prop where
  mirrors : i.queue.Mirrors b
  figures : i.queue.Figures accepted given turnedAway lengths
  drops : i.counters.Drops dropped

namespace Intake.Tracks

variable {i : Intake} {b : Backlog} {accepted given turnedAway dropped : List Chunk}
  {lengths : List Nat}

/-- **The step lemma**: an operation answers what it answers on the list, and every figure
moves as the list does. -/
theorem handle (h : i.Tracks b accepted given turnedAway dropped lengths) (o : QueueOp) :
    (i.handle o).1 = (b.handle o).1 ∧
      (i.handle o).2.Tracks (b.handle o).2 (accepted ++ b.accepted o) (given ++ b.given o)
        (turnedAway ++ b.turnedAway o) (dropped ++ b.dropped o) (lengths ++ b.lengths o) := by
  obtain ⟨hm, hf, hd⟩ := h
  cases o with
  | push c =>
    have hleft := Queue.leaves_eq i.queue c
    rw [hm.admits c] at hleft
    refine ⟨?_, hm.push c, ?_, ?_⟩
    · show QueueReply.offered (i.queue.push c).1 (i.queue.leaves c) = _
      rw [hm.admits c, hleft]
      rfl
    · simp only [Backlog.given, List.append_nil]
      exact hf.push hm c
    · simp only [Backlog.dropped, List.append_nil]
      exact hd
  | publish c =>
    have hleft := Queue.leaves_eq i.queue c
    have hpub := publish_eq i.queue i.counters c
    rw [hm.admits c] at hleft hpub
    simp only [Intake.handle, hpub, hleft]
    refine ⟨rfl, hm.push c, ?_, ?_⟩
    · simp only [Backlog.given, List.append_nil]
      exact hf.push hm c
    · simp only [Backlog.dropped]
      by_cases ha : b.admits
      · simpa [ha] using hd
      · simpa [ha] using hd.drop c
  | tryPop =>
    simp only [Intake.handle, hm.tryPop]
    refine ⟨rfl, hm.behind, ?_, ?_⟩
    · simp only [Backlog.accepted, Backlog.turnedAway, List.append_nil]
      exact hf.behind hm
    · simp only [Backlog.dropped, List.append_nil]
      exact hd
  | pop waits =>
    obtain ⟨r, waited, hpop, hawaits⟩ := hm.pop waits
    simp only [Intake.handle, hpop]
    refine ⟨hawaits.symm, hm.behind, ?_, ?_⟩
    · simp only [Backlog.accepted, Backlog.turnedAway, List.append_nil]
      exact hf.behind hm
    · simp only [Backlog.dropped, List.append_nil]
      exact hd
  | close =>
    have hfig := hf.close
    rw [hm.size] at hfig
    refine ⟨rfl, hm.close, ?_, ?_⟩
    · simp only [Backlog.accepted, Backlog.given, Backlog.turnedAway, List.append_nil]
      exact hfig
    · simp only [Backlog.dropped, List.append_nil]
      exact hd

/-- **The run lemma**: so it is after any number of operations. -/
theorem run (h : i.Tracks b accepted given turnedAway dropped lengths) (os : List QueueOp) :
    i.replies os = b.replies os ∧
      (i.run os).Tracks (b.run os) (accepted ++ b.gather Backlog.accepted os)
        (given ++ b.gather Backlog.given os) (turnedAway ++ b.gather Backlog.turnedAway os)
        (dropped ++ b.gather Backlog.dropped os) (lengths ++ b.gather Backlog.lengths os) := by
  induction os generalizing i b accepted given turnedAway dropped lengths with
  | nil =>
    refine ⟨rfl, ?_⟩
    simpa [Intake.run, Backlog.run, Backlog.gather] using h
  | cons o os ih =>
    obtain ⟨hreply, hnext⟩ := h.handle o
    obtain ⟨hreplies, hlast⟩ := ih hnext
    refine ⟨?_, ?_⟩
    · rw [Intake.replies, Backlog.replies, hreply, hreplies]
    · simpa only [Intake.run, Backlog.run, Backlog.gather, List.append_assoc] using hlast

end Intake.Tracks

theorem Intake.tracks_empty (capacity : Nat) (now : Int) :
    Intake.Tracks ⟨.empty capacity, .fresh now⟩ (.empty capacity) [] [] [] [] [0] :=
  ⟨Queue.mirrors_empty capacity, Queue.figures_empty capacity, CaptureCounters.drops_fresh now⟩

/-- The list never has more chunks than it has room for. -/
theorem Queue.Mirrors.length_le {q : Queue} {b : Backlog} (h : q.Mirrors b) :
    b.chunks.length ≤ b.room := by
  rw [← h.size, ← h.room]
  exact h.ring.room

@[simp] theorem Backlog.room_run (b : Backlog) (os : List QueueOp) : (b.run os).room = b.room := by
  induction os generalizing b with
  | nil => rfl
  | cons o os ih =>
    have hstep : (b.handle o).2.room = b.room := by cases o <;> rfl
    rw [Backlog.run, ih, hstep]

/-- **The queue is a short list.**  Whatever whole operations are made on a new queue, each
answers as it does on a list with room for as many chunks, which a refused chunk does not
touch.  The chunks in the queue are those of the list, and those that were accepted have been
given out in their order but for them.  The figures are those of the list's history: how
many chunks were accepted and given out, how many were turned away because there was no room,
and the greatest length of all.  The counters of the device count the chunks that were
published and refused, for want of room or after the end, and their samples. -/
theorem intake_eq_backlog (capacity : Nat) (now : Int) (os : List QueueOp) :
    let start : Intake := ⟨.empty capacity, .fresh now⟩
    let list := Backlog.empty capacity
    let queue := (start.run os).queue
    let counters := (start.run os).counters
    let chunks := (list.run os).chunks
    let accepted := list.gather Backlog.accepted os
    let given := list.gather Backlog.given os
    let dropped := list.gather Backlog.dropped os
    let lengths := 0 :: list.gather Backlog.lengths os
    start.replies os = list.replies os ∧
      (queue.toList = chunks ∧ queue.closed = (list.run os).closed) ∧
      (accepted = given ++ chunks ∧ chunks.length ≤ max 1 capacity) ∧
      (queue.size = chunks.length ∧ queue.pushed = queue.popped + queue.size) ∧
      (queue.pushed = accepted.length ∧ queue.popped = given.length) ∧
      (queue.writePos = queue.pushed ∧ queue.readPos = queue.popped) ∧
      queue.overflows.toNat = (list.gather Backlog.turnedAway os).length % 2 ^ 64 ∧
      (queue.highWater ∈ lengths ∧ ∀ n ∈ lengths, n ≤ queue.highWater) ∧
      counters.droppedChunks.toNat = dropped.length % 2 ^ 64 ∧
      counters.droppedSamples.toNat = Chunk.amount dropped % 2 ^ 64 := by
  intro start list queue counters chunks accepted given dropped lengths
  obtain ⟨hreplies, hm, hf, hd⟩ := (Intake.tracks_empty capacity now).run os
  have horder : accepted = given ++ chunks := by
    rw [show chunks = queue.toList from hm.chunks.symm]
    exact hf.order
  have hroom : chunks.length ≤ max 1 capacity := by
    have hle := hm.length_le
    rwa [Backlog.room_run] at hle
  have hcount : queue.pushed = queue.popped + queue.size := by
    have hpushed : queue.pushed = accepted.length := hf.pushed
    have hpopped : queue.popped = given.length := hf.popped
    have hsize : queue.size = chunks.length := hm.size
    rw [hpushed, hpopped, hsize, horder, List.length_append]
  have hoverflows : queue.overflows.toNat =
      (list.gather Backlog.turnedAway os).length % 2 ^ 64 := by
    rw [hf.overflows]
    exact UInt64.toNat_ofNat'
  exact ⟨hreplies, ⟨hm.chunks, hm.closed⟩, ⟨horder, hroom⟩, ⟨hm.size, hcount⟩,
    ⟨hf.pushed, hf.popped⟩, ⟨hf.writePos, hf.readPos⟩, hoverflows, ⟨hf.reached, hf.highest⟩,
    hd.chunks, hd.samples⟩

end IqTape
