import IqTape.Proofs.Capture.Queue

/-!
# The queue between two sides that run at once

The device pushes and the writer pops, each one load or store at a time, and the steps of
the two sides come in any order.  Each side works with a position of the other side that may
be out of date.  That never does harm: the device can only underestimate the room, and the
writer can only underestimate what is there.

A slot goes through four hands.  The device fills it and then publishes it by moving its own
position on; the writer takes the chunk out, clears the slot, and releases it by moving its
own position on.  All that is known of the slots follows from the order of these four.

## Main definitions

* `Channel` — the queue with what both sides are doing, and what has come of it.
* `Channel.Move`, `Channel.handle`, `Channel.run` — runs in which the two sides take turns.
* `Queue.Keeps` — which slots hold which chunks.
* `Channel.Sound` — what holds between any two steps.

## Main results

* `Await.run_poll` — a pop that waits and is not interrupted is a series of looks.
* `Queue.Keeps.fill`, `Queue.Keeps.publish`, `Queue.Keeps.take`, `Queue.Keeps.clear`,
  `Queue.Keeps.release` — what each access to the ring does.
* `Channel.Sound.handle`, `Channel.Sound.run` — every step and every run is sound.
* `Channel.fifo` — **the queue is a channel that delivers in order**.
-/

namespace IqTape

/-! ### A pop that waits -/

/-- **One look of a pop that waits** is what the steps come to when nothing comes between
them. -/
theorem Await.run_poll (q : Queue) :
    ∃ n, Await.run n (.looking .asked) q =
      (match q.poll.1 with | some r => .answered r | none => .timing, q.poll.2) := by
  by_cases hsame : q.writePos = q.readPos
  · have hpop : q.tryPop = (none, q) := by rw [Queue.tryPop_eq, if_pos hsame]
    by_cases hclosed : q.closed = true
    · refine ⟨5, ?_⟩
      simp [Await.run, Await.step, Pop.step, Queue.poll, hpop, hsame, hclosed]
    · refine ⟨3, ?_⟩
      simp [Await.run, Await.step, Pop.step, Queue.poll, hpop, hsame, hclosed]
  · have hpop : q.tryPop = (some (q.slot q.readPos), q.removed) := by
      rw [Queue.tryPop_eq, if_neg hsame]
    refine ⟨6, ?_⟩
    simp [Await.run, Await.step, Pop.step, Queue.poll, hpop, hsame, Queue.removed, Queue.fill]

/-! ### Two sides and a queue -/

/-- What the device is doing. -/
inductive Offering
  | idle
  /-- It pushes a chunk. -/
  | pushing (c : Chunk) (p : Push)
  deriving DecidableEq, Repr

/-- What the writer is doing. -/
inductive Taking
  | idle
  /-- It makes one attempt to pop. -/
  | trying (p : Pop)
  /-- It pops and waits, or is idle again after an answer. -/
  | waiting (a : Await)
  deriving DecidableEq, Repr

/-- Whether the writer can begin to pop. -/
def Taking.isIdle : Taking → Bool
  | .idle => true
  | .waiting (.answered _) => true
  | _ => false

/-- A queue with a device and a writer that use it at the same time. -/
structure Channel where
  queue : Queue
  device : Offering
  writer : Taking
  /-- The chunks whose push has said that they were accepted, in order. -/
  returned : List Chunk
  /-- The chunks that pops have given, in order. -/
  popped : List Chunk
  deriving DecidableEq, Repr

namespace Channel

/-- A new queue that nobody uses yet. -/
def opened (capacity : Nat) : Channel := ⟨.empty capacity, .idle, .idle, [], []⟩

/-- Something that happens to a channel. -/
inductive Move
  /-- The device begins to push a chunk. -/
  | offer (c : Chunk)
  /-- The device makes a step of its push. -/
  | produce
  | close
  /-- The writer begins an attempt to pop. -/
  | tryPop
  /-- The writer begins a pop that waits. -/
  | pop
  /-- The writer makes a step; `late` says what its clock shows. -/
  | consume (late : Bool)
  deriving DecidableEq, Repr

/-- Whether a move begins a push. -/
def Move.isOffer : Move → Bool
  | offer _ => true
  | _ => false

/-- The device makes a step of its push. -/
def produce (s : Channel) : Channel :=
  match s.device with
  | .idle => s
  | .pushing c p =>
    match p.step s.queue with
    | (.accepted, q) => { s with queue := q, device := .idle, returned := s.returned ++ [c] }
    | (.refused _, q) => { s with queue := q, device := .idle }
    | (p, q) => { s with queue := q, device := .pushing c p }

/-- The writer makes a step of its pop. -/
def consume (late : Bool) (s : Channel) : Channel :=
  match s.writer with
  | .idle => s
  | .trying p =>
    match p.step s.queue with
    | (.got c, q) => { s with queue := q, writer := .idle, popped := s.popped ++ [c] }
    | (.nothing, q) => { s with queue := q, writer := .idle }
    | (p, q) => { s with queue := q, writer := .trying p }
  | .waiting (.answered _) => s
  | .waiting a =>
    match a.step late s.queue with
    | (.answered (.chunk c), q) =>
      { s with queue := q, writer := .waiting (.answered (.chunk c)), popped := s.popped ++ [c] }
    | (a, q) => { s with queue := q, writer := .waiting a }

/-- The channel after a move.  A side that is busy does not begin anything else. -/
def handle (s : Channel) : Move → Channel
  | .offer c =>
    match s.device with
    | .idle => { s with device := .pushing c (.asked c) }
    | .pushing _ _ => s
  | .produce => s.produce
  | .close =>
    match s.device with
    | .idle => { s with queue := s.queue.close }
    | .pushing _ _ => s
  | .tryPop =>
    if s.writer.isIdle then { s with writer := .trying .asked } else s
  | .pop =>
    if s.writer.isIdle then { s with writer := .waiting (.looking .asked) } else s
  | .consume late => s.consume late

/-- The channel after some moves. -/
def run (s : Channel) (ms : List Move) : Channel := ms.foldl handle s

@[simp] theorem run_nil (s : Channel) : s.run [] = s := rfl

@[simp] theorem run_cons (s : Channel) (m : Move) (ms : List Move) :
    s.run (m :: ms) = (s.handle m).run ms := rfl

end Channel

/-! ### Where the chunks are -/

/-- The chunk of a push that has stored the new position, but has not said so yet. -/
def Offering.published : Offering → List Chunk
  | .pushing c (.published _ _) => [c]
  | _ => []

/-- The chunk of a push that has filled its slot, but has not published it yet. -/
def Offering.filled : Offering → List Chunk
  | .pushing c (.filled _ _) => [c]
  | _ => []

/-- The attempt to pop that is under way. -/
def Taking.pop? : Taking → Option Pop
  | .trying p => some p
  | .waiting (.looking p) => some p
  | .waiting (.lastLook p) => some p
  | _ => none

/-- The chunk that an attempt to pop has taken from its slot. -/
def Pop.inHand : Pop → List Chunk
  | .taken _ c => [c]
  | .cleared _ c => [c]
  | .released c => [c]
  | .got c => [c]
  | _ => []

/-- The chunk that has been taken from its slot, but has not been given to the writer yet. -/
def Taking.inHand (t : Taking) : List Chunk :=
  match t.pop? with
  | some p => p.inHand
  | none => []

namespace Channel

/-- The chunks whose push has been accepted, in order, whether or not it has said so. -/
def accepted (s : Channel) : List Chunk := s.returned ++ s.device.published

/-- The chunks that have been put into a slot, in order. -/
def stored (s : Channel) : List Chunk := s.accepted ++ s.device.filled

/-- The chunks that have been taken from their slot, in order. -/
def drawn (s : Channel) : List Chunk := s.popped ++ s.writer.inHand

/-- The positions whose slots the next step of one side or the other overwrites. -/
def overwritten (s : Channel) : List Nat :=
  (match s.device with
    | .pushing _ (.roomy _ write _) => [write]
    | _ => []) ++
  match s.writer.pop? with
    | some (.taken read _) => [read]
    | _ => []

/-- The position whose slot the next step of the writer reads. -/
def reading (s : Channel) : Option Nat :=
  match s.writer.pop? with
  | some (.ready read) => some read
  | _ => none

end Channel

/-! ### The slots -/

namespace Queue

/-- The ring holds the stored chunks from `drawn` on, each in the slot of its position.  What
is taken was published before, what is released was taken before, and the device is never
more than a round ahead. -/
structure Keeps (q : Queue) (stored : List Chunk) (drawn : Nat) : Prop where
  pos : 0 < q.capacity
  slots : q.slots.size = q.capacity
  released : q.readPos ≤ drawn
  published : drawn ≤ q.writePos
  filled : q.writePos ≤ stored.length
  ahead : stored.length ≤ q.readPos + q.capacity
  held : ∀ i c, drawn ≤ i → stored[i]? = some c → q.slot i = c

namespace Keeps

variable {q : Queue} {stored : List Chunk} {drawn : Nat} {c : Chunk}

theorem isRing (h : q.Keeps stored drawn) : q.IsRing := by
  obtain ⟨hpos, hslots, hreleased, hpublished, hfilled, hahead, -⟩ := h
  refine ⟨hpos, hslots, by omega, ?_⟩
  simp only [size]
  omega

theorem of_empty (capacity : Nat) : (empty capacity).Keeps [] 0 := by
  have hring := isRing_empty capacity
  exact ⟨hring.pos, hring.slots, Nat.le_refl 0, Nat.le_refl 0, Nat.le_refl 0, Nat.zero_le _, nofun⟩

/-- **Filling a slot** that lies less than a round ahead of what was released. -/
theorem fill (h : q.Keeps stored drawn) (hlast : stored.length = q.writePos)
    (hroom : q.writePos < q.readPos + q.capacity) (c : Chunk) :
    (q.fill q.writePos c).Keeps (stored ++ [c]) drawn := by
  have hring := h.isRing
  obtain ⟨hpos, hslots, hreleased, hpublished, hfilled, hahead, hheld⟩ := h
  have hlen : (stored ++ [c]).length = q.writePos + 1 := by
    rw [List.length_append, hlast, List.length_singleton]
  refine ⟨hpos, Array.size_setIfInBounds.trans hslots, hreleased, hpublished, ?_, ?_, ?_⟩
  · show q.writePos ≤ (stored ++ [c]).length
    omega
  · show (stored ++ [c]).length ≤ q.readPos + q.capacity
    omega
  · intro i d hi hd
    rcases Nat.lt_or_ge i stored.length with hlt | hge
    · -- The chunks that are still there lie less than a round behind the new one.
      rw [List.getElem?_append_left hlt] at hd
      rw [slot_fill_of_ne (mod_ne_mod (by omega) (by omega)).symm]
      exact hheld i d hi hd
    · have hsame : i = q.writePos := by
        have := (List.getElem?_eq_some_iff.1 hd).1
        omega
      subst hsame
      rw [← hlast, List.getElem?_concat_length] at hd
      rw [slot_fill_self hring]
      exact Option.some.inj hd

/-- **Publishing** what has been filled. -/
theorem publish (h : q.Keeps stored drawn) (hnext : q.writePos < stored.length) :
    Keeps { q with writePos := q.writePos + 1 } stored drawn := by
  obtain ⟨hpos, hslots, hreleased, hpublished, -, hahead, hheld⟩ := h
  exact ⟨hpos, hslots, hreleased, Nat.le_succ_of_le hpublished, hnext, hahead, hheld⟩

/-- **Taking** what has been published finds the oldest chunk. -/
theorem take (h : q.Keeps stored drawn) (hnext : drawn < q.writePos) :
    q.Keeps stored (drawn + 1) ∧ stored[drawn]? = some (q.slot drawn) := by
  obtain ⟨hpos, hslots, hreleased, -, hfilled, hahead, hheld⟩ := h
  have hlt : drawn < stored.length := Nat.lt_of_lt_of_le hnext hfilled
  constructor
  · refine ⟨hpos, hslots, Nat.le_succ_of_le hreleased, hnext, hfilled, hahead, ?_⟩
    intro i d hi hd
    exact hheld i d (Nat.le_of_succ_le hi) hd
  · have hd := List.getElem?_eq_getElem hlt
    rw [hd, hheld drawn _ (Nat.le_refl _) hd]

/-- **Clearing a slot** whose chunk has been taken. -/
theorem clear (h : q.Keeps stored drawn) (htaken : q.readPos < drawn) (c : Chunk) :
    (q.fill q.readPos c).Keeps stored drawn := by
  obtain ⟨hpos, hslots, hreleased, hpublished, hfilled, hahead, hheld⟩ := h
  refine ⟨hpos, Array.size_setIfInBounds.trans hslots, hreleased, hpublished, hfilled, hahead, ?_⟩
  intro i d hi hd
  -- Nothing is stored a whole round ahead of a slot that has not been released.
  have hlt := (List.getElem?_eq_some_iff.1 hd).1
  rw [slot_fill_of_ne (mod_ne_mod (by omega) (by omega))]
  exact hheld i d hi hd

/-- **Releasing a slot** whose chunk has been taken. -/
theorem release (h : q.Keeps stored drawn) (htaken : q.readPos < drawn) :
    Keeps { q with readPos := q.readPos + 1 } stored drawn := by
  obtain ⟨hpos, hslots, -, hpublished, hfilled, hahead, hheld⟩ := h
  refine ⟨hpos, hslots, htaken, hpublished, hfilled, ?_, hheld⟩
  show stored.length ≤ q.readPos + 1 + q.capacity
  omega

end Keeps

end Queue

/-! ### What each side knows -/

/-- What a push knows of the queue.  The position of the writer that it has seen may be out of
date; all that is left of it is that there is room. -/
def Push.Fits (q : Queue) (c : Chunk) : Push → Prop
  | .asked d => d = c
  | .admitted d => d = c
  | .located d write => d = c ∧ write = q.writePos
  | .crowded _ => True
  | .roomy d write _ => d = c ∧ write = q.writePos ∧ q.writePos < q.readPos + q.capacity
  | .filled write _ => write = q.writePos
  | .published _ _ => True
  | .accepted => False
  | .refused _ => False

/-- What the device knows of the queue. -/
def Offering.Fits (q : Queue) : Offering → Prop
  | .idle => True
  | .pushing c p => p.Fits q c

/-- What an attempt to pop knows of the queue, when so many chunks have been taken. -/
def Pop.Fits (q : Queue) (drawn : Nat) : Pop → Prop
  | .asked => drawn = q.readPos
  | .located read => read = q.readPos ∧ drawn = q.readPos
  | .ready read => read = q.readPos ∧ drawn = q.readPos ∧ q.readPos < q.writePos
  | .taken read _ => read = q.readPos ∧ drawn = q.readPos + 1
  | .cleared read _ => read = q.readPos ∧ drawn = q.readPos + 1
  | .released _ => drawn = q.readPos
  | .got _ => drawn = q.readPos
  | .nothing => False

/-- What the writer knows of the queue.  Between two attempts everything that was taken has
been released. -/
def Taking.Fits (q : Queue) (drawn : Nat) (t : Taking) : Prop :=
  match t.pop? with
  | some p => p.Fits q drawn
  | none => drawn = q.readPos

/-- Whether the device has stored nothing since it looked whether the queue is closed. -/
def Offering.AtRest : Offering → Prop
  | .idle => True
  | .pushing _ (.asked _) => True
  | _ => False

/-- Whether the writer relies on the queue being closed. -/
def Taking.SawClosed : Taking → Prop
  | .waiting (.lastLook _) => True
  | .waiting (.answered .closed) => True
  | _ => False

namespace Channel

/-- What holds of a channel between any two steps. -/
structure Sound (s : Channel) : Prop where
  /-- The slots hold the chunks. -/
  keeps : s.queue.Keeps s.stored s.drawn.length
  /-- What was taken are the first chunks that were accepted. -/
  drawn : s.drawn <+: s.accepted
  /-- The position of the device counts what was accepted. -/
  written : s.queue.writePos = s.accepted.length
  device : s.device.Fits s.queue
  writer : s.writer.Fits s.queue s.drawn.length
  /-- The device does not go on after it has closed the queue. -/
  shut : s.queue.closed = true → s.device.AtRest
  /-- The writer was right. -/
  seen : s.writer.SawClosed → s.queue.closed = true
  /-- A writer that was told that the queue is closed has left nothing in it. -/
  told : s.writer = .waiting (.answered .closed) → s.queue.writePos = s.queue.readPos

/-- What a step of an attempt to pop leaves: how far it has got, and the queue. -/
structure Took (s : Channel) (p : Pop) (q : Queue) : Prop where
  keeps : q.Keeps s.stored (s.popped ++ p.inHand).length
  drawn : s.popped ++ p.inHand <+: s.accepted
  fits : p ≠ .nothing → p.Fits q (s.popped ++ p.inHand).length
  writePos : q.writePos = s.queue.writePos
  readPos : s.queue.readPos ≤ q.readPos
  capacity : q.capacity = s.queue.capacity
  closed : q.closed = s.queue.closed
  /-- Only an empty queue has nothing to give. -/
  nothing : p = .nothing → s.popped.length = q.readPos ∧ q.writePos = q.readPos

end Channel

/-! ### What one side knows outlasts the steps of the other -/

/-- The device keeps its room when the writer makes more. -/
theorem Offering.Fits.mono {d : Offering} {q later : Queue} (h : d.Fits q)
    (hwrite : later.writePos = q.writePos) (hread : q.readPos ≤ later.readPos)
    (hcapacity : later.capacity = q.capacity) : d.Fits later := by
  rcases d with _ | ⟨c, p⟩
  · exact trivial
  · cases p with
    | located d write => exact ⟨h.1, h.2.trans hwrite.symm⟩
    | roomy d write read =>
      obtain ⟨hsame, hpos, hroom⟩ := h
      refine ⟨hsame, hpos.trans hwrite.symm, ?_⟩
      omega
    | filled write read => exact Eq.trans h hwrite.symm
    | _ => exact h

/-- The writer keeps its chunk when the device puts more behind it. -/
theorem Taking.Fits.mono {t : Taking} {q later : Queue} {drawn : Nat} (h : t.Fits q drawn)
    (hwrite : q.writePos ≤ later.writePos) (hread : later.readPos = q.readPos) :
    t.Fits later drawn := by
  unfold Fits at h ⊢
  split at h
  · next p _ =>
    cases p with
    | nothing => exact h
    | _ =>
      simp only [Pop.Fits] at h ⊢
      omega
  · exact h.trans hread.symm

namespace Channel.Sound

variable {s : Channel}

/-- A step of the device leaves the channel sound. -/
theorem device_moves (h : s.Sound) {q : Queue} {d : Offering} {returned : List Chunk}
    (hkeeps : q.Keeps (returned ++ d.published ++ d.filled) s.drawn.length)
    (haccepted : s.accepted <+: returned ++ d.published)
    (hwritten : q.writePos = (returned ++ d.published).length) (hfits : d.Fits q)
    (hread : q.readPos = s.queue.readPos) (hclosed : s.queue.closed = true → q.closed = true)
    (hshut : q.closed = true → d.AtRest)
    (hstill : s.queue.closed = true → q.writePos = s.queue.writePos) :
    Sound { s with queue := q, device := d, returned := returned } := by
  have hmore : s.queue.writePos ≤ q.writePos := by
    rw [hwritten, h.written]
    exact haccepted.length_le
  refine ⟨hkeeps, h.drawn.trans haccepted, hwritten, hfits, h.writer.mono hmore hread, hshut,
    fun hseen => hclosed (h.seen hseen), ?_⟩
  -- A writer that was told saw the queue closed, and since then the device has stored nothing.
  intro htold
  have hsaw : s.writer.SawClosed := by
    rw [show s.writer = .waiting (.answered .closed) from htold]
    exact trivial
  rw [hread, hstill (h.seen hsaw)]
  exact h.told htold

/-- A step of the writer leaves the channel sound. -/
theorem writer_moves (h : s.Sound) {q : Queue} {p : Pop} (ht : s.Took p q) {t : Taking}
    {popped : List Chunk} (hdrawn : popped ++ t.inHand = s.popped ++ p.inHand)
    (hfits : t.Fits q (popped ++ t.inHand).length) (hseen : t.SawClosed → q.closed = true)
    (htold : t = .waiting (.answered .closed) → q.writePos = q.readPos) :
    Sound { s with queue := q, writer := t, popped := popped } := by
  refine ⟨?_, ?_, ht.writePos.trans h.written,
    h.device.mono ht.writePos ht.readPos ht.capacity, hfits, ?_, hseen, htold⟩
  · show q.Keeps s.stored (popped ++ t.inHand).length
    rw [hdrawn]
    exact ht.keeps
  · show popped ++ t.inHand <+: s.accepted
    rw [hdrawn]
    exact ht.drawn
  · intro hclosed
    exact h.shut (ht.closed ▸ hclosed)

/-! ### The steps of the device -/

/-- A device that is in the middle of a push has not closed the queue. -/
theorem not_closed (h : s.Sound) {d : Offering} (hd : s.device = d) (hbusy : ¬d.AtRest) :
    ¬s.queue.closed = true :=
  fun hclosed => hbusy (hd ▸ h.shut hclosed)

/-- A step of the device that leaves the queue and the chunks as they are. -/
theorem device_looks (h : s.Sound) {before after : Offering} (hd : s.device = before)
    (hpublished : before.published = after.published) (hfilled : before.filled = after.filled)
    (hfits : after.Fits s.queue) (hshut : s.queue.closed = true → after.AtRest) :
    Sound { s with device := after } := by
  have haccepted : s.accepted = s.returned ++ after.published := by
    rw [accepted, hd, hpublished]
  refine h.device_moves ?_ ?_ ?_ hfits rfl id hshut fun _ => rfl
  · rw [← haccepted, ← hfilled, ← hd]
    exact h.keeps
  · exact ⟨[], (List.append_nil _).trans haccepted⟩
  · rw [← haccepted]
    exact h.written

/-- **A step of the device.** -/
theorem produce (h : s.Sound) : s.produce.Sound := by
  unfold Channel.produce
  rcases hd : s.device with _ | ⟨c, p⟩
  · exact h
  have hfits := h.device
  have hwritten := h.written
  have hkeeps := h.keeps
  rw [hd] at hfits
  rw [Channel.stored] at hkeeps
  simp only [accepted, hd] at hwritten hkeeps
  cases p with
  | asked d =>
    simp only [Push.step]
    by_cases hclosed : s.queue.closed = true
    · rw [if_pos hclosed]
      exact h.device_looks hd rfl rfl trivial fun _ => trivial
    · rw [if_neg hclosed]
      exact h.device_looks hd rfl rfl hfits fun hc => absurd hc hclosed
  | admitted d =>
    have hopen := h.not_closed hd id
    exact h.device_looks hd rfl rfl ⟨hfits, rfl⟩ fun hc => absurd hc hopen
  | located d write =>
    have hopen := h.not_closed hd id
    obtain ⟨hsame, hpos⟩ := hfits
    have hpositive := hkeeps.pos
    -- The room that is seen here can only grow until the slot is filled.
    simp only [Push.step]
    by_cases hfull : s.queue.capacity ≤ write - s.queue.readPos
    · rw [if_pos hfull]
      exact h.device_looks hd rfl rfl trivial fun hc => absurd hc hopen
    · rw [if_neg hfull]
      exact h.device_looks hd rfl rfl ⟨hsame, hpos, by omega⟩ fun hc => absurd hc hopen
  | crowded d =>
    have hopen := h.not_closed hd id
    -- Only a counter changes, and the ring does not look at it.
    have hsame : Queue.Keeps { s.queue with overflows := s.queue.overflows + 1 } _ _ :=
      ⟨hkeeps.pos, hkeeps.slots, hkeeps.released, hkeeps.published, hkeeps.filled, hkeeps.ahead,
        hkeeps.held⟩
    refine h.device_moves hsame ?_ hwritten trivial rfl id (fun hc => absurd hc hopen)
      fun _ => rfl
    rw [accepted, hd]
    exact List.prefix_rfl
  | roomy d write read =>
    have hopen := h.not_closed hd id
    obtain ⟨rfl, rfl, hroom⟩ := hfits
    have hlast : (s.returned ++ [] ++ []).length = s.queue.writePos := by
      rw [List.append_nil]
      exact hwritten.symm
    have hfilled := hkeeps.fill hlast hroom d
    refine h.device_moves ?_ ?_ hwritten rfl rfl id (fun hc => absurd hc hopen) fun _ => rfl
    · simpa [Offering.published, Offering.filled] using hfilled
    · rw [accepted, hd]
      exact List.prefix_rfl
  | filled write read =>
    have hopen := h.not_closed hd id
    obtain rfl : write = s.queue.writePos := hfits
    -- This store is what accepts the chunk: the filled slot becomes a published one.
    simp only [Offering.published, List.append_nil] at hwritten hkeeps
    have hpublished := hkeeps.publish (by rw [hwritten]; simp [Offering.filled])
    refine h.device_moves ?_ ?_ ?_ trivial rfl id (fun hc => absurd hc hopen)
      fun hc => absurd hc hopen
    · simpa [Offering.published, Offering.filled] using hpublished
    · simp [accepted, hd, Offering.published]
    · simp [Offering.published, hwritten]
  | published write read =>
    have hopen := h.not_closed hd id
    have hsame : Queue.Keeps { s.queue with
        pushed := s.queue.pushed + 1
        highWater := max s.queue.highWater (write + 1 - read) } _ _ :=
      ⟨hkeeps.pos, hkeeps.slots, hkeeps.released, hkeeps.published, hkeeps.filled, hkeeps.ahead,
        hkeeps.held⟩
    refine h.device_moves ?_ ?_ ?_ trivial rfl id (fun hc => absurd hc hopen) fun _ => rfl
    · simpa [Offering.published, Offering.filled] using hsame
    · simp [accepted, hd, Offering.published]
    · simpa [Offering.published] using hwritten
  | accepted => exact hfits.elim
  | refused d => exact hfits.elim

/-! ### The steps of the writer -/

/-- **A step of an attempt to pop.** -/
theorem took (h : s.Sound) {p : Pop} (hp : s.writer.pop? = some p) :
    s.Took (p.step s.queue).1 (p.step s.queue).2 := by
  have hhand : s.drawn = s.popped ++ p.inHand := by rw [Channel.drawn, Taking.inHand, hp]
  have hkeeps := h.keeps
  have hdrawn := h.drawn
  have hfits : p.Fits s.queue s.drawn.length := by
    have hwriter := h.writer
    rwa [Taking.Fits, hp] at hwriter
  rw [hhand] at hkeeps hdrawn hfits
  cases p with
  | asked => exact ⟨hkeeps, hdrawn, fun _ => ⟨rfl, hfits⟩, rfl, Nat.le_refl _, rfl, rfl, nofun⟩
  | located read =>
    obtain ⟨rfl, hlen⟩ := hfits
    simp only [Pop.inHand, List.append_nil] at hlen
    unfold Pop.step
    simp only
    by_cases hsame : s.queue.writePos = s.queue.readPos
    · rw [if_pos hsame]
      exact ⟨hkeeps, hdrawn, (absurd rfl ·), rfl, Nat.le_refl _, rfl, rfl, fun _ => ⟨hlen, hsame⟩⟩
    · rw [if_neg hsame]
      have hle := hkeeps.isRing.le
      refine ⟨hkeeps, hdrawn, fun _ => ⟨rfl, ?_, by omega⟩, rfl, Nat.le_refl _, rfl, rfl, nofun⟩
      simpa [Pop.inHand] using hlen
  | ready read =>
    obtain ⟨rfl, hlen, hmore⟩ := hfits
    simp only [Pop.inHand, List.append_nil] at hkeeps hdrawn hlen
    obtain ⟨hnext, hchunk⟩ := hkeeps.take (by omega)
    -- What is found in the slot is the first chunk that has not been taken.
    have hfirst : s.accepted[s.popped.length]? = some (s.queue.slot s.queue.readPos) := by
      rw [stored, List.getElem?_append_left (by rw [← h.written]; omega)] at hchunk
      rw [hchunk, hlen]
    have hprefix : s.popped ++ [s.queue.slot s.queue.readPos] <+: s.accepted := by
      obtain ⟨rest, hrest⟩ := hdrawn
      rw [← hrest, List.getElem?_append_right (Nat.le_refl _), Nat.sub_self] at hfirst
      rcases rest with _ | ⟨x, rest⟩
      · cases hfirst
      · cases hfirst
        exact ⟨rest, by rw [← hrest, List.append_assoc]; rfl⟩
    have hlonger : (s.popped ++ [s.queue.slot s.queue.readPos]).length = s.popped.length + 1 :=
      List.length_append
    refine ⟨?_, hprefix, fun _ => ⟨rfl, ?_⟩, rfl, Nat.le_refl _, rfl, rfl, nofun⟩
    · show s.queue.Keeps s.stored (s.popped ++ [s.queue.slot s.queue.readPos]).length
      rw [hlonger]
      exact hnext
    · show (s.popped ++ [s.queue.slot s.queue.readPos]).length = s.queue.readPos + 1
      rw [hlonger, hlen]
  | taken read c =>
    obtain ⟨rfl, hlen⟩ := hfits
    have hclear := hkeeps.clear (by omega) Chunk.blank
    exact ⟨hclear, hdrawn, fun _ => ⟨rfl, hlen⟩, rfl, Nat.le_refl _, rfl, rfl, nofun⟩
  | cleared read c =>
    obtain ⟨rfl, hlen⟩ := hfits
    -- Only now may the device overwrite the slot.
    have hrelease := hkeeps.release (by omega)
    exact ⟨hrelease, hdrawn, fun _ => hlen, rfl, Nat.le_succ _, rfl, rfl, nofun⟩
  | released c =>
    refine ⟨?_, hdrawn, fun _ => hfits, rfl, Nat.le_refl _, rfl, rfl, nofun⟩
    exact ⟨hkeeps.pos, hkeeps.slots, hkeeps.released, hkeeps.published, hkeeps.filled,
      hkeeps.ahead, hkeeps.held⟩
  | got c => exact ⟨hkeeps, hdrawn, fun _ => hfits, rfl, Nat.le_refl _, rfl, rfl, nofun⟩
  | nothing => exact hfits.elim

/-- A writer without an attempt under way has released all that it took, and can begin one. -/
theorem begins (h : s.Sound) (hp : s.writer.pop? = none) :
    s.popped.length = s.queue.readPos ∧ s.Took .asked s.queue := by
  have hhand : s.drawn = s.popped := by
    rw [Channel.drawn, Taking.inHand, hp]
    exact List.append_nil _
  have hkeeps := h.keeps
  have hdrawn := h.drawn
  have hfits := h.writer
  rw [Taking.Fits, hp] at hfits
  rw [hhand] at hkeeps hdrawn hfits
  refine ⟨hfits, ?_⟩
  rw [← List.append_nil s.popped] at hkeeps hdrawn hfits
  exact ⟨hkeeps, hdrawn, fun _ => hfits, rfl, Nat.le_refl _, rfl, rfl, nofun⟩

/-- An attempt to pop goes on. -/
theorem goes_on (h : s.Sound) {p : Pop} {q : Queue} (ht : s.Took p q) (hp : p ≠ .nothing)
    {t : Taking} (hpop : t.pop? = some p) (hseen : t.SawClosed → q.closed = true) :
    Sound { s with queue := q, writer := t } := by
  have hhand : t.inHand = p.inHand := by rw [Taking.inHand, hpop]
  refine h.writer_moves ht (by rw [hhand]) ?_ hseen ?_
  · rw [hhand, Taking.Fits, hpop]
    exact ht.fits hp
  · rintro rfl
    cases hpop

/-- An attempt to pop gives a chunk. -/
theorem gives (h : s.Sound) {c : Chunk} {q : Queue} (ht : s.Took (.got c) q) {t : Taking}
    (hpop : t.pop? = none) (hseen : ¬t.SawClosed) :
    Sound { s with queue := q, writer := t, popped := s.popped ++ [c] } := by
  have hhand : t.inHand = [] := by rw [Taking.inHand, hpop]
  refine h.writer_moves ht (by rw [hhand, List.append_nil]; rfl) ?_ (absurd · hseen) ?_
  · rw [hhand, List.append_nil, Taking.Fits, hpop]
    exact ht.fits nofun
  · rintro rfl
    exact absurd trivial hseen

/-- The writer has nothing in hand, and looks elsewhere. -/
theorem rests (h : s.Sound) {p : Pop} {q : Queue} (ht : s.Took p q) (hp : p.inHand = [])
    (hlen : s.popped.length = q.readPos) {t : Taking} (hpop : t.pop? = none)
    (hseen : t.SawClosed → q.closed = true)
    (htold : t = .waiting (.answered .closed) → q.writePos = q.readPos) :
    Sound { s with queue := q, writer := t } := by
  have hhand : t.inHand = [] := by rw [Taking.inHand, hpop]
  refine h.writer_moves ht (by rw [hhand, hp]) ?_ hseen htold
  rw [hhand, List.append_nil, Taking.Fits, hpop]
  exact hlen

/-- A writer that has not seen the queue closed may look elsewhere at any time. -/
theorem rests_unseen (h : s.Sound) {p : Pop} {q : Queue} (ht : s.Took p q) (hp : p.inHand = [])
    (hlen : s.popped.length = q.readPos) {t : Taking} (hpop : t.pop? = none)
    (hunseen : ¬t.SawClosed) : Sound { s with queue := q, writer := t } := by
  refine h.rests ht hp hlen hpop (absurd · hunseen) ?_
  rintro rfl
  exact absurd trivial hunseen

/-- **A step of the writer.** -/
theorem consume (h : s.Sound) (late : Bool) : (s.consume late).Sound := by
  unfold Channel.consume
  rcases hw : s.writer with _ | p | a
  · exact h
  · have ht := h.took (p := p) (by rw [hw]; rfl)
    simp only
    split
    · next c q hstep =>
      rw [hstep] at ht
      exact h.gives ht rfl id
    · next q hstep =>
      rw [hstep] at ht
      exact h.rests_unseen ht rfl (ht.nothing rfl).1 rfl id
    · next p' q hgot hnothing hstep =>
      rw [hstep] at ht
      exact h.goes_on ht hnothing rfl False.elim
  · cases a with
    | looking p =>
      have ht := h.took (p := p) (by rw [hw]; rfl)
      simp only [Await.step]
      rcases hstep : p.step s.queue with ⟨p', q⟩
      rw [hstep] at ht
      cases p' with
      | got c => exact h.gives ht rfl id
      | nothing => exact h.rests_unseen ht rfl (ht.nothing rfl).1 rfl id
      | _ => exact h.goes_on ht (by simp) rfl False.elim
    | lastLook p =>
      have hclosed : s.queue.closed = true := h.seen (by rw [hw]; exact trivial)
      have ht := h.took (p := p) (by rw [hw]; rfl)
      simp only [Await.step]
      rcases hstep : p.step s.queue with ⟨p', q⟩
      rw [hstep] at ht
      -- The queue stays closed, so an empty queue stays empty.
      have hstill : q.closed = true := ht.closed.trans hclosed
      cases p' with
      | got c => exact h.gives ht rfl id
      | nothing =>
        exact h.rests ht rfl (ht.nothing rfl).1 rfl (fun _ => hstill) fun _ => (ht.nothing rfl).2
      | _ => exact h.goes_on ht (by simp) rfl fun _ => hstill
    | checking =>
      obtain ⟨hlen, ht⟩ := h.begins (by rw [hw]; rfl)
      simp only [Await.step]
      by_cases hclosed : s.queue.closed = true
      · -- A chunk may have come between the empty look and this one, so the pop looks again.
        rw [if_pos hclosed]
        exact h.goes_on ht (by simp) rfl fun _ => hclosed
      · rw [if_neg hclosed]
        exact h.rests_unseen ht rfl hlen rfl id
    | timing =>
      obtain ⟨hlen, ht⟩ := h.begins (by rw [hw]; rfl)
      simp only [Await.step]
      cases late with
      | true => exact h.rests_unseen ht rfl hlen rfl id
      | false => exact h.goes_on ht (by simp) rfl False.elim
    | answered r => exact h

/-- **A move leaves the channel sound.** -/
theorem handle (h : s.Sound) (m : Move) : (s.handle m).Sound := by
  have hbegin (hidle : s.writer.isIdle = true) : s.writer.pop? = none := by
    rcases hw : s.writer with _ | p | a
    · rfl
    · rw [hw] at hidle
      cases hidle
    · cases a with
      | answered r => rfl
      | _ =>
        rw [hw] at hidle
        cases hidle
  cases m with
  | offer c =>
    simp only [Channel.handle]
    rcases hd : s.device with _ | ⟨d, p⟩
    · exact h.device_looks hd rfl rfl rfl fun _ => trivial
    · exact h
  | produce => exact h.produce
  | close =>
    simp only [Channel.handle]
    rcases hd : s.device with _ | ⟨d, p⟩
    · have hkeeps := h.keeps
      have hwritten := h.written
      rw [stored] at hkeeps
      simp only [accepted, hd] at hkeeps hwritten
      have hclosed : Queue.Keeps s.queue.close _ _ :=
        ⟨hkeeps.pos, hkeeps.slots, hkeeps.released, hkeeps.published, hkeeps.filled,
          hkeeps.ahead, hkeeps.held⟩
      have hsame : s.accepted = s.returned ++ Offering.idle.published := by simp only [accepted, hd]
      exact h.device_moves hclosed ⟨[], (List.append_nil _).trans hsame⟩ hwritten trivial rfl
        (fun _ => rfl)
        (fun _ => trivial) fun _ => rfl
    · exact h
  | tryPop =>
    simp only [Channel.handle]
    split
    · next hidle => exact h.goes_on (h.begins (hbegin hidle)).2 nofun rfl nofun
    · exact h
  | pop =>
    simp only [Channel.handle]
    split
    · next hidle => exact h.goes_on (h.begins (hbegin hidle)).2 nofun rfl nofun
    · exact h
  | consume late => exact h.consume late

/-- **Whatever the two sides do, the channel stays sound.** -/
theorem run (h : s.Sound) (ms : List Move) : (s.run ms).Sound := by
  induction ms generalizing s with
  | nil => exact h
  | cons m ms ih => exact ih (h.handle m)

theorem of_opened (capacity : Nat) : (opened capacity).Sound := by
  refine ⟨.of_empty capacity, List.prefix_rfl, rfl, trivial, rfl, nofun, ?_, ?_⟩
  · exact fun h => h.elim
  · intro h
    cases h

end Channel.Sound

/-! ### What the steps leave alone -/

/-- How many pushes are under way. -/
def Offering.count : Offering → Nat
  | .idle => 0
  | .pushing _ _ => 1

theorem Push.ring_step (p : Push) (q : Queue) :
    (p.step q).2.capacity = q.capacity ∧ (p.step q).2.closed = q.closed := by
  cases p <;> exact ⟨rfl, rfl⟩

theorem Pop.ring_step (p : Pop) (q : Queue) :
    (p.step q).2.capacity = q.capacity ∧ (p.step q).2.closed = q.closed := by
  cases p <;> exact ⟨rfl, rfl⟩

theorem Await.ring_step (late : Bool) (a : Await) (q : Queue) :
    (a.step late q).2.capacity = q.capacity ∧ (a.step late q).2.closed = q.closed := by
  cases a with
  | looking p =>
    rw [← (Pop.ring_step p q).1, ← (Pop.ring_step p q).2, Await.step]
    split <;> next h => rw [h]; exact ⟨rfl, rfl⟩
  | lastLook p =>
    rw [← (Pop.ring_step p q).1, ← (Pop.ring_step p q).2, Await.step]
    split <;> next h => rw [h]; exact ⟨rfl, rfl⟩
  | _ => exact ⟨rfl, rfl⟩

namespace Channel

/-- A step of the device ends at most the push that is under way. -/
theorem produce_eq (s : Channel) :
    ∃ q d returned, s.produce = { s with queue := q, device := d, returned := returned } ∧
      q.capacity = s.queue.capacity ∧ q.closed = s.queue.closed ∧
      returned.length + d.count ≤ s.returned.length + s.device.count := by
  unfold produce
  rcases hd : s.device with _ | ⟨c, p⟩
  · exact ⟨_, _, _, rfl, rfl, rfl, hd ▸ Nat.le_refl _⟩
  · obtain ⟨hcapacity, hclosed⟩ := p.ring_step s.queue
    simp only
    split
    all_goals
      next hstep =>
        rw [hstep] at hcapacity hclosed
        refine ⟨_, _, _, rfl, hcapacity, hclosed, ?_⟩
        simp [Offering.count]

/-- A step of the writer leaves the device alone. -/
theorem consume_eq (late : Bool) (s : Channel) :
    ∃ q t popped, s.consume late = { s with queue := q, writer := t, popped := popped } ∧
      q.capacity = s.queue.capacity ∧ q.closed = s.queue.closed := by
  unfold consume
  split
  · exact ⟨_, _, _, rfl, rfl, rfl⟩
  · next p hw =>
    obtain ⟨hcapacity, hclosed⟩ := p.ring_step s.queue
    split
    all_goals
      next hstep =>
        rw [hstep] at hcapacity hclosed
        exact ⟨_, _, _, rfl, hcapacity, hclosed⟩
  · exact ⟨_, _, _, rfl, rfl, rfl⟩
  · next a _ hw =>
    obtain ⟨hcapacity, hclosed⟩ := a.ring_step late s.queue
    split
    all_goals
      next hstep =>
        rw [hstep] at hcapacity hclosed
        exact ⟨_, _, _, rfl, hcapacity, hclosed⟩

theorem capacity_handle (s : Channel) (m : Move) :
    (s.handle m).queue.capacity = s.queue.capacity := by
  cases m with
  | produce =>
    obtain ⟨q, d, returned, h, hcapacity, -⟩ := s.produce_eq
    rw [handle, h]
    exact hcapacity
  | consume late =>
    obtain ⟨q, t, popped, h, hcapacity, -⟩ := s.consume_eq late
    rw [handle, h]
    exact hcapacity
  | _ =>
    simp only [handle]
    split <;> rfl

theorem capacity_run (s : Channel) (ms : List Move) :
    (s.run ms).queue.capacity = s.queue.capacity := by
  induction ms generalizing s with
  | nil => rfl
  | cons m ms ih => rw [run_cons, ih, capacity_handle]

/-- Every accepted chunk was offered. -/
theorem offered_run (s : Channel) (ms : List Move) :
    (s.run ms).returned.length + (s.run ms).device.count ≤
      s.returned.length + s.device.count + ms.countP Move.isOffer := by
  induction ms generalizing s with
  | nil => exact Nat.le_refl _
  | cons m ms ih =>
    have hstep : (s.handle m).returned.length + (s.handle m).device.count ≤
        s.returned.length + s.device.count + (if m.isOffer then 1 else 0) := by
      cases m with
      | produce =>
        obtain ⟨q, d, returned, h, -, -, hle⟩ := s.produce_eq
        rw [handle, h]
        exact hle
      | consume late =>
        obtain ⟨q, t, popped, h, -⟩ := s.consume_eq late
        rw [handle, h]
        exact Nat.le_refl _
      | offer c =>
        simp only [handle]
        split
        · next hd => simp [hd, Offering.count, Move.isOffer]
        · simp [Move.isOffer]
      | _ =>
        simp only [handle]
        split <;> exact Nat.le_refl _
    have hrest := ih (s.handle m)
    rw [run_cons, List.countP_cons]
    omega

/-- **A closed queue accepts nothing more.** -/
theorem Sound.closed_handle {s : Channel} (h : s.Sound) (hclosed : s.queue.closed = true)
    (m : Move) : (s.handle m).queue.closed = true ∧ (s.handle m).returned = s.returned := by
  have hrest := h.shut hclosed
  cases m with
  | produce =>
    rw [Channel.handle, Channel.produce]
    rcases hd : s.device with _ | ⟨c, p⟩
    · exact ⟨hclosed, rfl⟩
    · rw [hd] at hrest
      cases p with
      | asked d =>
        simp only [Push.step, if_pos hclosed]
        exact ⟨hclosed, trivial⟩
      | _ => exact hrest.elim
  | consume late =>
    obtain ⟨q, t, popped, heq, -, hsame⟩ := s.consume_eq late
    rw [Channel.handle, heq]
    exact ⟨hsame.trans hclosed, rfl⟩
  | close =>
    simp only [Channel.handle]
    split
    · exact ⟨rfl, rfl⟩
    · exact ⟨hclosed, rfl⟩
  | _ =>
    simp only [Channel.handle]
    split <;> exact ⟨hclosed, rfl⟩

theorem Sound.closed_run {s : Channel} (h : s.Sound) (hclosed : s.queue.closed = true)
    (ms : List Move) : (s.run ms).queue.closed = true ∧ (s.run ms).returned = s.returned := by
  induction ms generalizing s with
  | nil => exact ⟨hclosed, rfl⟩
  | cons m ms ih =>
    obtain ⟨hstill, hsame⟩ := h.closed_handle hclosed m
    obtain ⟨hlast, hrest⟩ := ih (h.handle m) hstill
    exact ⟨hlast, hrest.trans hsame⟩

/-! ### The channel -/

namespace Sound

variable {s : Channel}

/-- Once the queue is closed, every push that was accepted has said so. -/
theorem accepted_eq (h : s.Sound) (hclosed : s.queue.closed = true) :
    s.accepted = s.returned := by
  have hrest := h.shut hclosed
  have hnone : s.device.published = [] := by
    rcases hd : s.device with _ | ⟨c, p⟩
    · rfl
    · rw [hd] at hrest
      cases p with
      | asked d => rfl
      | _ => exact hrest.elim
  rw [accepted, hnone, List.append_nil]

/-- A push that was accepted says so at once, or with its next step. -/
theorem accepted_cases (s : Channel) :
    s.accepted = s.returned ∨ s.accepted = s.produce.returned := by
  rcases hd : s.device with _ | ⟨c, p⟩
  · left
    rw [accepted, hd]
    exact List.append_nil _
  · cases p with
    | published write read =>
      right
      simp [accepted, Channel.produce, hd, Offering.published, Push.step]
    | _ =>
      left
      rw [accepted, hd]
      exact List.append_nil _

/-- **A slot that is about to be overwritten holds nothing that is still to be taken.** -/
theorem taken_of_overwritten (h : s.Sound) {i j : Nat} (hi : i ∈ s.overwritten)
    (hj : j < s.stored.length) (hsame : j % s.queue.capacity = i % s.queue.capacity) :
    j < s.drawn.length := by
  have hkeeps := h.keeps
  have hreleased := hkeeps.released
  have hahead := hkeeps.ahead
  -- Two positions that share a slot are a whole round apart.
  refine Nat.lt_of_not_le fun hge => ?_
  rw [overwritten, List.mem_append] at hi
  rcases hi with hi | hi
  · split at hi
    · next c d write read hd =>
      have hfits := h.device
      rw [hd] at hfits
      obtain ⟨-, hpos, hroom⟩ := hfits
      have hlen : s.stored.length = s.queue.writePos := by
        rw [h.written, stored, hd]
        exact congrArg List.length (List.append_nil s.accepted)
      rw [List.mem_singleton.1 hi] at hsame
      exact Queue.mod_ne_mod (by omega) (by omega) hsame
    · cases hi
  · split at hi
    · next read c hp =>
      have hfits := h.writer
      rw [Taking.Fits, hp] at hfits
      obtain ⟨hpos, hlen⟩ := hfits
      rw [List.mem_singleton.1 hi] at hsame
      exact Queue.mod_ne_mod (by omega) (by omega) hsame.symm
    · cases hi

/-- **A slot that is about to be read holds the next chunk.** -/
theorem filled_of_reading (h : s.Sound) {i : Nat} (hi : i ∈ s.reading) :
    i = s.drawn.length ∧ s.accepted[i]? = some (s.queue.slot i) := by
  unfold reading at hi
  split at hi
  · next read hp =>
    cases hi
    have hfits := h.writer
    rw [Taking.Fits, hp] at hfits
    obtain ⟨hpos, hlen, hmore⟩ := hfits
    obtain ⟨-, hchunk⟩ := h.keeps.take (by omega)
    rw [stored, List.getElem?_append_left (by rw [← h.written]; omega)] at hchunk
    rw [hpos, ← hlen]
    exact ⟨rfl, hchunk⟩
  · cases hi

/-- **Who was told that the queue is closed has got everything.** -/
theorem popped_of_told (h : s.Sound) (htold : s.writer = .waiting (.answered .closed)) :
    s.queue.closed = true ∧ s.popped = s.returned := by
  have hclosed : s.queue.closed = true := by
    apply h.seen
    rw [htold]
    exact trivial
  have hlen : s.popped.length = s.queue.readPos := (h.begins (by rw [htold]; rfl)).1
  have hfirst : s.popped <+: s.accepted := (List.prefix_append _ _).trans h.drawn
  have hall : s.popped.length = s.accepted.length := by
    rw [hlen, ← h.told htold, h.written]
  exact ⟨hclosed, (hfirst.eq_of_length hall).trans (h.accepted_eq hclosed)⟩

end Sound

/-- **The queue is a channel that delivers in order.**  However the steps of the two sides are
interleaved, the chunks that were popped are the first ones of those that were accepted, in
order and unaltered; and a push that was accepted says so, at the latest with its next step.
A chunk stays in its slot until it is taken, a slot is overwritten only when its chunk has been
taken, and read only when the chunk is there.  There are never more chunks in the queue than it
has room for.  A pop says that the queue is closed only when everything has been popped, and
nothing is accepted after that.  The positions stay small enough for words of 64 bits. -/
theorem fifo (capacity : Nat) {ms : List Move} (hpushes : ms.countP Move.isOffer < 2 ^ 64) :
    let s := (opened capacity).run ms
    s.popped <+: s.accepted ∧
      (s.accepted = s.returned ∨ s.accepted = s.produce.returned) ∧
      (∀ i c, s.drawn.length ≤ i → s.stored[i]? = some c → s.queue.slot i = c) ∧
      (∀ i ∈ s.overwritten, ∀ j < s.stored.length,
        j % s.queue.capacity = i % s.queue.capacity → j < s.drawn.length) ∧
      (∀ i ∈ s.reading, i = s.drawn.length ∧ s.accepted[i]? = some (s.queue.slot i)) ∧
      s.queue.size ≤ max 1 capacity ∧
      (s.writer = .waiting (.answered .closed) →
        s.popped = s.returned ∧ ∀ later, (s.run later).accepted = s.popped) ∧
      s.queue.readPos ≤ s.queue.writePos ∧ s.queue.writePos < 2 ^ 64 := by
  intro s
  have h : s.Sound := (Sound.of_opened capacity).run ms
  have hring := h.keeps.isRing
  refine ⟨(List.prefix_append _ _).trans h.drawn, Sound.accepted_cases s, h.keeps.held,
    fun i hi j hj => h.taken_of_overwritten hi hj, fun i hi => h.filled_of_reading hi, ?_, ?_,
    hring.le, ?_⟩
  · have hcapacity : s.queue.capacity = max 1 capacity := capacity_run _ _
    rw [← hcapacity]
    exact hring.room
  · intro htold
    obtain ⟨hclosed, hall⟩ := h.popped_of_told htold
    refine ⟨hall, fun later => ?_⟩
    obtain ⟨hstill, hsame⟩ := h.closed_run hclosed later
    rw [(h.run later).accepted_eq hstill, hsame, hall]
  · -- A position counts accepted chunks, and each of them was offered.
    have hoffered : s.returned.length + s.device.count ≤ 0 + ms.countP Move.isOffer :=
      offered_run (opened capacity) ms
    have hpublished : s.device.published.length ≤ s.device.count := by
      rcases s.device with _ | ⟨c, p⟩
      · exact Nat.le_refl 0
      · cases p <;> simp [Offering.published, Offering.count]
    have hlen : s.queue.writePos = s.returned.length + s.device.published.length := by
      rw [h.written, accepted, List.length_append]
    omega

/-- A queue with one slot.  The first chunk is popped before its push has returned; the second
one comes between a look that found nothing and the look whether the queue is closed. -/
def racingMoves : List Move :=
  let produce (n : Nat) := List.replicate n Move.produce
  let consume (n : Nat) := List.replicate n (Move.consume false)
  [.offer ⟨7, 1, [1, 2]⟩] ++ produce 5 ++ [.pop] ++ consume 6 ++ [.pop, .consume false] ++
    produce 1 ++ consume 1 ++ [.offer ⟨9, 1, [3, 4]⟩] ++ produce 6 ++ [.close] ++ consume 7 ++
    [.pop] ++ consume 5

/-- Both chunks arrive, and the second pop after them says that the queue is closed. -/
theorem fifo_of_racingMoves :
    racingMoves.countP Move.isOffer < 2 ^ 64 ∧
      ((opened 1).run (racingMoves.take 13)).popped = [⟨7, 1, [1, 2]⟩] ∧
      ((opened 1).run (racingMoves.take 13)).returned = [] ∧
      ((opened 1).run racingMoves).writer = .waiting (.answered .closed) ∧
      ((opened 1).run racingMoves).popped = [⟨7, 1, [1, 2]⟩, ⟨9, 1, [3, 4]⟩] ∧
      ((opened 1).run racingMoves).popped = ((opened 1).run racingMoves).returned ∧
      ((opened 1).run racingMoves).queue.size ≤ 1 := by
  have hpushes : racingMoves.countP Move.isOffer < 2 ^ 64 := by decide +kernel
  have htold : ((opened 1).run racingMoves).writer = .waiting (.answered .closed) := by
    decide +kernel
  obtain ⟨-, -, -, -, -, hsize, hclosed, -⟩ := fifo 1 hpushes
  exact ⟨hpushes, by decide +kernel, by decide +kernel, htold, by decide +kernel,
    (hclosed htold).1, hsize⟩

end Channel

end IqTape
