import IqTape.Proofs.Capture.Conservation

/-!
# Requests to stop a recording

A request stores a flag, which the loop of the writer looks at before it waits for a chunk.  A
request to a session that has been set up therefore finds the writer waiting for at most one
more chunk, and the writer has at most four more steps to make.  But setting a session up clears
the flag.  Whatever was asked before that, between two sessions or while the tape is being
opened, is forgotten.

## Main definitions

* `RecordingPhase.inHand` — how many chunks a session that is to stop can still take.
* `RecordingPhase.remaining` — how many steps are left to it.
* `Recording.unhindered` — the steps that do something.
* `Recording.Forgets`, `Recording.Unheard` — two sessions of which one was asked to stop, in vain.

## Main results

* `Recording.nearer_handle`, `Recording.run_of_stopping` — an event, and a run, bring a session
  that is to stop nearer to its end.
* `Recording.isOver_of_closed` — once the device has ended nothing holds it up.
* `Recording.Forgets.handle`, `Recording.Forgets.run` — a request before the session is set up
  makes no difference.
* `Recording.request_by_stage` — **when a request is heard, and what is left to do then.**
-/

namespace IqTape

namespace RecordingPhase

/-- How many steps are left to a session that is to stop. -/
def remaining : RecordingPhase → Nat
  | opening _ => 6
  | starting => 5
  | waiting _ => 4
  | checking => 3
  | flushing => 2
  | joining => 1
  | .over _ => 0

/-- How many chunks a session that is to stop can still take: the one it is waiting for. -/
def inHand : RecordingPhase → Nat
  | waiting _ => 1
  | _ => 0

theorem inHand_le (phase : RecordingPhase) : phase.inHand ≤ 1 := by
  cases phase <;> simp [inHand]

end RecordingPhase

namespace Recording

variable {r asked : Recording}

/-! ### After a request -/

theorem remaining_le (hr : r.IsSetUp) : r.phase.remaining ≤ 4 := by
  cases hp : r.phase with
  | opening file => exact absurd (by rw [stage, hp]) hr.1
  | starting => exact absurd (by rw [stage, hp]) hr.2
  | _ => simp [RecordingPhase.remaining]

/-- Only a session that is over has no step left. -/
theorem isOver_of_remaining (h : r.phase.remaining = 0) : r.isOver = true := by
  unfold isOver
  cases hp : r.phase <;> simp [hp, RecordingPhase.remaining] at h ⊢

/-- The step of the writer, if it does something. -/
def unhindered (r : Recording) : Event → List Moment
  | .step now => if r.isBlocked now.steady then [] else [now]
  | _ => []

/-- All the steps of the writer that do something. -/
def allUnhindered (r : Recording) (es : List Event) : List Moment := r.gather unhindered es

theorem length_unhindered_le (r : Recording) (e : Event) : (r.unhindered e).length ≤ 1 := by
  unfold unhindered
  split
  · split <;> simp
  · simp

/-- A session that is to stop does not wait for another chunk. -/
theorem check_of_stopping (now : Int) (h : r.stopping = true) :
    (r.check now).1 = { r with phase := .flushing } := by
  unfold check
  by_cases hlimit : r.limitReached now
  · rw [if_pos hlimit]
  · rw [if_neg hlimit, if_pos h]

/-- A queue that is closed, or not empty, is not waited for. -/
theorem poll_of_busy {q : Queue} (h : ¬(q.isEmpty && !q.closed) = true) :
    (∃ c, q.poll.1 = some (.chunk c)) ∨ q.poll.1 = some .closed := by
  by_cases hpos : q.writePos = q.readPos
  · have hempty : q.isEmpty = true := by simp [Queue.isEmpty, Queue.size, hpos]
    have hclosed : q.closed = true := by simpa [hempty] using h
    right
    simp [Queue.poll, Queue.tryPop_eq, hpos, hclosed]
  · left
    exact ⟨q.slot q.readPos, by simp [Queue.poll, Queue.tryPop_eq, hpos]⟩

/-- Taking a chunk in changes neither the phase nor the flag. -/
theorem accept_keeps (now : Int) (c : Chunk) (r : Recording) :
    (r.accept now c).1.phase = r.phase ∧ (r.accept now c).1.stopping = r.stopping := by
  by_cases hw : c.isWhole r.sampleSize = true
  · obtain ⟨_, h⟩ := accept_of_isWhole now hw
    rw [h]
    exact ⟨rfl, rfl⟩
  · rw [accept_of_not_isWhole now hw]
    exact ⟨rfl, rfl⟩

/-- What an event does to a session that is to stop. -/
structure Nearer (r : Recording) (e : Event) : Prop where
  stopping : (r.handle e).stopping = true
  /-- A chunk that is taken is one that the writer was waiting for. -/
  inHand : (r.taken e).toList.length + (r.handle e).phase.inHand ≤ r.phase.inHand
  /-- A step that does something is one that was left. -/
  remaining : (r.handle e).phase.remaining + (r.unhindered e).length ≤ r.phase.remaining

/-- An event that takes no chunk and is no step that does something. -/
theorem nearer_of_phase_eq {e : Event} (hs : (r.handle e).stopping = true)
    (hp : (r.handle e).phase = r.phase) (htaken : r.taken e = none)
    (hstep : r.unhindered e = []) : r.Nearer e := by
  refine ⟨hs, ?_, ?_⟩
  · simp [htaken, hp]
  · simp [hstep, hp]

/-- A step to a later phase that takes no chunk. -/
theorem nearer_of_remaining_lt {now : Moment} (hs : (r.handle (.step now)).stopping = true)
    (htaken : (r.taken (.step now)).toList.length ≤ r.phase.inHand)
    (hp : (r.handle (.step now)).phase.inHand = 0)
    (hlt : (r.handle (.step now)).phase.remaining < r.phase.remaining) : r.Nearer (.step now) := by
  have hone := r.length_unhindered_le (.step now)
  refine ⟨hs, ?_, ?_⟩
  · omega
  · omega

/-- **A look** takes a chunk, finds the end, or goes on waiting while there is nothing else to
do. -/
theorem nearer_of_waiting {deadline : Int} (hs : r.stopping = true)
    (hp : r.phase = .waiting deadline) (now : Moment) : r.Nearer (.step now) := by
  have hstep : r.handle (.step now) = (r.look now.steady deadline).1 := by
    simp only [handle, step, hp]
  have htaken : (r.taken (.step now)).toList.length ≤ r.phase.inHand := by
    rw [hp]
    exact Option.length_toList_le
  -- It is left to see what the writer does next, and that a chunk is not waited for again.
  have hgo : ∀ later : Recording, (r.look now.steady deadline).1 = later → later.stopping = true →
      later.phase.inHand = 0 → later.phase.remaining < 4 → r.Nearer (.step now) := by
    intro later hlook hflag hhand hless
    rw [← hlook, ← hstep] at hflag hhand hless
    refine nearer_of_remaining_lt hflag htaken hhand ?_
    rw [hp]
    exact hless
  -- If nothing is found then the writer waits on, unless its time is up.
  have hnothing : ∀ found q, r.queue.poll = (found, q) → PopResult.chunk? found = none →
      found ≠ some .closed → (r.look now.steady deadline).1 = { r with
        queue := q
        phase := if deadline ≤ now.steady then .checking else .waiting deadline } →
      r.Nearer (.step now) := by
    intro found q hpoll hnone hopen hlook
    by_cases hd : deadline ≤ now.steady
    · rw [if_pos hd] at hlook
      exact hgo _ hlook hs rfl (by simp [RecordingPhase.remaining])
    · rw [if_neg hd, ← hp] at hlook
      have hidle : (r.queue.isEmpty && !r.queue.closed) = true := by
        apply Decidable.byContradiction
        intro hbusy
        rcases poll_of_busy hbusy with ⟨c, hgot⟩ | hend
        · rw [hpoll] at hgot
          rw [show found = some (.chunk c) from hgot] at hnone
          cases hnone
        · rw [hpoll] at hend
          exact hopen hend
      have hblocked : r.isBlocked now.steady = true := by
        simp only [isBlocked, hp, hidle, Bool.true_and, decide_eq_true_eq]
        omega
      apply nearer_of_phase_eq
      · rw [hstep, hlook]
        exact hs
      · rw [hstep, hlook]
      · rw [taken, hp]
        simp only
        rw [hpoll]
        exact hnone
      · exact if_pos hblocked
  rcases hpoll : r.queue.poll with ⟨_ | (c | _ | _), q⟩
  · exact hnothing none q hpoll rfl (by rintro ⟨⟩) (by rw [look, hpoll])
  · obtain ⟨hphase, hflag⟩ := accept_keeps now.steady c { r with queue := q, phase := .checking }
    refine hgo _ (by rw [look, hpoll]) (hflag.trans hs) ?_ ?_
    · rw [hphase]
      rfl
    · rw [hphase]
      simp [RecordingPhase.remaining]
  · exact hnothing (some .timeout) q hpoll rfl (by rintro ⟨⟩) (by rw [look, hpoll])
  · have hlook : (r.look now.steady deadline).1 = { r with queue := q, phase := .flushing } := by
      rw [look, hpoll]
    exact hgo _ hlook hs rfl (by simp [RecordingPhase.remaining])

/-- **Every event** brings a session that is to stop nearer to its end, or is none of the
writer's steps, or finds the writer with nothing to do. -/
theorem nearer_handle (hr : r.IsSetUp) (hs : r.stopping = true) (e : Event) : r.Nearer e := by
  cases e with
  | offer c => exact nearer_of_phase_eq hs rfl rfl rfl
  | requestStop => exact nearer_of_phase_eq rfl rfl rfl rfl
  | deviceDone ok =>
    cases ok with
    | true => exact nearer_of_phase_eq hs rfl rfl rfl
    | false => exact nearer_of_phase_eq hs rfl rfl rfl
  | step now =>
    cases hp : r.phase with
    | opening file => exact absurd (by rw [stage, hp]) hr.1
    | starting => exact absurd (by rw [stage, hp]) hr.2
    | waiting deadline => exact nearer_of_waiting hs hp now
    | checking =>
      have hlater : r.handle (.step now) = { r with phase := .flushing } := by
        simp only [handle, step, hp]
        exact check_of_stopping now.steady hs
      have htaken : r.taken (.step now) = none := by simp only [taken, hp]
      refine nearer_of_remaining_lt ?_ ?_ ?_ ?_
      · rw [hlater]
        exact hs
      · rw [htaken]
        exact Nat.zero_le _
      · rw [hlater]
        rfl
      · rw [hlater, hp]
        simp [RecordingPhase.remaining]
    | flushing =>
      obtain ⟨cutter, -, hflush⟩ := flush_eq r
      have hlater : r.handle (.step now) = r.flush.1 := by simp only [handle, step, hp]
      have htaken : r.taken (.step now) = none := by simp only [taken, hp]
      rw [hflush] at hlater
      refine nearer_of_remaining_lt ?_ ?_ ?_ ?_
      · rw [hlater]
      · rw [htaken]
        exact Nat.zero_le _
      · rw [hlater]
        rfl
      · rw [hlater, hp]
        simp [RecordingPhase.remaining]
    | joining =>
      have htaken : r.taken (.step now) = none := by simp only [taken, hp]
      by_cases hclosed : r.queue.closed = true
      · obtain ⟨ok, hfinish⟩ := finish_eq now.second r
        have hlater : r.handle (.step now) = (r.finish now.second).1 := by
          simp only [handle, step, hp, if_pos hclosed]
        rw [hfinish] at hlater
        refine nearer_of_remaining_lt ?_ ?_ ?_ ?_
        · rw [hlater]
          exact hs
        · rw [htaken]
          exact Nat.zero_le _
        · rw [hlater]
          rfl
        · rw [hlater, hp]
          simp [RecordingPhase.remaining]
      · -- The device goes on until it sees the flag.
        have hlater : r.handle (.step now) = r := by
          simp only [handle, step, hp, if_neg hclosed]
        have hblocked : r.isBlocked now.steady = true := by
          simpa [isBlocked, hp] using hclosed
        exact nearer_of_phase_eq (by rw [hlater]; exact hs) (by rw [hlater]) htaken
          (if_pos hblocked)
    | «over» ok =>
      have hlater : r.handle (.step now) = r := by simp only [handle, step, hp]
      have htaken : r.taken (.step now) = none := by simp only [taken, hp]
      have hblocked : r.isBlocked now.steady = true := by simp only [isBlocked, hp]
      exact nearer_of_phase_eq (by rw [hlater]; exact hs) (by rw [hlater]) htaken
        (if_pos hblocked)

/-- **So does every run.** -/
theorem run_of_stopping (hr : r.IsSetUp) (hs : r.stopping = true) (es : List Event) :
    (r.run es).stopping = true ∧
      (r.allTaken es).length + (r.run es).phase.inHand ≤ r.phase.inHand ∧
      (r.run es).phase.remaining + (r.allUnhindered es).length ≤ r.phase.remaining := by
  induction es generalizing r with
  | nil => exact ⟨hs, by simp [allTaken, gather, run], by simp [allUnhindered, gather, run]⟩
  | cons e es ih =>
    obtain ⟨hflag, hhand, hsteps⟩ := nearer_handle hr hs e
    obtain ⟨hlast, hhands, hmore⟩ := ih (hr.handle e) hflag
    refine ⟨hlast, ?_, ?_⟩
    · simp only [allTaken, gather, run, List.length_append] at hhands ⊢
      omega
    · simp only [allUnhindered, gather, run, List.length_append] at hmore ⊢
      omega

/-- A step does not open the queue again. -/
theorem closed_step (hr : r.IsSetUp) (now : Moment) (hclosed : r.queue.closed = true) :
    (r.handle (.step now)).queue.closed = true := by
  have hpoll : r.queue.poll.2.closed = r.queue.closed := by
    by_cases hpos : r.queue.writePos = r.queue.readPos
    · simp [Queue.poll, Queue.tryPop_eq, hpos, hclosed]
    · simp [Queue.poll, Queue.tryPop_eq, hpos, Queue.removed, Queue.fill]
  rcases queue_step hr now with hqueue | hqueue
  · rw [handle, hqueue]
    exact hclosed
  · rw [handle, hqueue, hpoll]
    exact hclosed

/-- **Once the device has ended nothing holds the writer up**, so it makes the steps that are
left to it. -/
theorem isOver_of_closed (hr : r.IsSetUp) (hs : r.stopping = true)
    (hclosed : r.queue.closed = true) (moments : List Moment)
    (hleft : r.phase.remaining ≤ moments.length) :
    (r.run (moments.map .step)).isOver = true := by
  induction moments generalizing r with
  | nil => exact isOver_of_remaining (Nat.le_zero.1 hleft)
  | cons now moments ih =>
    obtain ⟨hflag, -, hsteps⟩ := nearer_handle hr hs (.step now)
    refine ih (hr.handle (.step now)) hflag (closed_step hr now hclosed) ?_
    rw [List.length_cons] at hleft
    by_cases hblocked : r.isBlocked now.steady = true
    · -- Only a session that is over is held up now.
      have hnone : r.phase.remaining = 0 := by
        cases hp : r.phase <;> simp [isBlocked, hp, hclosed, RecordingPhase.remaining] at hblocked ⊢
      omega
    · have hone : (r.unhindered (.step now)).length = 1 := by simp [unhindered, hblocked]
      omega

/-- A session that is asked to stop and loses its device is over four steps later. -/
theorem over_of_requestStop (hr : r.IsSetUp) (moments : List Moment)
    (hmany : 4 ≤ moments.length) :
    (r.run (.requestStop :: .deviceDone true :: moments.map .step)).isOver = true := by
  have hasked : r.requestStop.IsSetUp := hr
  have hended := hasked.handle (.deviceDone true)
  have hleft := Nat.le_trans (remaining_le hended) hmany
  exact isOver_of_closed hended rfl rfl moments hleft

/-! ### Before the session is set up -/

/-- Of two sessions one was asked to stop, but nothing is left of it, or nothing will be. -/
def Forgets (asked r : Recording) : Prop :=
  asked = r ∨ asked = r.requestStop ∧ r.stage ≠ .looping ∧ r.stage ≠ .joining

/-- The tape is opened whether or not there was a request. -/
theorem openTape_requestStop (second : UInt64) (file : Option Sink) (r : Recording) :
    (r.requestStop.openTape second file).1 = (r.openTape second file).1.requestStop := by
  simp only [openTape, requestStop, header]
  split <;> rfl

/-- **No event tells the two sessions apart.** -/
theorem Forgets.handle (h : Forgets asked r) (e : Event) :
    Forgets (asked.handle e) (r.handle e) ∧ asked.taken e = r.taken e := by
  rcases h with rfl | ⟨rfl, hlooping, hjoining⟩
  · exact ⟨.inl rfl, rfl⟩
  · cases e with
    | offer c => exact ⟨.inr ⟨rfl, hlooping, hjoining⟩, rfl⟩
    | requestStop => exact ⟨.inl rfl, rfl⟩
    | deviceDone ok =>
      cases ok with
      | true => exact ⟨.inr ⟨rfl, hlooping, hjoining⟩, rfl⟩
      | false => exact ⟨.inr ⟨rfl, hlooping, hjoining⟩, rfl⟩
    | step now =>
      have hasked : r.requestStop.phase = r.phase := rfl
      cases hp : r.phase with
      | opening file =>
        obtain ⟨_, _, hopen, hphase⟩ := openTape_eq now.second file r
        have hlater : r.handle (.step now) = (r.openTape now.second file).1 := by
          simp only [Recording.handle, step, hp]
        have hlater' : r.requestStop.handle (.step now) = (r.handle (.step now)).requestStop := by
          rw [hlater, ← openTape_requestStop]
          simp only [Recording.handle, step, hasked, hp]
        refine ⟨.inr ⟨hlater', ?_⟩, by simp only [taken, hasked, hp]⟩
        rw [hlater, hopen]
        rcases hphase with rfl | rfl
        · exact ⟨by rintro ⟨⟩, by rintro ⟨⟩⟩
        · exact ⟨by rintro ⟨⟩, by rintro ⟨⟩⟩
      | starting =>
        -- Setting the session up clears the flag.
        refine ⟨.inl ?_, by simp only [taken, hasked, hp]⟩
        simp only [Recording.handle, step, hasked, hp]
        rfl
      | waiting deadline => exact absurd (by rw [stage, hp]) hlooping
      | checking => exact absurd (by rw [stage, hp]) hlooping
      | flushing => exact absurd (by rw [stage, hp]) hlooping
      | joining => exact absurd (by rw [stage, hp]) hjoining
      | «over» ok =>
        have hlater : r.handle (.step now) = r := by simp only [Recording.handle, step, hp]
        have hlater' : r.requestStop.handle (.step now) = r.requestStop := by
          simp only [Recording.handle, step, hasked, hp]
        rw [hlater, hlater']
        exact ⟨.inr ⟨rfl, hlooping, hjoining⟩, by simp only [taken, hasked, hp]⟩

/-- **So no run does.** -/
theorem Forgets.run (h : Forgets asked r) (es : List Event) :
    Forgets (asked.run es) (r.run es) ∧ asked.allTaken es = r.allTaken es := by
  induction es generalizing asked r with
  | nil => exact ⟨h, rfl⟩
  | cons e es ih =>
    obtain ⟨hnext, htaken⟩ := h.handle e
    obtain ⟨hlast, hrest⟩ := ih hnext
    refine ⟨hlast, ?_⟩
    simp only [allTaken, gather, htaken] at hrest ⊢
    rw [hrest]

/-- A request that is forgotten: whatever happens the same chunks are taken, and while the loop
runs, and behind it, the session is as if nobody had asked. -/
def Unheard (asked r : Recording) (es : List Event) : Prop :=
  asked.allTaken es = r.allTaken es ∧
    ((r.run es).stage = .looping ∨ (r.run es).stage = .joining → asked.run es = r.run es)

theorem Forgets.unheard (h : Forgets asked r) (es : List Event) : Unheard asked r es := by
  obtain ⟨hlast, htaken⟩ := h.run es
  refine ⟨htaken, ?_⟩
  intro hstage
  rcases hlast with heq | ⟨-, hlooping, hjoining⟩
  · exact heq
  · rcases hstage with hstage | hstage
    · exact absurd hstage hlooping
    · exact absurd hstage hjoining

/-- **When a request to stop is heard.**  In a session that has been set up it is, at whatever
step it comes and whatever happens then: at most one more chunk is taken out of the queue, the
writer has at most four more steps that do anything, and nothing but the device can hold it up,
so four steps after the device has ended the session is over.  A request that comes before the
session is set up, while its tape is opened or before it has begun at all, is forgotten when the
session is set up. -/
theorem request_by_stage (r : Recording) (es : List Event) :
    (r.IsSetUp →
      let asked := r.requestStop
      (asked.allTaken es).length ≤ 1 ∧ (asked.run es).stopping = true ∧
        (asked.allUnhindered es).length ≤ 4 ∧
        ((asked.run es).queue.closed = true → ∀ moments : List Moment, 4 ≤ moments.length →
          ((asked.run es).run (moments.map .step)).isOver = true)) ∧
      (¬r.IsSetUp → Unheard r.requestStop r es) ∧
      ∀ device file, Unheard (r.requestStop.begin device file) (r.begin device file) es := by
  refine ⟨?_, ?_, ?_⟩
  · intro hr asked
    obtain ⟨hflag, hhand, hsteps⟩ := run_of_stopping (r := asked) hr rfl es
    have hone := asked.phase.inHand_le
    have hfour : asked.phase.remaining ≤ 4 := remaining_le (r := asked) hr
    refine ⟨by omega, hflag, by omega, ?_⟩
    intro hclosed moments hmany
    have hasked : asked.IsSetUp := hr
    exact isOver_of_closed (hasked.run es) hflag hclosed moments (by omega)
  · intro hr
    apply Forgets.unheard
    refine .inr ⟨rfl, ?_, ?_⟩
    · intro hlooping
      exact hr ⟨by rw [hlooping]; nofun, by rw [hlooping]; nofun⟩
    · intro hjoining
      exact hr ⟨by rw [hjoining]; nofun, by rw [hjoining]; nofun⟩
  · intro device file
    apply Forgets.unheard
    exact .inr ⟨rfl, nofun, nofun⟩

/-- A session with a new file, before its tape is opened. -/
def earlySession : Recording := (idle RecorderConfig.initial 0).begin default (some .empty)

/-- The session is set up, two chunks are offered, and the writer makes four steps. -/
def earlyEvents : List Event :=
  [.step ⟨0, 0⟩, .step ⟨1, 0⟩, .offer ⟨7, 1, [1, 2, 3, 4]⟩, .offer ⟨8, 1, [5, 6, 7, 8]⟩,
    .step ⟨2, 0⟩, .step ⟨3, 0⟩, .step ⟨4, 0⟩, .step ⟨5, 0⟩]

/-- A request that comes before the tape is opened does not keep the writer from recording both
chunks, and the session goes on. -/
theorem chunks_behind_early_request :
    let asked := earlySession.requestStop
    asked.stopping = true ∧ ¬(asked.allAccepted earlyEvents).length ≤ 1 ∧
      (asked.run earlyEvents).stopping = false ∧ (asked.run earlyEvents).hasLeftLoop = false := by
  decide +kernel

end Recording

end IqTape
