import IqTape.Capture.Recording

/-!
# Sessions as runs of events

The writer of a recording makes steps, and chunks that are offered, the end of the device
and requests to stop come in between them in any order.  A run is a list of such events.
The writer passes through five stages, and its loop sees of an event only which chunk it
takes in and which blocks it hands to the tape.

## Main definitions

* `Recording.Event`, `Recording.handle`, `Recording.run` — runs of events.
* `Recording.accepted`, `Recording.handed` — what the loop takes in and hands on.
* `Recording.gather` — what a whole run shows.
* `Recording.Deed` — what an event can do, as the loop sees it.

## Main results

* `Recording.config_run` — no event changes the settings.
* `Recording.deed_handle` — an event does nothing but what `Recording.Deed` says.
-/

namespace IqTape

/-- The writer after some blocks have been appended, whether or not it could take them. -/
def Writer.appendAll (w : Writer) (bs : List Block) : Writer :=
  bs.foldl (fun w b => (w.append b).1) w

theorem Writer.appendAll_append (w : Writer) (as bs : List Block) :
    w.appendAll (as ++ bs) = (w.appendAll as).appendAll bs :=
  List.foldl_append

/-- The counters of a recording after its writer has been given a block. -/
def Writer.tally (w : Writer) (b : Block) (c : CaptureCounters) : CaptureCounters :=
  match w.append b with
  | (_, some _) => c.addWriteError
  | (next, none) => c.addBlock.addBytes (next.bytes - w.bytes)

/-- The counters of a recording after its writer has been given some blocks. -/
def Writer.tallyAll (w : Writer) : List Block → CaptureCounters → CaptureCounters
  | [], c => c
  | b :: bs, c => (w.append b).1.tallyAll bs (w.tally b c)

/-- The chunk that a look at the queue has given. -/
def PopResult.chunk? : Option PopResult → Option Chunk
  | some (.chunk c) => some c
  | _ => none

namespace Recording

/-! ### Runs -/

/-- Something that happens in a session. -/
inductive Event
  /-- The writer makes a step. -/
  | step (now : Moment)
  /-- The device offers a chunk. -/
  | offer (c : Chunk)
  /-- The device ends, well or not. -/
  | deviceDone (ok : Bool)
  /-- The session is asked to stop. -/
  | requestStop
  deriving DecidableEq, Repr

/-- The state after an event. -/
def handle (r : Recording) : Event → Recording
  | .step now => (r.step now).1
  | .offer c => (r.offer c).2
  | .deviceDone ok => (r.deviceDone ok).1
  | .requestStop => r.requestStop

/-- The state after some events. -/
def run (r : Recording) : List Event → Recording
  | [] => r
  | e :: es => (r.handle e).run es

/-- What some events show, one after the other. -/
def gather {α : Type} (f : Recording → Event → List α) (r : Recording) : List Event → List α
  | [] => []
  | e :: es => f r e ++ gather f (r.handle e) es

theorem run_append (r : Recording) (as bs : List Event) :
    r.run (as ++ bs) = (r.run as).run bs := by
  induction as generalizing r with
  | nil => rfl
  | cons a as ih => exact ih (r.handle a)

theorem gather_append {α : Type} (f : Recording → Event → List α) (r : Recording)
    (as bs : List Event) : r.gather f (as ++ bs) = r.gather f as ++ (r.run as).gather f bs := by
  induction as generalizing r with
  | nil => rfl
  | cons a as ih => rw [List.cons_append, gather, gather, ih, List.append_assoc, run]

/-- The chunk that the writer takes out of the queue. -/
def taken (r : Recording) : Event → Option Chunk
  | .step _ =>
    match r.phase with
    | .waiting _ => PopResult.chunk? r.queue.poll.1
    | _ => none
  | _ => none

/-- The chunk that the writer takes in; one of the wrong size is discarded. -/
def accepted (r : Recording) (e : Event) : Option Chunk :=
  (r.taken e).filter (·.isWhole r.sampleSize)

/-- The blocks that the writer hands to the tape. -/
def handed (r : Recording) : Event → List Block
  | .step now =>
    match r.accepted (.step now), r.phase with
    | some c, _ => ((r.cutter.add c).cut r.sampleSize r.config.blockSamples).1
    | none, .flushing => r.cutter.tail.toList
    | none, _ => []
  | _ => []

/-- All the chunks that are taken in. -/
def allAccepted (r : Recording) (es : List Event) : List Chunk :=
  r.gather (fun r e => (r.accepted e).toList) es

/-- All the blocks that are handed to the tape. -/
def allHanded (r : Recording) (es : List Event) : List Block := r.gather handed es

/-! ### Stages -/

/-- How far a session is, as the loop of the writer sees it. -/
inductive Stage
  /-- The tape is not open. -/
  | opening
  /-- The session is to be set up. -/
  | ready
  /-- The loop is running, or has been left with a last block still to be written. -/
  | looping
  /-- The last block is written. -/
  | joining
  /-- The session is over. -/
  | ended
  deriving DecidableEq, Repr

/-- The stage of a session. -/
def stage (r : Recording) : Stage :=
  match r.phase with
  | .opening _ => .opening
  | .starting => .ready
  | .checking => .looping
  | .waiting _ => .looping
  | .flushing => .looping
  | .joining => .joining
  | .over _ => .ended

theorem isOver_iff (r : Recording) : r.isOver = true ↔ r.stage = .ended := by
  unfold isOver stage
  cases r.phase <;> simp

theorem hasLeftLoop_iff (r : Recording) :
    r.hasLeftLoop = true ↔ r.stage = .joining ∨ r.stage = .ended := by
  unfold hasLeftLoop stage
  cases r.phase <;> simp

/-! ### What the parts of a step do -/

theorem write_eq (r : Recording) (b : Block) :
    (r.write b).1 =
      { r with writer := (r.writer.append b).1, counters := r.writer.tally b r.counters } := by
  unfold write
  split
  · next h => rw [Writer.tally, h]
  · next h => rw [Writer.tally, h]

/-- Appending goes block by block; what has been said before makes no difference. -/
theorem writeAll_cons (r : Recording) (b : Block) (bs : List Block) :
    (r.writeAll (b :: bs)).1 = ((r.write b).1.writeAll bs).1 := by
  -- The notices are an accumulator that the state never looks at.
  have hsaid : ∀ (bs : List Block) (r : Recording) (said said' : List RecorderNotice),
      (bs.foldl (fun (r, said) b => ((write r b).1, said ++ (write r b).2)) (r, said)).1 =
        (bs.foldl (fun (r, said) b => ((write r b).1, said ++ (write r b).2)) (r, said')).1 := by
    intro bs
    induction bs with
    | nil => intro r said said'; rfl
    | cons b bs ih => intro r said said'; exact ih _ _ _
  exact hsaid bs _ _ _

theorem writeAll_eq (r : Recording) (bs : List Block) :
    (r.writeAll bs).1 =
      { r with
        writer := r.writer.appendAll bs
        counters := r.writer.tallyAll bs r.counters } := by
  induction bs generalizing r with
  | nil => rfl
  | cons b bs ih =>
    rw [writeAll_cons, ih, write_eq]
    rfl

theorem report_eq (now : Int) (r : Recording) :
    ∃ reportedAt, (r.report now).1 = { r with reportedAt := reportedAt } := by
  unfold report
  split
  · exact ⟨now, rfl⟩
  · exact ⟨r.reportedAt, rfl⟩

/-- A chunk of the wrong size changes nothing. -/
theorem accept_of_not_isWhole {c : Chunk} {r : Recording} (now : Int)
    (h : ¬c.isWhole r.sampleSize = true) : (r.accept now c).1 = r := by
  rw [Bool.not_eq_true] at h
  rw [accept, h]
  rfl

/-- A chunk of the right size goes through the cutter onto the tape. -/
theorem accept_of_isWhole {c : Chunk} {r : Recording} (now : Int)
    (h : c.isWhole r.sampleSize = true) :
    ∃ reportedAt, (r.accept now c).1 =
      { r with
        cutter := ((r.cutter.add c).cut r.sampleSize r.config.blockSamples).2
        writer := r.writer.appendAll ((r.cutter.add c).cut r.sampleSize r.config.blockSamples).1
        counters := r.writer.tallyAll ((r.cutter.add c).cut r.sampleSize r.config.blockSamples).1
          (r.counters.addSamples c.count.toUInt64)
        reportedAt := reportedAt } := by
  have hresult : (r.accept now c).1 = ((writeAll
      ((r.cutter.add c).cut r.sampleSize r.config.blockSamples).1
      { r with
        cutter := ((r.cutter.add c).cut r.sampleSize r.config.blockSamples).2
        counters := r.counters.addSamples c.count.toUInt64 }).1.report now).1 := by
    rw [accept, h]
    rfl
  obtain ⟨reportedAt, hreported⟩ := report_eq now _
  rw [writeAll_eq] at hresult
  rw [hresult, hreported]
  exact ⟨_, rfl⟩

/-- The last block is appended, if there is one. -/
theorem flush_eq (r : Recording) :
    ∃ cutter, cutter.samples = 0 ∧ r.flush.1 =
      { r with
        writer := r.writer.appendAll r.cutter.tail.toList
        cutter := cutter
        counters := r.writer.tallyAll r.cutter.tail.toList r.counters
        stopping := true
        phase := .joining } := by
  by_cases hzero : r.cutter.samples = 0
  · have h : r.cutter.tail = none := if_pos hzero
    refine ⟨r.cutter, hzero, ?_⟩
    rw [flush, h]
    rfl
  · have h : r.cutter.tail = some ⟨r.cutter.date.getD 0, r.cutter.samples, r.cutter.held, false⟩ :=
      if_neg hzero
    refine ⟨.empty, rfl, ?_⟩
    rw [flush, h]
    simp only [write_eq]
    rfl

theorem openTape_eq (second : UInt64) (file : Option Sink) (r : Recording) :
    ∃ writer phase, (r.openTape second file).1 = { r with writer := writer, phase := phase } ∧
      (phase = .starting ∨ phase = .over false) := by
  unfold openTape
  simp only
  split
  · exact ⟨_, _, rfl, .inl rfl⟩
  · exact ⟨_, _, rfl, .inr rfl⟩

theorem check_eq (now : Int) (r : Recording) :
    ∃ phase, (r.check now).1 = { r with phase := phase } ∧
      (phase = .flushing ∨ phase = .waiting (now + patience)) := by
  unfold check
  split
  · exact ⟨_, rfl, .inl rfl⟩
  · split
    · exact ⟨_, rfl, .inl rfl⟩
    · exact ⟨_, rfl, .inr rfl⟩

theorem finish_eq (second : UInt64) (r : Recording) :
    ∃ ok, (r.finish second).1 =
      { r with
        writer := (r.writer.finish second).1.close
        highWater := r.queue.highWater
        phase := .over ok } := by
  unfold finish
  simp only
  split
  · next h => exact ⟨false, by rw [h]⟩
  · next h => exact ⟨true, by rw [h]⟩

/-- **A look at the queue** gives a chunk that is taken in, or leaves the cutter and the
tape alone. -/
theorem look_cases (now deadline : Int) (r : Recording) :
    (∃ c reportedAt, PopResult.chunk? r.queue.poll.1 = some c ∧
      c.isWhole r.sampleSize = true ∧
      (r.look now deadline).1 =
        { r with
          phase := .checking
          queue := r.queue.poll.2
          cutter := ((r.cutter.add c).cut r.sampleSize r.config.blockSamples).2
          writer :=
            r.writer.appendAll ((r.cutter.add c).cut r.sampleSize r.config.blockSamples).1
          counters :=
            r.writer.tallyAll ((r.cutter.add c).cut r.sampleSize r.config.blockSamples).1
              (r.counters.addSamples c.count.toUInt64)
          reportedAt := reportedAt }) ∨
      ∃ phase,
        (PopResult.chunk? r.queue.poll.1).filter (·.isWhole r.sampleSize) = none ∧
        (r.look now deadline).1 = { r with phase := phase, queue := r.queue.poll.2 } ∧
        (phase = .flushing ∨ phase = .checking ∨ phase = .waiting deadline) := by
  have hagain : (if deadline ≤ now then RecordingPhase.checking else .waiting deadline) =
      .checking ∨ (if deadline ≤ now then RecordingPhase.checking else .waiting deadline) =
      .waiting deadline := by
    by_cases hd : deadline ≤ now
    · exact .inl (if_pos hd)
    · exact .inr (if_neg hd)
  cases hpoll : r.queue.poll with
  | mk found q =>
    rw [look, hpoll]
    match found with
    | some (.chunk c) =>
      by_cases hw : c.isWhole r.sampleSize = true
      · obtain ⟨reportedAt, h⟩ :=
          accept_of_isWhole (r := { r with queue := q, phase := .checking }) now hw
        exact .inl ⟨c, reportedAt, rfl, hw, h⟩
      · have h := accept_of_not_isWhole (r := { r with queue := q, phase := .checking }) now hw
        refine .inr ⟨.checking, ?_, h, .inr (.inl rfl)⟩
        exact Option.filter_some_neg (Bool.eq_false_iff.2 hw)
    | some .closed => exact .inr ⟨.flushing, rfl, rfl, .inl rfl⟩
    | some .timeout => exact .inr ⟨_, rfl, rfl, .inr hagain⟩
    | none => exact .inr ⟨_, rfl, rfl, .inr hagain⟩

/-! ### What an event does -/

/-- No event changes the settings. -/
theorem config_handle (r : Recording) (e : Event) : (r.handle e).config = r.config := by
  cases e with
  | offer c => rfl
  | requestStop => rfl
  | deviceDone ok => cases ok <;> rfl
  | step now =>
    simp only [handle, step]
    split
    · obtain ⟨_, _, h, -⟩ := openTape_eq now.second _ r
      rw [h]
    · rfl
    · obtain ⟨_, h, -⟩ := check_eq now.steady r
      rw [h]
    · rcases look_cases now.steady _ r with ⟨_, _, -, -, h⟩ | ⟨_, -, h, -⟩
      · rw [h]
      · rw [h]
    · obtain ⟨_, -, h⟩ := flush_eq r
      rw [h]
    · split
      · obtain ⟨_, h⟩ := finish_eq now.second r
        rw [h]
      · rfl
    · rfl

theorem config_run (r : Recording) (es : List Event) : (r.run es).config = r.config := by
  induction es generalizing r with
  | nil => rfl
  | cons e es ih => rw [run, ih, config_handle]

/-- What an event does, as the loop of the writer sees it. -/
inductive Deed (r : Recording) : Recording → Option Chunk → List Block → Prop
  /-- Nothing that concerns the loop. -/
  | passed {later : Recording} (stage : later.stage = r.stage)
      (cutter : later.cutter = r.cutter) (writer : later.writer = r.writer) :
      Deed r later none []
  /-- The tape is opened, or cannot be opened. -/
  | opened {later : Recording} (stage : r.stage = .opening)
      (next : later.stage = .ready ∨ later.stage = .ended) : Deed r later none []
  /-- The loop is entered. -/
  | entered {later : Recording} (stage : r.stage = .ready) (next : later.stage = .looping)
      (cutter : later.cutter = .empty) (writer : later.writer = r.writer) : Deed r later none []
  /-- A chunk is taken in, and the blocks that it fills are handed on. -/
  | took {later : Recording} (c : Chunk) (stage : r.stage = .looping)
      (next : later.stage = .looping) (whole : c.isWhole r.sampleSize = true)
      (cutter : later.cutter = ((r.cutter.add c).cut r.sampleSize r.config.blockSamples).2)
      (writer : later.writer = r.writer.appendAll
        ((r.cutter.add c).cut r.sampleSize r.config.blockSamples).1) :
      Deed r later (some c) ((r.cutter.add c).cut r.sampleSize r.config.blockSamples).1
  /-- The last block is handed on. -/
  | left {later : Recording} (stage : r.stage = .looping) (next : later.stage = .joining)
      (writer : later.writer = r.writer.appendAll r.cutter.tail.toList) :
      Deed r later none r.cutter.tail.toList
  /-- The tape is finished. -/
  | finished {later : Recording} (stage : r.stage = .joining) (next : later.stage = .ended) :
      Deed r later none []

/-- Only a look at the queue can take a chunk in. -/
theorem accepted_of_not_waiting {r : Recording} (now : Moment)
    (h : ∀ deadline, r.phase ≠ .waiting deadline) : r.accepted (.step now) = none := by
  have htaken : r.taken (.step now) = none := by simp only [taken]
  rw [accepted, htaken]
  rfl

/-- Without a chunk, only the end of the loop hands a block on. -/
theorem handed_of_not_flushing {r : Recording} {now : Moment}
    (hnone : r.accepted (.step now) = none) (h : r.phase ≠ .flushing) :
    r.handed (.step now) = [] := by
  simp only [handed, hnone]

/-- **What a look shows**: a chunk that is taken in with the blocks that it fills, or
neither. -/
theorem look_of_waiting (r : Recording) (now : Moment) {deadline : Int}
    (hp : r.phase = .waiting deadline) :
    (∃ c reportedAt, r.accepted (.step now) = some c ∧
      r.handed (.step now) = ((r.cutter.add c).cut r.sampleSize r.config.blockSamples).1 ∧
      c.isWhole r.sampleSize = true ∧
      (r.look now.steady deadline).1 =
        { r with
          phase := .checking
          queue := r.queue.poll.2
          cutter := ((r.cutter.add c).cut r.sampleSize r.config.blockSamples).2
          writer := r.writer.appendAll (r.handed (.step now))
          counters :=
            r.writer.tallyAll (r.handed (.step now)) (r.counters.addSamples c.count.toUInt64)
          reportedAt := reportedAt }) ∨
      ∃ phase, r.accepted (.step now) = none ∧ r.handed (.step now) = [] ∧
        (r.look now.steady deadline).1 = { r with phase := phase, queue := r.queue.poll.2 } ∧
        (phase = .flushing ∨ phase = .checking ∨ phase = .waiting deadline) := by
  have htaken : r.taken (.step now) = PopResult.chunk? r.queue.poll.1 := by rw [taken, hp]
  rcases look_cases now.steady deadline r with
    ⟨c, reportedAt, hfound, hw, h⟩ | ⟨phase, hfound, h, hphase⟩
  · have haccepted : r.accepted (.step now) = some c := by
      rw [accepted, htaken, hfound]
      exact Option.filter_some_pos hw
    have hhanded : r.handed (.step now) =
        ((r.cutter.add c).cut r.sampleSize r.config.blockSamples).1 := by
      simp only [handed, haccepted]
    rw [← hhanded] at h
    exact .inl ⟨c, reportedAt, haccepted, hhanded, hw, h⟩
  · have haccepted : r.accepted (.step now) = none := by
      rw [accepted, htaken]
      exact hfound
    exact .inr ⟨phase, haccepted, handed_of_not_flushing haccepted (by simp [hp]), h, hphase⟩

/-- A look at the queue takes a chunk in, or does nothing that concerns the loop. -/
theorem deed_look (r : Recording) (now : Moment) {deadline : Int}
    (hp : r.phase = .waiting deadline) :
    Deed r (r.look now.steady deadline).1 (r.accepted (.step now)) (r.handed (.step now)) := by
  have hstage : r.stage = .looping := by rw [stage, hp]
  rcases look_of_waiting r now hp with
    ⟨c, _, haccepted, hhanded, hw, h⟩ | ⟨phase, haccepted, hhanded, h, hphase⟩
  · rw [haccepted, h, hhanded]
    exact .took c hstage rfl hw rfl rfl
  · rw [haccepted, hhanded, h]
    refine .passed ?_ rfl rfl
    -- Flushing counts as part of the loop, since the last block is still to come.
    rcases hphase with rfl | rfl | rfl
    · exact hstage.symm
    · exact hstage.symm
    · exact hstage.symm

/-- A step outside the loop takes nothing in and hands nothing on. -/
theorem deed_idle {r later : Recording} {now : Moment}
    (hwaiting : ∀ deadline, r.phase ≠ .waiting deadline) (hflushing : r.phase ≠ .flushing)
    (hdeed : Deed r later none []) :
    Deed r later (r.accepted (.step now)) (r.handed (.step now)) := by
  have hnone := accepted_of_not_waiting now hwaiting
  rw [hnone, handed_of_not_flushing hnone hflushing]
  exact hdeed

/-- **An event does nothing but what is listed.** -/
theorem deed_handle (r : Recording) (e : Event) :
    Deed r (r.handle e) (r.accepted e) (r.handed e) := by
  cases e with
  | offer c => exact .passed rfl rfl rfl
  | requestStop => exact .passed rfl rfl rfl
  | deviceDone ok => cases ok <;> exact .passed rfl rfl rfl
  | step now =>
    simp only [handle, step]
    match hp : r.phase with
    | .opening file =>
      refine deed_idle (by simp [hp]) (by simp [hp]) (.opened (by rw [stage, hp]) ?_)
      obtain ⟨_, _, h, hphase⟩ := openTape_eq now.second file r
      simp only
      rw [h]
      rcases hphase with rfl | rfl
      · exact .inl rfl
      · exact .inr rfl
    | .starting =>
      refine deed_idle (by simp [hp]) (by simp [hp]) ?_
      exact .entered (by rw [stage, hp]) rfl rfl rfl
    | .checking =>
      refine deed_idle (by simp [hp]) (by simp [hp]) ?_
      obtain ⟨_, h, hphase⟩ := check_eq now.steady r
      simp only
      rw [h]
      refine .passed ?_ rfl rfl
      rcases hphase with rfl | rfl
      · simp only [stage, hp]
      · simp only [stage, hp]
    | .waiting deadline => exact deed_look r now hp
    | .flushing =>
      have hnone := accepted_of_not_waiting now (r := r) (by simp [hp])
      have hhanded : r.handed (.step now) = r.cutter.tail.toList := by
        simp only [handed, hnone, hp]
      obtain ⟨_, -, h⟩ := flush_eq r
      rw [hnone, hhanded]
      simp only
      rw [h]
      exact .left (by rw [stage, hp]) rfl rfl
    | .joining =>
      refine deed_idle (by simp [hp]) (by simp [hp]) ?_
      simp only
      split
      · obtain ⟨_, h⟩ := finish_eq now.second r
        rw [h]
        exact .finished (by rw [stage, hp]) rfl
      · exact .passed rfl rfl rfl
    | .over ok =>
      refine deed_idle (by simp [hp]) (by simp [hp]) ?_
      exact .passed rfl rfl rfl

end Recording

end IqTape
