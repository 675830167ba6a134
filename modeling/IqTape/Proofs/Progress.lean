import IqTape.Proofs.Capture.Conservation
import IqTape.Proofs.Replay.Promptness
import Mathlib.Data.List.Chain

/-!
# Progress lines come by the interval

A recorder reads the clock whenever it has taken a chunk in, and a replayer whenever it has tried
a block.  Either prints a progress line then if the interval has passed since the last line, or
since the session began.  The interval is a number of seconds, any word but zero, and it is
compared with the nanoseconds that have passed, in signed words.  So the comparison is right just
as long as the nanoseconds of the interval are a signed word.  Of a longer interval only what is
left of them modulo a word is compared, which is less, and lines come before their time.

## Main definitions

* `longestInterval` — the longest interval whose nanoseconds are a signed word.
* `lineTimes` — of some readings of the clock, those at which a line is due.
* `Prints` — a stretch of a session prints its lines when they are due.
* `Recording.readings`, `Recording.lines`, `ReplaySession.readings`, `ReplaySession.lines` — what
  the clock shows when it is read for a line, and when a line is printed.
* `KeepsInterval` — what a session makes of its interval.

## Main results

* `intervalNanos_eq_iff`, `compares_iff` — the nanoseconds of an interval, and the comparison.
* `isChain_lineTimes` — lines that are due are an interval apart.
* `Recording.reports_handle`, `Recording.reports_run` — an event and a run of a recording.
* `ReplaySession.reports_step`, `ReplaySession.reports_play` — a step and a run of a replay.
* `Recording.allLines_of_not_isSetUp`, `ReplaySession.allLines_begin` — the lines of a whole
  session, from its start on.
* `lines_keep_interval` — **the interval and the lines of a session**, of either program.
-/

namespace IqTape

/-! ### Intervals -/

/-- The longest interval whose nanoseconds are a signed word, in seconds: 292 years. -/
def longestInterval : Nat := 9223372036

theorem nanos_lt_iff (seconds : Nat) :
    seconds * nanosPerSecond < 2 ^ 63 ↔ seconds ≤ longestInterval := by
  rw [nanosPerSecond, longestInterval]
  omega

variable {interval : UInt64}

theorem intervalNanos_bounds (interval : UInt64) :
    -2 ^ 63 ≤ intervalNanos interval ∧ intervalNanos interval < 2 ^ 63 := by
  have hle := Int.le_bmod (x := (interval.toNat * nanosPerSecond : Nat)) (m := 2 ^ 64) (by omega)
  have hlt := Int.bmod_lt (x := (interval.toNat * nanosPerSecond : Nat)) (m := 2 ^ 64) (by omega)
  unfold intervalNanos
  omega

/-- It makes no difference that the seconds are narrowed to a signed word before they are
multiplied. -/
theorem intervalNanos_eq_bmod (interval : UInt64) :
    intervalNanos interval =
      ((interval.toNat : Int).bmod (2 ^ 64) * nanosPerSecond).bmod (2 ^ 64) := by
  rw [Int.bmod_mul_bmod]
  exact congrArg (Int.bmod · (2 ^ 64)) (Int.natCast_mul _ _)

/-- **The nanoseconds of an interval are right just if they are a signed word.** -/
theorem intervalNanos_eq_iff :
    intervalNanos interval = interval.toNat * nanosPerSecond ↔
      interval.toNat ≤ longestInterval := by
  rw [← nanos_lt_iff, ← Int.natCast_mul]
  constructor
  · intro heq
    have hlt := (intervalNanos_bounds interval).2
    omega
  · intro hlt
    exact Int.bmod_eq_of_le (by omega) (by omega)

/-- The nanoseconds of a longer interval are more than any time that can have passed. -/
theorem lt_nanos {elapsed : Int} (h : longestInterval < interval.toNat)
    (helapsed : elapsed < 2 ^ 63) : elapsed < interval.toNat * nanosPerSecond := by
  have hlarge : 2 ^ 63 ≤ interval.toNat * nanosPerSecond :=
    Nat.le_of_not_lt fun hlt => Nat.not_lt.2 ((nanos_lt_iff _).1 hlt) h
  rw [← Int.natCast_mul]
  omega

/-- **The comparison with the time that has passed is right**, whatever that is, just if the
nanoseconds of the interval are a signed word. -/
theorem compares_iff :
    (∀ elapsed : Int, 0 ≤ elapsed → elapsed < 2 ^ 63 →
        (intervalNanos interval ≤ elapsed ↔ interval.toNat * nanosPerSecond ≤ elapsed)) ↔
      interval.toNat ≤ longestInterval := by
  obtain ⟨-, hlt⟩ := intervalNanos_bounds interval
  constructor
  · intro hsame
    -- What is compared is itself a time that can have passed, unless it is negative.
    have hle := (hsame (max 0 (intervalNanos interval)) (by omega) (by omega)).1 (by omega)
    rw [← nanos_lt_iff]
    rw [← Int.natCast_mul] at hle
    omega
  · intro hshort elapsed _ _
    rw [intervalNanos_eq_iff.2 hshort]

/-! ### When lines are due -/

/-- Of some readings of the clock, those at which a line is due: each that is so far from the line
before, or from the beginning.  There is none if only errors are printed. -/
def lineTimes (quiet : Bool) (gap last : Int) : List Int → List Int
  | [] => []
  | now :: later =>
    if !quiet && decide (gap ≤ now - last) then now :: lineTimes quiet gap now later
    else lineTimes quiet gap last later

section

variable {quiet : Bool} {gap last : Int} {readings : List Int}

theorem lineTimes_append (quiet : Bool) (gap last : Int) (readings later : List Int) :
    lineTimes quiet gap last (readings ++ later) =
      lineTimes quiet gap last readings ++
        lineTimes quiet gap ((lineTimes quiet gap last readings).getLastD last) later := by
  induction readings generalizing last with
  | nil => rfl
  | cons now readings ih =>
    rw [List.cons_append, lineTimes, lineTimes]
    split
    · rw [ih, List.cons_append, List.getLastD_cons]
    · exact ih last

/-- **Lines that are due are so far apart**, and the first is so far from the beginning. -/
theorem isChain_lineTimes (quiet : Bool) (gap last : Int) (readings : List Int) :
    (last :: lineTimes quiet gap last readings).IsChain
      fun earlier later => gap ≤ later - earlier := by
  induction readings generalizing last with
  | nil => exact .singleton last
  | cons now readings ih =>
    rw [lineTimes]
    split
    · next hdue =>
      rw [Bool.and_eq_true, decide_eq_true_eq] at hdue
      exact .cons_cons hdue.2 (ih now)
    · exact ih last

/-- If no time has to pass, and the clock does not go back, a line is due at every reading. -/
theorem lineTimes_of_nonpos (hgap : gap ≤ 0) (hsorted : (last :: readings).IsChain (· ≤ ·)) :
    lineTimes false gap last readings = readings := by
  induction readings generalizing last with
  | nil => rfl
  | cons now readings ih =>
    rw [List.isChain_cons_cons] at hsorted
    have hdue : (!false && decide (gap ≤ now - last)) = true := by
      rw [Bool.not_false, Bool.true_and, decide_eq_true_eq]
      omega
    rw [lineTimes, if_pos hdue, ih hsorted.2]

/-- In a stretch of a session the lines are printed when they are due, and the last of them is
remembered. -/
structure Prints (quiet : Bool) (gap last : Int) (readings lines : List Int) (now : Int) :
    Prop where
  lines_eq : lines = lineTimes quiet gap last readings
  last_eq : now = lines.getLastD last

namespace Prints

variable {lines later more : List Int} {now next : Int}

theorem nil (quiet : Bool) (gap last : Int) : Prints quiet gap last [] [] last := ⟨rfl, rfl⟩

/-- A stretch in which nobody reads the clock. -/
theorem of_eq (hreadings : readings = []) (hlines : lines = []) (hlast : now = last) :
    Prints quiet gap last readings lines now := by
  rw [hreadings, hlines, hlast]
  exact nil quiet gap last

/-- A reading that comes too early for a line. -/
theorem of_early (h : (!quiet && decide (gap ≤ now - last)) = false) :
    Prints quiet gap last [now] [] last := by
  refine ⟨?_, rfl⟩
  rw [lineTimes, h]
  rfl

/-- A reading that comes with a line. -/
theorem of_due (h : (!quiet && decide (gap ≤ now - last)) = true) :
    Prints quiet gap last [now] [now] now := by
  refine ⟨?_, rfl⟩
  rw [lineTimes, if_pos h]
  rfl

/-- One stretch after the other. -/
theorem append (h : Prints quiet gap last readings lines now)
    (hlater : Prints quiet gap now later more next) :
    Prints quiet gap last (readings ++ later) (lines ++ more) next := by
  obtain ⟨hlines, hlast⟩ := h
  obtain ⟨hmore, hnext⟩ := hlater
  refine ⟨?_, ?_⟩
  · rw [lineTimes_append, ← hlines, ← hlast, ← hmore]
  · simp only [hnext, hlast, List.getLastD_eq_getLast?, List.getLast?_append, Option.getD_or]

end Prints

end

/-- When progress lines are printed, of all that is said at some time. -/
def linesAt {Notice : Type} (isLine : Notice → Bool) (now : Int) (said : List Notice) : List Int :=
  (said.filter isLine).map fun _ => now

theorem linesAt_append {Notice : Type} (isLine : Notice → Bool) (now : Int)
    (said more : List Notice) :
    linesAt isLine now (said ++ more) = linesAt isLine now said ++ linesAt isLine now more := by
  rw [linesAt, List.filter_append, List.map_append]
  rfl

/-- A notice that is no progress line, and is left out if only errors are printed. -/
theorem linesAt_unless {Notice : Type} {isLine : Notice → Bool} {notice : Notice}
    (h : isLine notice = false) (quiet : Bool) (now : Int) :
    linesAt isLine now (if quiet then [] else [notice]) = [] := by
  split
  · rfl
  · rw [linesAt, List.filter_singleton, h]
    rfl

/-! ### Recordings -/

/-- Whether this is a progress line. -/
def RecorderNotice.isLine : RecorderNotice → Bool
  | progress _ => true
  | _ => false

namespace Recording

/-- What the clock shows, if the writer has taken a chunk in and reads it. -/
def readings (r : Recording) : Event → List Int
  | .step now => ((r.accepted (.step now)).map fun _ => now.steady).toList
  | _ => []

/-- The times of the progress lines that are printed at an event. -/
def lines (r : Recording) : Event → List Int
  | .step now => linesAt RecorderNotice.isLine now.steady (r.step now).2
  | _ => []

/-- All the readings of the clock. -/
def allReadings (r : Recording) (es : List Event) : List Int := r.gather readings es

/-- The times of all the progress lines. -/
def allLines (r : Recording) (es : List Event) : List Int := r.gather lines es

/-- A part of a step that prints no progress line and leaves the times of the session alone. -/
structure Silent (r : Recording) (out : Outcome) : Prop where
  lines : ∀ now, linesAt RecorderNotice.isLine now out.2 = []
  reportedAt : out.1.reportedAt = r.reportedAt
  startedAt : out.1.startedAt = r.startedAt

variable {r : Recording}

theorem linesAt_unlessQuiet {notice : RecorderNotice} (h : notice.isLine = false) (now : Int) :
    linesAt RecorderNotice.isLine now (r.unlessQuiet notice) = [] :=
  linesAt_unless h r.config.quiet now

theorem silent_nothing : r.Silent (r, []) := ⟨fun _ => rfl, rfl, rfl⟩

theorem silent_openTape (second : UInt64) (file : Option Sink) :
    r.Silent (r.openTape second file) := by
  have hmismatch (now : Int) : linesAt RecorderNotice.isLine now
      (if r.device.format = r.config.format then []
      else [.formatMismatch r.device.format r.config.format]) = [] := by
    split <;> rfl
  unfold openTape
  simp only
  split
  · exact ⟨hmismatch, rfl, rfl⟩
  · refine ⟨fun now => ?_, rfl, rfl⟩
    rw [linesAt_append, hmismatch]
    rfl

theorem silent_check (now : Int) : r.Silent (r.check now) := by
  unfold check
  split
  · exact ⟨linesAt_unlessQuiet rfl, rfl, rfl⟩
  · split
    · exact ⟨linesAt_unlessQuiet rfl, rfl, rfl⟩
    · exact ⟨fun _ => rfl, rfl, rfl⟩

theorem silent_write (b : Block) : r.Silent (r.write b) := by
  unfold write
  split
  · exact ⟨fun _ => rfl, rfl, rfl⟩
  · exact ⟨fun _ => rfl, rfl, rfl⟩

theorem silent_writeAll (bs : List Block) : r.Silent (r.writeAll bs) := by
  -- What has been said is an accumulator, so the induction is for all of them at once.
  have hfold : ∀ (bs : List Block) (out : Outcome), r.Silent out →
      r.Silent (bs.foldl (fun out b => ((out.1.write b).1, out.2 ++ (out.1.write b).2)) out) := by
    intro bs
    induction bs with
    | nil => intro out hout; exact hout
    | cons b bs ih =>
      intro out hout
      obtain ⟨hlines, hreported, hstarted⟩ := silent_write (r := out.1) b
      refine ih _ ⟨fun now => ?_, hreported.trans hout.reportedAt, hstarted.trans hout.startedAt⟩
      rw [linesAt_append, hout.lines, hlines]
      rfl
  exact hfold bs (r, []) silent_nothing

theorem silent_flush : r.Silent r.flush := by
  unfold flush
  simp only
  split
  · exact ⟨fun _ => rfl, rfl, rfl⟩
  · next b _ =>
    obtain ⟨hlines, hreported, hstarted⟩ :=
      silent_write (r := { r with stopping := true, phase := .joining }) b
    refine ⟨fun now => ?_, hreported, hstarted⟩
    rw [linesAt_append, hlines, linesAt_unlessQuiet rfl]
    rfl

theorem silent_finish (second : UInt64) : r.Silent (r.finish second) := by
  unfold finish
  simp only
  split
  · exact ⟨fun _ => rfl, rfl, rfl⟩
  · exact ⟨linesAt_unlessQuiet rfl, rfl, rfl⟩

/-- A stretch of a session, with the readings of the clock and the times of the lines in it. -/
structure Reports (r later : Recording) (readings lines : List Int) : Prop where
  prints : Prints r.config.quiet (intervalNanos r.config.interval) r.reportedAt readings lines
    later.reportedAt
  startedAt : later.startedAt = r.startedAt

/-- Nothing is due where nobody reads the clock. -/
theorem Silent.reports {out : Outcome} {readings : List Int} (h : r.Silent out)
    (hreadings : readings = []) (now : Int) :
    r.Reports out.1 readings (linesAt RecorderNotice.isLine now out.2) :=
  ⟨.of_eq hreadings (h.lines now) h.reportedAt, h.startedAt⟩

theorem reports_report (now : Int) :
    r.Reports (r.report now).1 [now] (linesAt RecorderNotice.isLine now (r.report now).2) := by
  unfold report
  split
  · next hdue => exact ⟨.of_due hdue, rfl⟩
  · next hearly => exact ⟨.of_early (Bool.not_eq_true _ ▸ hearly), rfl⟩

/-- **A chunk that is taken in** brings a reading of the clock, after its blocks. -/
theorem reports_accept {c : Chunk} (now : Int) (h : c.isWhole r.sampleSize = true) :
    r.Reports (r.accept now c).1 [now] (linesAt RecorderNotice.isLine now (r.accept now c).2) := by
  let fed : Recording := { r with
    cutter := ((r.cutter.add c).cut r.sampleSize r.config.blockSamples).2
    counters := r.counters.addSamples c.count.toUInt64 }
  let written := fed.writeAll ((r.cutter.add c).cut r.sampleSize r.config.blockSamples).1
  have haccept : r.accept now c =
      ((written.1.report now).1, written.2 ++ (written.1.report now).2) := by
    rw [accept, h]
    rfl
  have hsilent : fed.Silent written := silent_writeAll _
  have hconfig : written.1.config = r.config := by rw [writeAll_eq]
  obtain ⟨hprints, hstarted⟩ := reports_report (r := written.1) now
  rw [hconfig, hsilent.reportedAt] at hprints
  rw [haccept, linesAt_append, hsilent.lines]
  exact ⟨hprints, hstarted.trans hsilent.startedAt⟩

/-- A chunk of the wrong size brings none. -/
theorem silent_accept {c : Chunk} (now : Int) (h : ¬c.isWhole r.sampleSize = true) :
    r.Silent (r.accept now c) := by
  rw [Bool.not_eq_true] at h
  rw [accept, h]
  exact ⟨fun _ => rfl, rfl, rfl⟩

/-- Neither does a look at the queue that finds no chunk. -/
theorem silent_look (now deadline : Int) (h : PopResult.chunk? r.queue.poll.1 = none) :
    r.Silent (r.look now deadline) := by
  rcases hpoll : r.queue.poll with ⟨_ | (c | _ | _), q⟩
  · rw [look, hpoll]
    exact ⟨fun _ => rfl, rfl, rfl⟩
  · rw [hpoll] at h
    cases h
  · rw [look, hpoll]
    exact ⟨fun _ => rfl, rfl, rfl⟩
  · rw [look, hpoll]
    exact ⟨linesAt_unlessQuiet rfl, rfl, rfl⟩

theorem look_of_chunk {c : Chunk} (now deadline : Int)
    (h : PopResult.chunk? r.queue.poll.1 = some c) :
    r.look now deadline =
      accept now c { r with queue := r.queue.poll.2, phase := .checking } := by
  rcases hpoll : r.queue.poll with ⟨_ | (c' | _ | _), q⟩ <;> rw [hpoll] at h <;> cases h
  rw [look, hpoll]

theorem reports_look {deadline : Int} (hp : r.phase = .waiting deadline) (now : Moment) :
    r.Reports (r.look now.steady deadline).1 (r.readings (.step now))
      (linesAt RecorderNotice.isLine now.steady (r.look now.steady deadline).2) := by
  have hreadings : r.readings (.step now) = (((PopResult.chunk? r.queue.poll.1).filter
      (·.isWhole r.sampleSize)).map fun _ => now.steady).toList := by
    rw [readings, accepted, taken, hp]
  rw [hreadings]
  cases hfound : PopResult.chunk? r.queue.poll.1 with
  | none => exact (silent_look now.steady deadline hfound).reports rfl now.steady
  | some c =>
    let next : Recording := { r with queue := r.queue.poll.2, phase := .checking }
    have hlook : r.look now.steady deadline = next.accept now.steady c := look_of_chunk _ _ hfound
    rw [hlook]
    by_cases hw : c.isWhole r.sampleSize = true
    · have hkept : (some c).filter (·.isWhole r.sampleSize) = some c := Option.filter_some_pos hw
      obtain ⟨hprints, hstarted⟩ := reports_accept (r := next) now.steady hw
      rw [hkept]
      exact ⟨hprints, hstarted⟩
    · have hdropped : (some c).filter (·.isWhole r.sampleSize) = none :=
        Option.filter_some_neg (Bool.eq_false_iff.2 hw)
      obtain ⟨hprints, hstarted⟩ :=
        (silent_accept (r := next) now.steady hw).reports rfl now.steady
      rw [hdropped]
      exact ⟨hprints, hstarted⟩

/-- **An event** of a session prints a line if one is due, and then remembers it. -/
theorem reports_handle (hp : r.phase ≠ .starting) (e : Event) :
    r.Reports (r.handle e) (r.readings e) (r.lines e) := by
  cases e with
  | offer c => exact ⟨.nil _ _ _, rfl⟩
  | requestStop => exact ⟨.nil _ _ _, rfl⟩
  | deviceDone ok => cases ok <;> exact ⟨.nil _ _ _, rfl⟩
  | step now =>
    -- Away from the queue nobody reads the clock for a line.
    have hidle {out : Outcome} (hsilent : r.Silent out)
        (hwaiting : ∀ deadline, r.phase ≠ .waiting deadline) :
        r.Reports out.1 (r.readings (.step now))
          (linesAt RecorderNotice.isLine now.steady out.2) :=
      hsilent.reports (by rw [readings, accepted_of_not_waiting now hwaiting]; rfl) now.steady
    simp only [handle, lines, step]
    cases hphase : r.phase with
    | opening file => exact hidle (silent_openTape _ _) (by simp [hphase])
    | starting => exact absurd hphase hp
    | checking => exact hidle (silent_check _) (by simp [hphase])
    | waiting deadline => exact reports_look hphase now
    | flushing => exact hidle silent_flush (by simp [hphase])
    | joining =>
      simp only
      split
      · exact hidle (silent_finish _) (by simp [hphase])
      · exact hidle silent_nothing (by simp [hphase])
    | «over» ok => exact hidle silent_nothing (by simp [hphase])

theorem phase_of_isSetUp (hr : r.IsSetUp) : r.phase ≠ .starting := by
  intro hp
  exact hr.2 (by rw [stage, hp])

/-- **So does a run** of a session that has been set up. -/
theorem reports_run (hr : r.IsSetUp) (es : List Event) :
    r.Reports (r.run es) (r.allReadings es) (r.allLines es) := by
  induction es generalizing r with
  | nil => exact ⟨.nil _ _ _, rfl⟩
  | cons e es ih =>
    obtain ⟨hprints, hstarted⟩ := reports_handle (phase_of_isSetUp hr) e
    obtain ⟨hlater, hkept⟩ := ih (hr.handle e)
    rw [config_handle] at hlater
    exact ⟨hprints.append hlater, hkept.trans hstarted⟩

theorem readings_of_not_accepted {e : Event} (h : r.accepted e = none) : r.readings e = [] := by
  cases e with
  | step now => rw [readings, h]; rfl
  | _ => rfl

/-- Nobody reads the clock in a session that is over. -/
theorem allReadings_of_ended (hended : r.stage = .ended) (es : List Event) :
    r.allReadings es = [] := by
  induction es generalizing r with
  | nil => rfl
  | cons e es ih =>
    have hkeeps : (r.handle e).stage = .ended ∧ r.accepted e = none := by
      have hdeed := deed_handle r e
      generalize r.handle e = later, r.accepted e = found, r.handed e = bs at hdeed ⊢
      cases hdeed with
      | passed stage => exact ⟨stage.trans hended, rfl⟩
      | opened stage => rw [hended] at stage; cases stage
      | entered stage => rw [hended] at stage; cases stage
      | took c stage => rw [hended] at stage; cases stage
      | left stage => rw [hended] at stage; cases stage
      | finished stage => rw [hended] at stage; cases stage
    rw [allReadings, gather, readings_of_not_accepted hkeeps.2]
    exact ih hkeeps.1

theorem isSetUp_of_ended (h : r.stage = .ended) : r.IsSetUp := by
  unfold IsSetUp
  rw [h]
  decide

theorem phase_of_not_isSetUp (hr : ¬r.IsSetUp) :
    (∃ file, r.phase = .opening file) ∨ r.phase = .starting := by
  unfold IsSetUp stage at hr
  cases hphase : r.phase with
  | opening file => exact .inl ⟨file, rfl⟩
  | starting => exact .inr rfl
  | _ => simp [hphase] at hr

/-- What an event does to a session that has not been set up. -/
theorem handle_of_not_isSetUp (hr : ¬r.IsSetUp) (e : Event) :
    r.readings e = [] ∧ r.lines e = [] ∧
      (¬(r.handle e).IsSetUp ∨ (r.handle e).stage = .ended ∨
        (r.handle e).IsSetUp ∧ (r.handle e).reportedAt = (r.handle e).startedAt) := by
  cases e with
  | offer c => exact ⟨rfl, rfl, .inl hr⟩
  | requestStop => exact ⟨rfl, rfl, .inl hr⟩
  | deviceDone ok => cases ok <;> exact ⟨rfl, rfl, .inl hr⟩
  | step now =>
    have hphase := phase_of_not_isSetUp hr
    have hreadings : r.readings (.step now) = [] := by
      refine readings_of_not_accepted (accepted_of_not_waiting now fun deadline => ?_)
      rcases hphase with ⟨file, hphase⟩ | hphase <;> simp [hphase]
    refine ⟨hreadings, ?_⟩
    rcases hphase with ⟨file, hphase⟩ | hphase
    · obtain ⟨writer, next, hlater, hnext⟩ := openTape_eq now.second file r
      simp only [handle, lines, step, hphase, hlater]
      refine ⟨(silent_openTape _ _).lines _, ?_⟩
      rcases hnext with rfl | rfl
      · exact .inl fun h => h.2 rfl
      · exact .inr (.inl rfl)
    · have hsetUp : (r.start now.steady).1.IsSetUp := by simp [IsSetUp, stage, start]
      simp only [handle, lines, step, hphase]
      exact ⟨linesAt_unlessQuiet rfl _, .inr (.inr ⟨hsetUp, rfl⟩)⟩

/-- **A whole session** prints its lines when they are due, from its start on. -/
theorem allLines_of_not_isSetUp (hr : ¬r.IsSetUp) (es : List Event) :
    r.allLines es = lineTimes r.config.quiet (intervalNanos r.config.interval)
      (r.run es).startedAt (r.allReadings es) := by
  induction es generalizing r with
  | nil => rfl
  | cons e es ih =>
    obtain ⟨hreadings, hlines, hnext⟩ := handle_of_not_isSetUp hr e
    rw [allLines, allReadings, gather, gather, hreadings, hlines, run, List.nil_append,
      List.nil_append, ← config_handle r e]
    rcases hnext with hnot | hended | ⟨hsetUp, hstarted⟩
    · exact ih hnot
    · have hnone := allReadings_of_ended hended es
      have hlines := (reports_run (isSetUp_of_ended hended) es).prints.lines_eq
      rw [hnone] at hlines
      rw [show gather lines (r.handle e) es = [] from hlines,
        show gather readings (r.handle e) es = [] from hnone]
      rfl
    · have hlater := reports_run hsetUp es
      have hlines := hlater.prints.lines_eq
      rw [hstarted, ← hlater.startedAt] at hlines
      exact hlines

end Recording

/-! ### Replays -/

/-- Whether this is a progress line. -/
def ReplayNotice.isLine : ReplayNotice → Bool
  | progress _ => true
  | _ => false

namespace ReplaySession

/-- What some moves show, one after the other. -/
def collect {α : Type} (f : ReplaySession → Move → List α) (s : ReplaySession) :
    List Move → List α
  | [] => []
  | m :: ms => f s m ++ collect f (s.after m) ms

/-- What the clock shows, if the session has tried a block and reads it. -/
def readings (s : ReplaySession) : Move → List Int
  | .step outside =>
    match s.phase with
    | .tried _ => [outside.now]
    | _ => []
  | .store _ => []

/-- The times of the progress lines that are printed in a move. -/
def lines (s : ReplaySession) : Move → List Int
  | .step outside => linesAt ReplayNotice.isLine outside.now (s.step outside).2.2
  | .store _ => []

/-- All the readings of the clock. -/
def allReadings (s : ReplaySession) (ms : List Move) : List Int := s.collect readings ms

/-- The times of all the progress lines. -/
def allLines (s : ReplaySession) (ms : List Move) : List Int := s.collect lines ms

variable {s : ReplaySession}

/-- A step that prints no progress line, and remembers the last one. -/
structure Silent (s : ReplaySession) (out : Outcome) : Prop where
  lines : ∀ now, linesAt ReplayNotice.isLine now out.2.2 = []
  reportedAt : out.1.reportedAt = s.reportedAt

theorem linesAt_unlessQuiet {notice : ReplayNotice} (h : notice.isLine = false) (now : Int) :
    linesAt ReplayNotice.isLine now (s.unlessQuiet notice) = [] :=
  linesAt_unless h s.config.quiet now

theorem silent_startPass (now : Int) : s.Silent (s.startPass now) := by
  unfold startPass
  split
  · exact ⟨fun _ => rfl, rfl⟩
  · simp only
    split
    · exact ⟨fun _ => rfl, rfl⟩
    · exact ⟨linesAt_unlessQuiet (s := { s with passes := s.passes + 1 }) rfl, rfl⟩

theorem silent_openTape (tape : Option Source) : s.Silent (s.openTape tape) := by
  unfold openTape
  split <;> exact ⟨fun _ => rfl, rfl⟩

theorem silent_read : s.Silent s.read := by
  unfold read
  split
  · exact ⟨fun _ => rfl, rfl⟩
  · refine ⟨fun _ => ?_, rfl⟩
    simp only
    split <;> rfl

theorem silent_await (now : Int) (b : Block) (w : Wait) : s.Silent (s.await now b w) := by
  unfold await
  rcases w.step s.paused now s.schedule with ⟨next, schedule, nap⟩
  cases next <;> exact ⟨fun _ => rfl, rfl⟩

theorem silent_frame (b : Block) : s.Silent (s.frame b) := by
  unfold frame
  split
  · exact ⟨fun _ => rfl, rfl⟩
  · split
    · exact ⟨fun _ => rfl, rfl⟩
    · refine ⟨fun _ => ?_, rfl⟩
      simp only
      split <;> rfl

theorem silent_send (fault : Option String) (b : Block) (datagram : Bytes) :
    s.Silent (s.send fault b datagram) := by
  unfold send
  split
  · refine ⟨fun _ => ?_, rfl⟩
    simp only
    split <;> rfl
  · exact ⟨fun _ => rfl, rfl⟩

theorem silent_endPass : s.Silent s.endPass := by
  unfold endPass
  extract_lets cut damaged atEnd said next
  have hcut (now : Int) : linesAt ReplayNotice.isLine now cut = [] := by
    unfold cut
    split <;> rfl
  have hdamaged (now : Int) : linesAt ReplayNotice.isLine now damaged = [] := by
    unfold damaged
    split <;> rfl
  have hend (now : Int) : linesAt ReplayNotice.isLine now atEnd = [] := by
    unfold atEnd
    split
    · rfl
    · exact linesAt_unlessQuiet rfl now
  have hsaid (now : Int) : linesAt ReplayNotice.isLine now said = [] := by
    unfold said
    rw [linesAt_append, linesAt_append, hcut, hdamaged, hend]
    rfl
  split
  · exact ⟨hsaid, rfl⟩
  · split
    · refine ⟨fun now => ?_, rfl⟩
      rw [linesAt_append, hsaid]
      rfl
    · exact ⟨hsaid, rfl⟩

/-- A stretch of a replay prints its lines when they are due. -/
abbrev Reports (s later : ReplaySession) (readings lines : List Int) : Prop :=
  Prints s.config.quiet (intervalNanos s.config.interval) s.reportedAt readings lines
    later.reportedAt

/-- **A block that has been tried** brings a reading of the clock. -/
theorem reports_count (now : Int) (b : Block) :
    s.Reports (s.count now b).1 [now]
      (linesAt ReplayNotice.isLine now (s.count now b).2.2) := by
  unfold count
  simp only
  split
  · next hnot =>
    refine .of_early ?_
    rcases hnot with hquiet | hearly
    · rw [show s.config.quiet = true from hquiet]
      rfl
    · rw [Bool.and_eq_false_iff, decide_eq_false_iff_not]
      exact .inr (Int.not_le.2 hearly)
  · next hdue =>
    refine .of_due ?_
    rw [not_or, Bool.not_eq_true, Int.not_lt] at hdue
    rw [show s.config.quiet = false from hdue.1, Bool.not_false, Bool.true_and,
      decide_eq_true_eq]
    exact hdue.2

/-- **A step** of a replay prints a line if one is due, and then remembers it. -/
theorem reports_step (s : ReplaySession) (outside : Surroundings) :
    s.Reports (s.step outside).1 (s.readings (.step outside)) (s.lines (.step outside)) := by
  -- Away from a block that has been tried nobody reads the clock for a line.
  have hidle {out : Outcome} (hstep : s.step outside = out) (hsilent : s.Silent out)
      (htried : ∀ b, s.phase ≠ .tried b) :
      s.Reports (s.step outside).1 (s.readings (.step outside)) (s.lines (.step outside)) := by
    have hreadings : s.readings (.step outside) = [] := by simp only [readings]
    rw [lines, hstep]
    exact .of_eq hreadings (hsilent.lines _) hsilent.reportedAt
  cases hphase : s.phase with
  | between => exact hidle (by rw [step, hphase]) (silent_startPass _) (by simp [hphase])
  | opening => exact hidle (by rw [step, hphase]) (silent_openTape _) (by simp [hphase])
  | reading => exact hidle (by rw [step, hphase]) silent_read (by simp [hphase])
  | waiting b w => exact hidle (by rw [step, hphase]) (silent_await _ b w) (by simp [hphase])
  | deciding b => exact hidle (by rw [step, hphase]) (silent_frame b) (by simp [hphase])
  | sending b datagram =>
    exact hidle (by rw [step, hphase]) (silent_send _ b datagram) (by simp [hphase])
  | tried b =>
    have hstep : s.step outside = s.count outside.now b := by rw [step, hphase]
    rw [readings, lines, hstep, hphase]
    exact reports_count outside.now b
  | closing => exact hidle (by rw [step, hphase]) silent_endPass (by simp [hphase])
  | finishing ok =>
    exact hidle (by rw [step, hphase]) ⟨linesAt_unlessQuiet rfl, rfl⟩ (by simp [hphase])
  | «over» ok => exact hidle (by rw [step, hphase]) ⟨fun _ => rfl, rfl⟩ (by simp [hphase])

theorem config_after (s : ReplaySession) (m : Move) : (s.after m).config = s.config := by
  cases m with
  | step outside => exact config_step s outside
  | store f => cases f <;> rfl

/-- **So does a run.** -/
theorem reports_play (s : ReplaySession) (ms : List Move) :
    s.Reports (s.play ms) (s.allReadings ms) (s.allLines ms) := by
  induction ms generalizing s with
  | nil => exact .nil _ _ _
  | cons m ms ih =>
    have hmove : s.Reports (s.after m) (s.readings m) (s.lines m) := by
      cases m with
      | step outside => exact reports_step s outside
      | store f => cases f <;> exact .nil _ _ _
    have hlater := ih (s.after m)
    rw [Reports, config_after] at hlater
    exact hmove.append hlater

/-- Nobody reads the clock in a session that is over. -/
theorem allReadings_of_over {ok : Bool} (hphase : s.phase = .over ok) (ms : List Move) :
    s.allReadings ms = [] := by
  induction ms generalizing s with
  | nil => rfl
  | cons m ms ih =>
    have hmove : (s.after m).phase = .over ok ∧ s.readings m = [] := by
      cases m with
      | step outside => simp [after, step, readings, hphase]
      | store f => cases f <;> exact ⟨hphase, rfl⟩
    rw [allReadings, collect, hmove.2]
    exact ih hmove.1

/-- **A whole replay** prints its lines when they are due, from its start on. -/
theorem allLines_begin (s : ReplaySession) (start : Int) (ms : List Move) :
    (s.begin start).1.allLines ms =
      lineTimes s.config.quiet (intervalNanos s.config.interval) start
        ((s.begin start).1.allReadings ms) := by
  have hlines := (reports_play (s.begin start).1 ms).lines_eq
  rw [config_begin] at hlines
  by_cases hready : s.ready = true
  · have hstart : (s.begin start).1.reportedAt = start := by simp [begin, hready]
    rw [hlines, hstart]
  · have hover : (s.begin start).1.phase = .over false := by simp [begin, hready]
    rw [hlines, allReadings_of_over hover]
    rfl

end ReplaySession

/-! ### Whole sessions -/

/-- Of the settings of a recorder, only an interval of zero is refused. -/
theorem RecorderConfig.validate_withInterval {c : RecorderConfig} (h : c.validate = none)
    (seconds : UInt64) : { c with interval := seconds }.validate = none ↔ seconds ≠ 0 := by
  unfold validate at h ⊢
  split_ifs at h with hrate hempty hlarge hcapacity _ houtput
  simp only [if_neg hrate, if_neg hempty, if_neg hlarge, if_neg hcapacity, if_neg houtput]
  split <;> simp_all

/-- The same goes for a replayer. -/
theorem ReplayConfig.validate_withInterval {c : ReplayConfig} (h : c.validate = none)
    (seconds : UInt64) : { c with interval := seconds }.validate = none ↔ seconds ≠ 0 := by
  unfold validate at h ⊢
  split_ifs at h with hspeed hinput htarget hbind hport _
  simp only [if_neg hspeed, if_neg hinput, if_neg htarget, if_neg hbind, if_neg hport]
  split <;> simp_all

/-- What a session that began at some time makes of its interval, in its lines, of its readings
of the clock. -/
structure KeepsInterval (interval : UInt64) (quiet : Bool) (begun : Int)
    (readings lines : List Int) : Prop where
  positive : 0 < interval.toNat
  /-- Two signed words are made of the interval, its seconds and then its nanoseconds. -/
  narrowed : intervalNanos interval =
    ((interval.toNat : Int).bmod (2 ^ 64) * nanosPerSecond).bmod (2 ^ 64)
  /-- The comparison is right for any time that can have passed, just if both are right. -/
  exact_iff :
    (∀ elapsed : Int, 0 ≤ elapsed → elapsed < 2 ^ 63 →
        (intervalNanos interval ≤ elapsed ↔ interval.toNat * nanosPerSecond ≤ elapsed)) ↔
      interval.toNat < 2 ^ 63 ∧ interval.toNat * nanosPerSecond < 2 ^ 63
  /-- That is so up to the longest interval. -/
  signed_iff : interval.toNat < 2 ^ 63 ∧ interval.toNat * nanosPerSecond < 2 ^ 63 ↔
    interval.toNat ≤ longestInterval
  /-- A line is printed whenever what is compared has passed, and at no other time. -/
  lines_eq : lines = lineTimes quiet (intervalNanos interval) begun readings
  /-- So up to the longest interval, lines come when the interval has passed, and not before. -/
  spaced : interval.toNat ≤ longestInterval →
    lines = lineTimes quiet (interval.toNat * nanosPerSecond) begun readings ∧
      (begun :: lines).IsChain fun earlier later : Int =>
        interval.toNat * nanosPerSecond ≤ later - earlier
  /-- Beyond it less is compared, and any line comes before the interval has passed. -/
  early : longestInterval < interval.toNat →
    intervalNanos interval < interval.toNat * nanosPerSecond ∧
      ∀ line ∈ lines, line - begun < 2 ^ 63 → line - begun < interval.toNat * nanosPerSecond
  /-- If what is compared is not positive, there is a line at every reading. -/
  every : intervalNanos interval ≤ 0 → quiet = false → (begun :: readings).IsChain (· ≤ ·) →
    lines = readings

/-- Lines that come when they are due are all that it takes. -/
theorem KeepsInterval.of_lines {quiet : Bool} {begun : Int} {readings lines : List Int}
    (hpos : interval ≠ 0)
    (hlines : lines = lineTimes quiet (intervalNanos interval) begun readings) :
    KeepsInterval interval quiet begun readings lines := by
  have hsigned : interval.toNat < 2 ^ 63 ∧ interval.toNat * nanosPerSecond < 2 ^ 63 ↔
      interval.toNat ≤ longestInterval := by
    rw [nanos_lt_iff]
    refine and_iff_right_of_imp fun hle => Nat.lt_of_le_of_lt hle ?_
    decide
  refine
    { positive := UInt64.pos_iff_ne_zero.2 hpos
      narrowed := intervalNanos_eq_bmod interval
      exact_iff := compares_iff.trans hsigned.symm
      signed_iff := hsigned
      lines_eq := hlines
      spaced := fun hle => ?_
      early := fun hlt =>
        ⟨lt_nanos hlt (intervalNanos_bounds interval).2, fun _ _ => lt_nanos hlt⟩
      every := fun hgap hquiet hsorted => ?_ }
  · rw [intervalNanos_eq_iff.2 hle] at hlines
    rw [hlines]
    exact ⟨rfl, isChain_lineTimes quiet _ begun readings⟩
  · rw [hlines, hquiet]
    exact lineTimes_of_nonpos hgap hsorted

/-- **The lines of a session keep the interval** as long as the interval is a signed word of
nanoseconds.  The check of the settings of either program takes any interval but zero, and one
that is longer makes lines come early. -/
theorem lines_keep_interval {r : Recording} {s : ReplaySession} (hr : r.config.validate = none)
    (hs : s.config.validate = none) (device : DeviceInfo) (file : Option Sink)
    (es : List Recording.Event) (start : Int) (ms : List ReplaySession.Move) :
    (∀ seconds, { r.config with interval := seconds }.validate = none ↔ seconds ≠ 0) ∧
      (∀ seconds, { s.config with interval := seconds }.validate = none ↔ seconds ≠ 0) ∧
      KeepsInterval r.config.interval r.config.quiet
        ((r.begin device file).run es).startedAt
        ((r.begin device file).allReadings es) ((r.begin device file).allLines es) ∧
      KeepsInterval s.config.interval s.config.quiet start
        ((s.begin start).1.allReadings ms) ((s.begin start).1.allLines ms) := by
  have hrecorder := RecorderConfig.validate_withInterval hr
  have hreplayer := ReplayConfig.validate_withInterval hs
  have hopening : ¬(r.begin device file).IsSetUp := fun h => h.1 rfl
  exact ⟨hrecorder, hreplayer,
    .of_lines ((hrecorder _).1 hr) (Recording.allLines_of_not_isSetUp hopening es),
    .of_lines ((hreplayer _).1 hs) (ReplaySession.allLines_begin s start ms)⟩

/-- A recorder with blocks of one sample. -/
def Recording.ticking (interval : UInt64) : Recording :=
  idle { RecorderConfig.initial with blockSamples := 1, interval := interval } 0

/-- It starts at some time, and takes in a chunk at each of some others. -/
def Recording.ticks (start : Int) (times : List Int) : List Event :=
  .step ⟨start, 0⟩ :: .step ⟨start, 0⟩ :: times.flatMap fun time =>
    [.step ⟨time, 0⟩, .offer ⟨7, 1, [1, 2, 3, 4]⟩, .step ⟨time, 0⟩]

/-- A session that replays a short tape over and over. -/
def ReplaySession.ticking (interval : UInt64) : ReplaySession :=
  ((idle { loopConfig with interval := interval } 0).setUp 0 (some shortTape) default).1

/-- Its steps, one after some time each. -/
def ReplaySession.ticks (start gap : Int) (steps : Nat) : List Move :=
  (List.range steps).map fun step => .step (meets shortTape (start + step * gap) none)

set_option maxRecDepth 4000 in
/-- An interval of two seconds: lines come two and two and a half seconds apart in a recording
with a chunk at every second, and as soon in a replay as a block is tried. -/
theorem lines_keep_interval_of_ticking :
    let session := (Recording.ticking 2).begin default (some .empty)
    let es := Recording.ticks 1000000000 [2000000000, 3000000000, 4000000000, 5500000000]
    let replay := ((ReplaySession.ticking 2).begin 1000000000).1
    let ms := ReplaySession.ticks 1000000000 300000000 24
    (Recording.ticking 2).config.validate = none ∧
      (ReplaySession.ticking 2).config.validate = none ∧
      session.allReadings es = [2000000000, 3000000000, 4000000000, 5500000000] ∧
      session.allLines es = [3000000000, 5500000000] ∧
      KeepsInterval 2 false 1000000000 [2000000000, 3000000000, 4000000000, 5500000000]
        [3000000000, 5500000000] ∧
      replay.allReadings ms = [3100000000, 4900000000, 7900000000] ∧
      replay.allLines ms = [3100000000, 7900000000] ∧
      KeepsInterval 2 false 1000000000 [3100000000, 4900000000, 7900000000]
        [3100000000, 7900000000] := by
  intro session es replay ms
  have hr : (Recording.ticking 2).config.validate = none := by decide +kernel
  have hs : (ReplaySession.ticking 2).config.validate = none := by decide +kernel
  have hconfig : (ReplaySession.ticking 2).config =
      { ReplaySession.loopConfig with interval := 2 } := by decide +kernel
  have hstarted : (session.run es).startedAt = 1000000000 := by decide +kernel
  have hreadings : session.allReadings es =
      [2000000000, 3000000000, 4000000000, 5500000000] := by decide +kernel
  have hlines : session.allLines es = [3000000000, 5500000000] := by decide +kernel
  have hreplayed : replay.allReadings ms = [3100000000, 4900000000, 7900000000] := by
    decide +kernel
  have hshown : replay.allLines ms = [3100000000, 7900000000] := by decide +kernel
  obtain ⟨-, -, hrecorder, hreplayer⟩ :=
    lines_keep_interval hr hs default (some .empty) es 1000000000 ms
  rw [hstarted, hreadings, hlines] at hrecorder
  rw [hconfig, hreplayed, hshown] at hreplayer
  exact ⟨hr, hs, hreadings, hlines, hrecorder, hreplayed, hshown, hreplayer⟩

set_option maxRecDepth 4000 in
/-- **A line before the interval has passed.**  The longest interval of all, which the check of
the settings takes, is compared as if it were a second ago, and in either program the first
reading of the clock brings a line: one nanosecond after the beginning of a recording, and
seven after that of a replay.  An interval of 584 years passes for less than a third of a second,
and the shortest that is too long for a time that is long gone. -/
theorem line_before_interval :
    let session := (Recording.ticking 18446744073709551615).begin default (some .empty)
    let es := Recording.ticks 1 [2]
    let replay := ((ReplaySession.ticking 18446744073709551615).begin 1).1
    let ms := ReplaySession.ticks 1 1 8
    (Recording.ticking 18446744073709551615).config.validate = none ∧
      (ReplaySession.ticking 18446744073709551615).config.validate = none ∧
      intervalNanos 18446744073709551615 = -1000000000 ∧
      (session.run es).startedAt = 1 ∧ session.allLines es = [2] ∧
      replay.allLines ms = [8] ∧
      ¬((18446744073709551615 : UInt64).toNat * nanosPerSecond : Int) ≤ 8 - 1 ∧
      intervalNanos 18446744074 = 290448384 ∧
      intervalNanos 9223372037 = -9223372036709551616 := by
  decide +kernel

end IqTape
