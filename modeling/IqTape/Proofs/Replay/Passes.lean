import IqTape.Proofs.Replay.Promptness

/-!
# What the loops counter counts

A pass over the tape begins when the session finds that it is not to stop, and it ends in one of
three ways: nothing is left on the tape, the source fails, or the session is to stop.  The report
calls the counter that goes up then the number of loops completed; but it goes up at every end,
so that it is the number of passes that were read to the end of the tape only if nothing else has
ended one.

## Main definitions

* `PassEnd`, `ReplaySession.passEnd?` — the ends of a pass, and the one that the next step makes.
* `ReplaySession.passEnds` — the ends of the passes in some moves.

## Main results

* `ReplaySession.nothing_left_of_complete` — a complete pass has come to the end of the tape.
* `ReplaySession.ends_step`, `ReplaySession.ends_play` — a pass is counted once it has ended.
* `ReplaySession.stopped_ends` — a stop ends one pass at most, and that is the last.
* `ReplaySession.loops_of_replay` — **what the counter says of a whole replay**.
-/

namespace IqTape

/-- How a pass over the tape ends. -/
inductive PassEnd
  /-- There is no block left on the tape. -/
  | complete
  /-- The source of the tape fails. -/
  | broken
  /-- The session is to stop. -/
  | stopped
  deriving DecidableEq, Repr

namespace ReplayPhase

/-- Passes that have ended and are still to be counted. -/
def uncounted : ReplayPhase → UInt64
  | closing => 1
  | _ => 0

/-- Passes that have begun and not ended.  One whose tape cannot be opened never ends. -/
def unended : ReplayPhase → Nat
  | between | closing => 0
  | finishing ok | «over» ok => if ok then 0 else 1
  | _ => 1

theorem unended_le (phase : ReplayPhase) : phase.unended ≤ 1 := by
  unfold unended
  split
  · exact Nat.zero_le 1
  · exact Nat.zero_le 1
  · split <;> decide
  · split <;> decide
  · exact Nat.le_refl 1

end ReplayPhase

namespace ReplaySession

/-! ### The ends of the passes -/

/-- How the next step ends the pass, if it does. -/
def passEnd? (s : ReplaySession) : Option PassEnd :=
  match s.phase with
  | .reading =>
    if s.stopping then some .stopped
    else if s.reader.next.1.isSome then none
    else some (if s.reader.next.2.failed then .broken else .complete)
  | .deciding _ => if s.stopping then some .stopped else none
  | _ => none

/-- The end that a move makes to a pass, if it does. -/
def Move.passEnds (s : ReplaySession) : Move → List PassEnd
  | step _ => s.passEnd?.toList
  | store _ => []

/-- The ends of the passes in some moves. -/
def passEnds (s : ReplaySession) : List Move → List PassEnd
  | [] => []
  | m :: ms => m.passEnds s ++ (s.after m).passEnds ms

variable {s : ReplaySession} {out : Outcome}

/-- **A complete pass has come to the end of the tape.** -/
theorem nothing_left_of_complete (h : s.passEnd? = some .complete) : s.reader.left = [] := by
  unfold passEnd? at h
  split at h
  · split at h
    · cases h
    · split at h
      · cases h
      · next hnone =>
        rw [Option.not_isSome_iff_eq_none] at hnone
        have hnext : s.reader.next = (none, s.reader.next.2) := Prod.ext hnone rfl
        exact Reader.left_of_next_none hnext
  · split at h <;> cases h
  · cases h

/-- Only a session that is to stop ends a pass for that. -/
theorem passEnd?_eq_stopped_iff {e : PassEnd} (h : s.passEnd? = some e) :
    e = .stopped ↔ s.stopping = true := by
  unfold passEnd? at h
  split at h
  · split at h
    · next hstop =>
      cases h
      exact iff_of_true rfl hstop
    · next hgo =>
      split at h
      · cases h
      · cases h
        refine iff_of_false ?_ hgo
        split <;> nofun
  · split at h
    · next hstop =>
      cases h
      exact iff_of_true rfl hstop
    · cases h
  · cases h

/-! ### What is counted -/

/-- A step that ends a pass leaves one more to be counted, and one less that has not ended. -/
structure Ends (s : ReplaySession) (out : Outcome) : Prop where
  loops : out.1.counters.loops + out.1.phase.uncounted =
    s.counters.loops + s.phase.uncounted + s.passEnd?.toList.length.toUInt64
  passes : out.1.passes + s.phase.unended =
    s.passes + out.1.phase.unended + s.passEnd?.toList.length

/-- A step within a pass, or outside of one, counts nothing. -/
theorem Ends.of_none {phase : ReplayPhase} (hphase : s.phase = phase) (hnone : s.passEnd? = none)
    (hloops : out.1.counters.loops = s.counters.loops)
    (huncounted : out.1.phase.uncounted = phase.uncounted)
    (hpasses : out.1.passes + phase.unended = s.passes + out.1.phase.unended) : s.Ends out := by
  subst hphase
  refine ⟨?_, by rw [hnone]; exact hpasses⟩
  rw [hnone, hloops, huncounted]
  exact (UInt64.add_zero _).symm

/-- A step that ends a pass has still to count it. -/
theorem Ends.of_some {phase : ReplayPhase} {e : PassEnd} (hphase : s.phase = phase)
    (hend : s.passEnd? = some e) (hloops : out.1.counters.loops = s.counters.loops)
    (hpasses : out.1.passes = s.passes)
    (hbefore : phase.uncounted = 0 ∧ phase.unended = 1) (hafter : out.1.phase = .closing) :
    s.Ends out := by
  subst hphase
  refine ⟨?_, ?_⟩
  · rw [hend, hloops, hbefore.1, hafter, UInt64.add_zero]
    rfl
  · rw [hend, hpasses, hbefore.2, hafter]
    rfl

theorem loops_countWait (c : ReplayCounters) (error : UInt64) (underrun : Bool) :
    (countWait c error underrun).loops = c.loops := by
  cases underrun <;> rfl

theorem ends_startPass (now : Int) (hphase : s.phase = .between) : s.Ends (s.startPass now) := by
  have hnone : s.passEnd? = none := by rw [passEnd?, hphase]
  unfold startPass
  split
  · exact .of_none hphase hnone rfl rfl rfl
  · simp only
    split <;> exact .of_none hphase hnone rfl rfl rfl

theorem ends_openTape (tape : Option Source) (hphase : s.phase = .opening) :
    s.Ends (s.openTape tape) := by
  have hnone : s.passEnd? = none := by rw [passEnd?, hphase]
  unfold openTape
  split <;> exact .of_none hphase hnone rfl rfl rfl

/-- A pass ends where there is no further block to read, and where a stop comes first. -/
theorem ends_read (hphase : s.phase = .reading) : s.Ends s.read := by
  unfold read
  split
  · next hstop =>
    have hend : s.passEnd? = some .stopped := by
      rw [passEnd?, hphase]
      exact if_pos hstop
    exact .of_some hphase hend rfl rfl ⟨rfl, rfl⟩ rfl
  · next hgo =>
    rcases hnext : s.reader.next with ⟨_ | b, later⟩
    · have hend : s.passEnd? = some (if later.failed then .broken else .complete) := by
        simp [passEnd?, hphase, hgo, hnext]
      exact .of_some hphase hend rfl rfl ⟨rfl, rfl⟩ rfl
    · have hnone : s.passEnd? = none := by simp [passEnd?, hphase, hgo, hnext]
      exact .of_none hphase hnone rfl rfl rfl

theorem ends_await (now : Int) {b : Block} {w : Wait} (hphase : s.phase = .waiting b w) :
    s.Ends (s.await now b w) := by
  have hnone : s.passEnd? = none := by rw [passEnd?, hphase]
  unfold await
  rcases w.step s.paused now s.schedule with ⟨next, schedule, nap⟩
  cases next with
  | due error underrun =>
    exact .of_none hphase hnone (loops_countWait s.counters error underrun) rfl rfl
  | _ => exact .of_none hphase hnone rfl rfl rfl

/-- A stop ends a pass before a block is sent, and the block stays behind. -/
theorem ends_frame {b : Block} (hphase : s.phase = .deciding b) : s.Ends (s.frame b) := by
  unfold frame
  split
  · next hstop =>
    have hend : s.passEnd? = some .stopped := by
      rw [passEnd?, hphase]
      exact if_pos hstop
    exact .of_some hphase hend rfl rfl ⟨rfl, rfl⟩ rfl
  · next hgo =>
    have hnone : s.passEnd? = none := by
      rw [passEnd?, hphase]
      exact if_neg hgo
    split <;> exact .of_none hphase hnone rfl rfl rfl

theorem ends_send (fault : Option String) {b : Block} {datagram : Bytes}
    (hphase : s.phase = .sending b datagram) : s.Ends (s.send fault b datagram) := by
  have hnone : s.passEnd? = none := by rw [passEnd?, hphase]
  unfold send
  split <;> exact .of_none hphase hnone rfl rfl rfl

theorem ends_count (now : Int) {b : Block} (hphase : s.phase = .tried b) :
    s.Ends (s.count now b) := by
  have hnone : s.passEnd? = none := by rw [passEnd?, hphase]
  unfold count
  simp only
  split <;> exact .of_none hphase hnone rfl rfl rfl

/-- The pass that has ended is counted, however it did and whatever comes next. -/
theorem ends_endPass (hphase : s.phase = .closing) : s.Ends s.endPass := by
  have hnone : s.passEnd? = none := by rw [passEnd?, hphase]
  have hcounted {phase : ReplayPhase} {said : List ReplayNotice}
      (hafter : phase.uncounted = 0 ∧ phase.unended = 0) :
      s.Ends ({ s with counters := s.counters.addLoop, phase := phase }, .nothing, said) := by
    refine ⟨?_, ?_⟩
    · rw [hnone, hphase, hafter.1]
      rfl
    · rw [hnone, hphase, hafter.2]
      rfl
  unfold endPass
  simp only
  split
  · exact hcounted ⟨rfl, rfl⟩
  · split <;> exact hcounted ⟨rfl, rfl⟩

/-- **A step ends a pass or counts one, or does neither.** -/
theorem ends_step (s : ReplaySession) (outside : Surroundings) : s.Ends (s.step outside) := by
  unfold step
  cases hphase : s.phase with
  | between => exact ends_startPass _ hphase
  | opening => exact ends_openTape _ hphase
  | reading => exact ends_read hphase
  | waiting b w => exact ends_await _ hphase
  | deciding b => exact ends_frame hphase
  | sending b datagram => exact ends_send _ hphase
  | tried b => exact ends_count _ hphase
  | closing => exact ends_endPass hphase
  | finishing ok => exact .of_none hphase (by rw [passEnd?, hphase]) rfl rfl rfl
  | «over» ok => exact .of_none rfl (by rw [passEnd?, hphase]) rfl rfl rfl

/-- **A run counts the passes that end in it.** -/
theorem ends_play (s : ReplaySession) (ms : List Move) :
    (s.play ms).counters.loops + (s.play ms).phase.uncounted =
        s.counters.loops + s.phase.uncounted + (s.passEnds ms).length.toUInt64 ∧
      (s.play ms).passes + s.phase.unended =
        s.passes + (s.play ms).phase.unended + (s.passEnds ms).length := by
  induction ms generalizing s with
  | nil => exact ⟨(UInt64.add_zero _).symm, rfl⟩
  | cons m ms ih =>
    obtain ⟨hloops, hpasses⟩ := ih (s.after m)
    have hmove : (s.after m).counters.loops + (s.after m).phase.uncounted =
          s.counters.loops + s.phase.uncounted + (m.passEnds s).length.toUInt64 ∧
        (s.after m).passes + s.phase.unended =
          s.passes + (s.after m).phase.unended + (m.passEnds s).length := by
      cases m with
      | step outside => exact ⟨(ends_step s outside).loops, (ends_step s outside).passes⟩
      | store f => cases f <;> exact ⟨(UInt64.add_zero _).symm, rfl⟩
    have hsum : (m.passEnds s ++ (s.after m).passEnds ms).length.toUInt64 =
        (m.passEnds s).length.toUInt64 + ((s.after m).passEnds ms).length.toUInt64 := by
      rw [List.length_append, toUInt64_add]
    rw [play, passEnds, hsum]
    refine ⟨by rw [hloops, hmove.1, UInt64.add_assoc], ?_⟩
    rw [List.length_append]
    have hafter := hmove.2
    omega

/-! ### What a stop ends -/

/-- Once the session is to stop, at most one pass ends. -/
theorem length_passEnds_of_stopping (hs : s.stopping = true) (ms : List Move) :
    (s.passEnds ms).length ≤ 1 := by
  have hpasses := (ends_play s ms).2
  rw [(play_of_stopping hs ms).2] at hpasses
  have hone := s.phase.unended_le
  omega

/-- **A stop ends the last pass, or none.** -/
theorem stopped_ends (s : ReplaySession) (ms : List Move) :
    PassEnd.stopped ∉ (s.passEnds ms).dropLast ∧
      (PassEnd.stopped ∈ s.passEnds ms → (s.play ms).stopping = true) := by
  induction ms generalizing s with
  | nil => exact ⟨List.not_mem_nil, fun h => absurd h List.not_mem_nil⟩
  | cons m ms ih =>
    by_cases hs : s.stopping = true
    · refine ⟨?_, fun _ => (play_of_stopping hs _).1⟩
      have hone := length_passEnds_of_stopping hs (m :: ms)
      have hnone : ((s.passEnds (m :: ms)).dropLast) = [] := by
        rw [List.eq_nil_iff_length_eq_zero, List.length_dropLast]
        omega
      rw [hnone]
      exact List.not_mem_nil
    · have hmove : PassEnd.stopped ∉ m.passEnds s := by
        cases m with
        | store f => exact List.not_mem_nil
        | step outside =>
          intro hmem
          exact hs ((passEnd?_eq_stopped_iff (Option.mem_toList.1 hmem)).1 rfl)
      obtain ⟨hlast, hstopping⟩ := ih (s.after m)
      rw [passEnds, play]
      refine ⟨?_, fun hmem => hstopping ((List.mem_append.1 hmem).resolve_left hmove)⟩
      intro hmem
      rcases hrest : (s.after m).passEnds ms with _ | ⟨e, es⟩
      · rw [hrest, List.append_nil] at hmem
        exact hmove (List.dropLast_subset _ hmem)
      · rw [hrest] at hmem hlast
        rw [List.dropLast_append_cons] at hmem
        rcases List.mem_append.1 hmem with hfirst | hlater
        · exact hmove hfirst
        · exact hlast hlater

/-! ### A whole replay -/

/-- The report has the counter. -/
theorem loops_completed (s : ReplaySession) :
    s.toJson.field? "loops_completed" = some (.nat s.counters.loops.toNat) := rfl

/-- **What the loops counter says of a replay.**  Whatever the settings, whatever the tape is at
each pass, and wherever a stop comes in: the counter, which the report calls the loops completed,
goes up by one for each pass that has ended, which are all that began but one whose tape could
not be opened.  A stop may have ended the last of them, and no other.  So the counter is the
number of the passes that came to the end of the tape exactly if every pass did. -/
theorem loops_of_replay (hready : s.ready = true) (start : Int) (ms : List Move) {ok : Bool}
    (hover : ((s.begin start).1.play ms).phase = .over ok) :
    let last := (s.begin start).1.play ms
    let ends := (s.begin start).1.passEnds ms
    last.toJson.field? "loops_completed" = some (.nat last.counters.loops.toNat) ∧
      last.counters.loops = s.counters.loops + ends.length.toUInt64 ∧
      last.passes = ends.length + (if ok then 0 else 1) ∧
      PassEnd.stopped ∉ ends.dropLast ∧
      (PassEnd.stopped ∈ ends → last.stopping = true) ∧
      (ends.length < 2 ^ 64 →
        (last.counters.loops = s.counters.loops + (ends.count .complete).toUInt64 ↔
          ∀ e ∈ ends, e = .complete)) := by
  intro last ends
  have hbegin : (s.begin start).1.phase = .between ∧
      (s.begin start).1.counters = s.counters ∧ (s.begin start).1.passes = 0 := by
    simp [begin, hready]
  obtain ⟨hphase, hcounters, hpasses⟩ := hbegin
  obtain ⟨hcounted, hbegun⟩ := ends_play (s.begin start).1 ms
  rw [hover, hphase, hcounters] at hcounted
  rw [hover, hphase, hpasses] at hbegun
  have hloops : last.counters.loops = s.counters.loops + ends.length.toUInt64 := by
    simpa only [ReplayPhase.uncounted, UInt64.add_zero] using hcounted
  have hall : last.passes = ends.length + (if ok then 0 else 1) := by
    simpa only [ReplayPhase.unended, Nat.add_zero, Nat.zero_add, Nat.add_comm] using hbegun
  obtain ⟨hlast, hstopping⟩ := stopped_ends (s.begin start).1 ms
  refine ⟨loops_completed last, hloops, hall, hlast, hstopping, ?_⟩
  intro hfew
  have hle : ends.count .complete ≤ ends.length := List.count_le_length
  rw [hloops, UInt64.add_right_inj]
  constructor
  · intro hsame e he
    have hnat : ends.length = ends.count .complete := by
      have hwords := congrArg UInt64.toNat hsame
      rwa [Nat.toUInt64_eq, Nat.toUInt64_eq, UInt64.toNat_ofNat_of_lt' hfew,
        UInt64.toNat_ofNat_of_lt' (Nat.lt_of_le_of_lt hle hfew)] at hwords
    exact (List.count_eq_length.1 hnat.symm e he).symm
  · intro hcomplete
    rw [List.count_eq_length.2 fun e he => (hcomplete e he).symm]

/-- The session that is to replay the short tape over and over. -/
def readySession : ReplaySession := ((idle loopConfig 0).setUp 0 (some shortTape) default).1

/-- A stop after some steps, and six steps behind it. -/
def stopAfter (n : Nat) : List Move :=
  List.replicate n shortStep ++ .store .stop :: List.replicate 6 shortStep

set_option maxRecDepth 4000 in
/-- A stop in front of the second datagram of the second pass: two passes are counted, and one
has come to the end of the tape. -/
theorem loops_of_replay_of_readySession :
    let last := (readySession.begin 0).1.play (stopAfter 29)
    let ends := (readySession.begin 0).1.passEnds (stopAfter 29)
    last.phase = .over true ∧ ends = [.complete, .stopped] ∧ last.passes = 2 ∧
      last.stopping = true ∧
      last.counters.loops = readySession.counters.loops + 2 ∧
      last.counters.loops ≠ readySession.counters.loops + 1 := by
  have hready : readySession.ready = true := by decide +kernel
  have hover : ((readySession.begin 0).1.play (stopAfter 29)).phase = .over true := by
    decide +kernel
  have hends : (readySession.begin 0).1.passEnds (stopAfter 29) = [.complete, .stopped] := by
    decide +kernel
  obtain ⟨-, hloops, hpasses, -, hstopping, hexact⟩ :=
    loops_of_replay hready 0 (stopAfter 29) hover
  have htwo : [PassEnd.complete, .stopped].length.toUInt64 = 2 := rfl
  have hone : [PassEnd.complete, .stopped].count .complete = 1 := rfl
  rw [hends] at hloops hpasses hstopping hexact
  rw [htwo] at hloops
  rw [hone] at hexact
  have hnot : ¬ ∀ e ∈ [PassEnd.complete, .stopped], e = .complete := by decide
  exact ⟨hover, hends, hpasses, hstopping (by decide), hloops,
    fun hsame => hnot ((hexact (by decide)).1 hsame)⟩

set_option maxRecDepth 4000 in
/-- **A pass that a stop cuts short is counted**, too: the stop comes in front of the first
datagram, no pass comes to the end of the tape, and the counter says one. -/
theorem cut_pass_is_counted :
    let last := (readySession.begin 0).1.play (stopAfter 6)
    let ends := (readySession.begin 0).1.passEnds (stopAfter 6)
    readySession.counters.loops = 0 ∧ last.phase = .over true ∧ ends = [.stopped] ∧
      ends.count .complete = 0 ∧ last.counters.loops = 1 ∧
      last.toJson.field? "loops_completed" = some (.nat 1) := by
  have hends : (readySession.begin 0).1.passEnds (stopAfter 6) = [.stopped] := by decide +kernel
  have hloops : ((readySession.begin 0).1.play (stopAfter 6)).counters.loops = 1 := by
    decide +kernel
  have hnone : ((readySession.begin 0).1.passEnds (stopAfter 6)).count .complete = 0 := by
    rw [hends]
    decide
  have hreport := loops_completed ((readySession.begin 0).1.play (stopAfter 6))
  rw [hloops] at hreport
  exact ⟨by decide +kernel, by decide +kernel, hends, hnone, hloops, hreport⟩

end ReplaySession

end IqTape
