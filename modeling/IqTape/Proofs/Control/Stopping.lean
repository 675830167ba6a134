import IqTape.Control.Server
import IqTape.Proofs.Replay.Promptness

/-!
# A stop and the pauses behind it

A request to stop also ends a pause, since a replay that is held up by a pause looks at nothing
but the pause flag.  A request to pause, though, is carried out whether the session is to stop
or not.  So a session that is to stop is paused just when a pause has come in behind the stop and
has not been taken back, and then the replay is held up as by any other pause.  If no pause comes
in behind the stop then the replay has at most seven steps to make.

## Main definitions

* `commandOf`, `movesOf` — the command that a line names, and the moves that it consists of.
* `ReplaySession.Move.pausing?` — what a move makes of the pause flag.
* `ReplayPhase.remaining` — how many steps are left to a session that is to stop.

## Main results

* `serve_eq_play` — what clients send is moves.
* `ReplaySession.paused_play` — the pause flag is as the last store to it left it.
* `ReplaySession.remaining_play` — each step brings a session that is to stop nearer to its end.
* `ReplaySession.phase_of_held` — nothing but a store to the pause flag ends a pause.
* `ReplaySession.held_by_later_pause` — **only a pause behind the stop holds a session up.**
-/

namespace IqTape

open ReplaySession

/-! ### Lines as moves -/

/-- The command that a line names, if it names one. -/
def commandOf [JsonLibrary] (line : Bytes) : Option ControlCommand :=
  match JsonLibrary.readAll line with
  | .ok request => (ControlCommand.ofRequest request).toOption
  | .error _ => none

/-- Whether a line has an answer: it is read, or refused with words that are a text. -/
def hasAnswer [JsonLibrary] (line : Bytes) : Bool :=
  match JsonLibrary.readAll line with
  | .ok _ => true
  | .error f => f.text?.isSome

/-- The moves that a line consists of. -/
def movesOf [JsonLibrary] (line : Bytes) : List Move :=
  match commandOf line with
  | some c => c.stores.map .store
  | none => []

/-- The session after a line is the session after the moves that the line consists of. -/
theorem answerLine_eq_play [JsonLibrary] (now : Int) (clients : Nat) (line : Bytes)
    (s : ReplaySession) :
    (answerLine now clients line s).map Prod.snd =
      if hasAnswer line then some (s.play (movesOf line)) else none := by
  unfold answerLine movesOf commandOf hasAnswer
  cases JsonLibrary.readAll line with
  | error f =>
    simp only
    cases f.text? <;> rfl
  | ok request =>
    unfold respond
    simp only
    cases ControlCommand.ofRequest request with
    | error f => rfl
    | ok c => exact congrArg some (play_stores s c).symm

namespace ReplaySession

theorem play_append (s : ReplaySession) (ms later : List Move) :
    s.play (ms ++ later) = (s.play ms).play later := by
  induction ms generalizing s with
  | nil => rfl
  | cons m ms ih => exact ih (s.after m)

end ReplaySession

/-- Behind a line that has no answer nothing is carried out. -/
theorem answerLines_eq_play [JsonLibrary] (now : Int) (clients : Nat) (lines : List Bytes)
    (s : ReplaySession) :
    (answerLines now clients lines s).2.1 =
      s.play ((lines.takeWhile hasAnswer).flatMap movesOf) := by
  induction lines generalizing s with
  | nil => rfl
  | cons line rest ih =>
    have hline := answerLine_eq_play now clients line s
    cases hanswer : answerLine now clients line s with
    | none =>
      have hnone : hasAnswer line = false := by
        rw [hanswer] at hline
        cases hhas : hasAnswer line with
        | false => rfl
        | true => simp [hhas] at hline
      rw [answerLines, hanswer, List.takeWhile_cons_of_neg (Bool.eq_false_iff.1 hnone)]
      rfl
    | some answered =>
      obtain ⟨answer, later⟩ := answered
      cases hhas : hasAnswer line with
      | false => simp [hanswer, hhas] at hline
      | true =>
        rw [hanswer, hhas, if_pos rfl] at hline
        have hlater : later = s.play (movesOf line) := Option.some.inj hline
        rw [answerLines, hanswer, List.takeWhile_cons_of_pos hhas, List.flatMap_cons, play_append,
          ← hlater]
        exact ih later

/-- **All that a client sends comes down to moves**, up to a line that ends the program. -/
theorem serve_eq_play [JsonLibrary] (now : Int) (clients : Nat) (bs : Bytes) (s : ReplaySession) :
    (serve now clients bs s).2 = s.play (((linesOf bs).takeWhile hasAnswer).flatMap movesOf) :=
  answerLines_eq_play now clients (linesOf bs) s

namespace ReplaySession

/-! ### The pause flag -/

/-- What a move makes of the pause flag, if it stores to it. -/
def Move.pausing? : Move → Option Bool
  | store .pause => some true
  | store .unpause => some false
  | _ => none

theorem movesOf_eq [JsonLibrary] {line : Bytes} {c : ControlCommand}
    (hline : commandOf line = some c) : movesOf line = c.stores.map .store := by
  rw [movesOf, hline]

/-- Only a request to pause sets the pause flag. -/
theorem pausing?_of_mem_movesOf [JsonLibrary] {line : Bytes}
    (hline : commandOf line ≠ some .pause) :
    ∀ m ∈ movesOf line, m.pausing? ≠ some true := by
  unfold movesOf
  cases hcommand : commandOf line with
  | none => exact List.forall_mem_nil _
  | some c =>
    cases c with
    | status => exact List.forall_mem_nil _
    | stats => exact List.forall_mem_nil _
    | pause => exact absurd hcommand hline
    | resume =>
      intro m hm
      rw [List.mem_singleton.1 hm]
      decide
    | stop =>
      intro m hm
      rcases List.mem_cons.1 hm with rfl | hm
      · decide
      · rw [List.mem_singleton.1 hm]
        decide

variable {s : ReplaySession}

theorem paused_after (s : ReplaySession) (m : Move) :
    (s.after m).paused = m.pausing?.getD s.paused := by
  cases m with
  | step outside => exact (heeds_step s outside).paused
  | store f => cases f <;> rfl

/-- The pause flag is as the last store to it left it. -/
theorem paused_play (s : ReplaySession) (ms : List Move) :
    (s.play ms).paused = (ms.filterMap Move.pausing?).getLast?.getD s.paused := by
  induction ms generalizing s with
  | nil => rfl
  | cons m ms ih =>
    rw [play, ih, paused_after]
    cases hm : m.pausing? with
    | none => rw [List.filterMap_cons_none hm]; rfl
    | some flag => rw [List.filterMap_cons_some hm, List.getLast?_cons]; rfl

end ReplaySession

/-! ### The way to the end -/

/-- How many steps are left to a wait and what comes behind it. -/
def Wait.remaining : Wait → Nat
  | sleeping _ | due _ _ => 5
  | pacing _ => 6
  | arriving _ | paused _ _ => 7

/-- How many steps are left, at the most, to a session that is to stop and is not paused. -/
def ReplayPhase.remaining : ReplayPhase → Nat
  | «over» _ => 0
  | finishing _ => 1
  | between => 2
  | closing => 3
  | reading | deciding _ => 4
  | opening | tried _ => 5
  | sending _ _ => 6
  | waiting _ w => w.remaining

theorem ReplayPhase.remaining_le (phase : ReplayPhase) : phase.remaining ≤ 7 := by
  unfold remaining
  split <;> first
    | decide
    | (unfold Wait.remaining; split <;> decide)

/-- At the end, and only there, no steps are left. -/
theorem ReplayPhase.of_remaining {phase : ReplayPhase} (h : phase.remaining = 0) :
    ∃ ok, phase = .over ok := by
  cases phase with
  | «over» ok => exact ⟨ok, rfl⟩
  | waiting b w => cases w <;> cases h
  | _ => cases h

/-- A wait that no pause holds up comes to its end or nearer to it. -/
theorem Wait.remaining_step (w : Wait) (now : Int) (schedule : Schedule) :
    (∃ error underrun, (w.step false now schedule).1 = .due error underrun) ∨
      (w.step false now schedule).1.remaining < w.remaining := by
  cases w with
  | arriving timestamp => exact .inr (Nat.lt_succ_self 6)
  | paused timestamp since => exact .inr (Nat.lt_succ_self 6)
  | pacing timestamp =>
    rw [step]
    simp only
    split
    · exact .inr (Nat.lt_succ_self 5)
    · exact .inl ⟨_, _, rfl⟩
  | sleeping target => exact .inl ⟨_, _, rfl⟩
  | due error underrun => exact .inl ⟨error, underrun, rfl⟩

theorem Wait.lt_remaining (w : Wait) : 4 < w.remaining := by
  unfold remaining
  split <;> decide

namespace ReplaySession

/-- Whether a move is a step of the replay. -/
def Move.isStep : Move → Bool
  | step _ => true
  | store _ => false

variable {s : ReplaySession}

theorem remaining_await (now : Int) (b : Block) (w : Wait) (hgo : s.paused = false) :
    (s.await now b w).1.phase.remaining < w.remaining := by
  have hstep := w.remaining_step now s.schedule
  unfold await
  rw [hgo]
  rcases hw : w.step false now s.schedule with ⟨next, schedule, nap⟩
  rw [hw] at hstep
  -- A block that is due has its wait behind it.
  cases next with
  | due error underrun => exact w.lt_remaining
  | _ =>
    rcases hstep with ⟨error, underrun, hdue⟩ | hnearer
    · cases hdue
    · exact hnearer

/-- **A step brings a session that is to stop nearer to its end, unless a pause holds it up.** -/
theorem remaining_step (hs : s.stopping = true) (hgo : s.paused = false)
    (outside : Surroundings) : (s.step outside).1.phase.remaining ≤ s.phase.remaining - 1 := by
  unfold step
  cases hphase : s.phase with
  | between =>
    change (s.startPass outside.now).1.phase.remaining ≤ 1
    rw [startPass, if_pos hs]
    exact Nat.le_refl 1
  | opening =>
    change (s.openTape outside.tape).1.phase.remaining ≤ 4
    unfold openTape
    split
    · exact Nat.le_add_left 1 3
    · exact Nat.le_refl 4
  | reading =>
    change s.read.1.phase.remaining ≤ 3
    rw [read, if_pos hs]
    exact Nat.le_refl 3
  | waiting b w => exact Nat.le_pred_of_lt (remaining_await outside.now b w hgo)
  | deciding b =>
    change (s.frame b).1.phase.remaining ≤ 3
    rw [frame, if_pos hs]
    exact Nat.le_refl 3
  | sending b datagram =>
    change (s.send outside.sendFault b datagram).1.phase.remaining ≤ 5
    unfold send
    split <;> exact Nat.le_refl 5
  | tried b =>
    change (s.count outside.now b).1.phase.remaining ≤ 4
    unfold count
    simp only
    split <;> exact Nat.le_refl 4
  | closing =>
    change s.endPass.1.phase.remaining ≤ 2
    unfold endPass
    simp only
    split
    · exact Nat.le_succ 1
    · split
      · exact Nat.le_succ 1
      · exact Nat.le_refl 2
  | finishing ok => exact Nat.le_refl 0
  | «over» ok =>
    simp only [hphase]
    exact Nat.le_refl 0

/-- Every step counts, as long as nothing sets the pause flag. -/
theorem remaining_play (hs : s.stopping = true) (hgo : s.paused = false) {ms : List Move}
    (hms : ∀ m ∈ ms, m.pausing? ≠ some true) :
    (s.play ms).phase.remaining ≤ s.phase.remaining - ms.countP Move.isStep := by
  induction ms generalizing s with
  | nil => exact Nat.le_refl _
  | cons m ms ih =>
    have hpaused : (s.after m).paused = false := by
      rw [paused_after, hgo]
      have hm := hms m List.mem_cons_self
      cases hflag : m.pausing? with
      | none => rfl
      | some flag =>
        rw [hflag] at hm
        exact Bool.eq_false_iff.2 fun hset => hm (congrArg some hset)
    have hlater : ∀ m ∈ ms, m.pausing? ≠ some true := fun m hm => hms m (List.mem_cons_of_mem _ hm)
    cases m with
    | step outside =>
      have hstopping : (s.step outside).1.stopping = true :=
        (heeds_step s outside).stopping.trans hs
      have hstep : (s.after (.step outside)).phase.remaining ≤ s.phase.remaining - 1 :=
        remaining_step hs hgo outside
      have hrest := ih (s := s.after (.step outside)) hstopping hpaused hlater
      rw [play, List.countP_cons_of_pos rfl]
      omega
    | store f =>
      have hphase : (f.apply s).phase = s.phase := by cases f <;> rfl
      rw [play, List.countP_cons_of_neg Bool.false_ne_true, ← hphase]
      exact ih (s := s.after (.store f)) (f.stopping_apply hs) hpaused hlater

/-! ### Held up -/

/-- **Nothing but a store to the pause flag ends a pause**, also when the session is to stop. -/
theorem phase_of_held {b : Block} {timestamp : UInt64} {since : Int} (hpaused : s.paused = true)
    (hphase : s.phase = .waiting b (.paused timestamp since)) {ms : List Move}
    (hms : ∀ m ∈ ms, m.clears = false) :
    (s.play ms).paused = true ∧ (s.play ms).phase = .waiting b (.paused timestamp since) := by
  induction ms generalizing s with
  | nil => exact ⟨hpaused, hphase⟩
  | cons m ms ih =>
    have hmove : (s.after m).paused = true ∧
        (s.after m).phase = .waiting b (.paused timestamp since) := by
      cases m with
      | step outside =>
        refine ⟨(heeds_step s outside).paused.trans hpaused, ?_⟩
        simp only [after, step, hphase, await, hpaused, Wait.step, if_true]
      | store f =>
        cases f with
        | stop => exact ⟨hpaused, hphase⟩
        | pause => exact ⟨rfl, hphase⟩
        | unpause => exact absurd (hms _ List.mem_cons_self) (by decide)
    exact ih hmove.1 hmove.2 fun m hm => hms m (List.mem_cons_of_mem _ hm)

/-- A wait that begins while the pause flag is set is held up. -/
theorem phase_of_arriving {b : Block} {timestamp : UInt64} (hpaused : s.paused = true)
    (hphase : s.phase = .waiting b (.arriving timestamp)) (outside : Surroundings)
    {ms : List Move} (hms : ∀ m ∈ ms, m.clears = false) :
    (s.play (.step outside :: ms)).phase = .waiting b (.paused timestamp outside.now) := by
  have hfirst : (s.after (.step outside)).phase = .waiting b (.paused timestamp outside.now) := by
    simp only [after, step, hphase, await, hpaused, Wait.step, if_true]
  have hstill : (s.after (.step outside)).paused = true :=
    (heeds_step s outside).paused.trans hpaused
  exact (phase_of_held hstill hfirst hms).2

/-- **Only a pause behind the stop holds a session up.**  Whatever the clients send comes down to
stores, up to a line that ends the program; a stop consists of two, and nothing but a pause sets
the pause flag.  Stores and steps of the replay may come in any order.  As soon as both stores of
a stop have been made, the session is to stop for good, and it is paused just if the last store to
the pause flag since then set it.  If none did then seven more steps are enough to end the
replay. -/
theorem held_by_later_pause [JsonLibrary] (s : ReplaySession) :
    (∀ now clients bs, (serve now clients bs s).2 =
      s.play (((linesOf bs).takeWhile hasAnswer).flatMap movesOf)) ∧
      (∀ line, commandOf line = some .stop → movesOf line = [.store .stop, .store .unpause]) ∧
      (∀ line, commandOf line ≠ some .pause → ∀ m ∈ movesOf line, m.pausing? ≠ some true) ∧
      ∀ before between later : List Move,
        let stopped := s.play (before ++ .store .stop :: (between ++ .store .unpause :: later))
        stopped.stopping = true ∧
          stopped.paused = (later.filterMap Move.pausing?).getLast?.getD false ∧
          ((∀ m ∈ later, m.pausing? ≠ some true) →
            stopped.paused = false ∧
              (7 ≤ later.countP Move.isStep → ∃ ok, stopped.phase = .over ok)) := by
  refine ⟨fun now clients bs => serve_eq_play now clients bs s, fun line hline => movesOf_eq hline,
    fun line hline => pausing?_of_mem_movesOf hline, ?_⟩
  intro before between later stopped
  let asked := ((s.play before).after (.store .stop)).play between
  let released := asked.after (.store .unpause)
  have hstopped : stopped = released.play later := by
    change s.play (before ++ .store .stop :: (between ++ .store .unpause :: later)) = _
    rw [play_append, play, play_append, play]
  have hasked : asked.stopping = true := (play_of_stopping rfl between).1
  have hreleased : released.stopping = true := hasked
  have hpaused : stopped.paused = (later.filterMap Move.pausing?).getLast?.getD false := by
    rw [hstopped]
    exact paused_play released later
  refine ⟨by rw [hstopped]; exact (play_of_stopping hreleased later).1, hpaused, ?_⟩
  intro hlater
  have hnone : ∀ flag ∈ later.filterMap Move.pausing?, flag = false := by
    intro flag hflag
    obtain ⟨m, hm, hpausing⟩ := List.mem_filterMap.1 hflag
    exact Bool.eq_false_iff.2 fun hset => hlater m hm (hset ▸ hpausing)
  refine ⟨?_, ?_⟩
  · rw [hpaused]
    cases hlast : (later.filterMap Move.pausing?).getLast? with
    | none => rfl
    | some flag => exact hnone flag (List.mem_of_getLast? hlast)
  · intro hsteps
    have hleft := remaining_play (s := released) hreleased rfl hlater
    have hmost := released.phase.remaining_le
    rw [← hstopped] at hleft
    exact ReplayPhase.of_remaining (by omega)

/-- The session at its first block, which it waits for. -/
def waitingSession : ReplaySession := loopSession.play (List.replicate 3 shortStep)

/-- The lines of a client that asks for a stop and for a pause. -/
def stopLine : Bytes := "\x7b\"cmd\":\"stop\"\x7d".toUTF8.toList

def pauseLine : Bytes := "\x7b\"cmd\":\"pause\"\x7d".toUTF8.toList

set_option maxRecDepth 4000 in
theorem movesOf_stopLine : movesOf stopLine = [.store .stop, .store .unpause] := by
  have hcommand : commandOf stopLine = some .stop := by decide +kernel
  exact movesOf_eq hcommand

set_option maxRecDepth 4000 in
theorem movesOf_pauseLine : movesOf pauseLine = [.store .pause] := by
  have hcommand : commandOf pauseLine = some .pause := by decide +kernel
  exact movesOf_eq hcommand

/-- What the client sends when it asks for both. -/
def stopAndPause : Bytes := stopLine ++ 0x0A :: (pauseLine ++ [0x0A])

set_option maxRecDepth 4000 in
theorem movesOf_stopAndPause :
    ((linesOf stopAndPause).takeWhile hasAnswer).flatMap movesOf =
      [.store .stop, .store .unpause, .store .pause] := by
  have hlines : (linesOf stopAndPause).takeWhile hasAnswer = [stopLine, pauseLine] := by
    decide +kernel
  rw [hlines, List.flatMap_cons, List.flatMap_cons, movesOf_stopLine, movesOf_pauseLine]
  rfl

set_option maxRecDepth 4000 in
/-- A stop whose two stores come in during a pause, with a step between them, ends the replay; a
pause behind a stop sets its flag. -/
theorem held_by_later_pause_of_waitingSession :
    let ended := waitingSession.play ([.store .pause] ++ .store .stop ::
      ([shortStep] ++ .store .unpause :: List.replicate 7 shortStep))
    (ended.stopping = true ∧ ended.paused = false ∧ ∃ ok, ended.phase = .over ok) ∧
      (serve 0 1 stopAndPause waitingSession).2.paused = true := by
  intro ended
  have hclient := held_by_later_pause waitingSession
  have hended := hclient.2.2.2 [.store .pause] [shortStep] (List.replicate 7 shortStep)
  have hsteps : ∀ m ∈ List.replicate 7 shortStep, m.pausing? ≠ some true := by
    intro m hm
    rw [List.eq_of_mem_replicate hm]
    exact (Option.some_ne_none true).symm
  have hseven : 7 ≤ (List.replicate 7 shortStep).countP Move.isStep := by
    rw [List.countP_replicate, shortStep]
    exact Nat.le_refl 7
  have hfree := hended.2.2 hsteps
  refine ⟨⟨hended.1, hfree.1, hfree.2 hseven⟩, ?_⟩
  rw [hclient.1, movesOf_stopAndPause]
  exact (hclient.2.2.2 [] [] [.store .pause]).2.1

/-- A client that asks for a stop and then for a pause holds a session up that has just begun to
wait. -/
theorem held_of_stopAndPause {b : Block} {timestamp : UInt64}
    (hphase : s.phase = .waiting b (.arriving timestamp)) :
    let held := (serve 0 1 stopAndPause s).2
    held.stopping = true ∧ held.paused = true ∧
      ∀ outside : List Surroundings, outside ≠ [] → ∃ since,
        (held.play (outside.map .step)).phase = .waiting b (.paused timestamp since) := by
  intro held
  have hheld : held = s.requestStop.pause := by
    change (serve 0 1 stopAndPause s).2 = _
    rw [serve_eq_play, movesOf_stopAndPause]
    rfl
  have hpaused : held.paused = true := congrArg paused hheld
  refine ⟨congrArg stopping hheld, hpaused, fun outside hsome => ?_⟩
  cases outside with
  | nil => exact absurd rfl hsome
  | cons first rest =>
    have hclears : ∀ m ∈ rest.map Move.step, m.clears = false := by
      intro m hm
      obtain ⟨out, -, rfl⟩ := List.mem_map.1 hm
      rfl
    have hwaiting : held.phase = .waiting b (.arriving timestamp) :=
      (congrArg phase hheld).trans hphase
    exact ⟨first.now, phase_of_arriving hpaused hwaiting first hclears⟩

set_option maxRecDepth 4000 in
/-- **A pause behind the stop holds the replay up**, however many steps it makes and whatever they
meet. -/
theorem stopped_and_held :
    let held := (serve 0 1 stopAndPause waitingSession).2
    held.stopping = true ∧ held.paused = true ∧
      ∀ outside : List Surroundings, outside ≠ [] → ∃ since,
        (held.play (outside.map .step)).phase =
          .waiting ⟨7, 1, [1, 2, 3, 4], false⟩ (.paused 7 since) := by
  have hwaiting : waitingSession.phase = .waiting ⟨7, 1, [1, 2, 3, 4], false⟩ (.arriving 7) := by
    decide +kernel
  exact held_of_stopAndPause hwaiting

end ReplaySession

end IqTape
