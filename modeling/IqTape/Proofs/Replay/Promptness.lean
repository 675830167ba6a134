import IqTape.Control.Command
import IqTape.Proofs.Replay.Sending

/-!
# Stop and pause take effect within one block

A command stores its flags one after the other, and the replay looks at them in its own steps, so
between any two steps of the replay there may be any stores, of the commands of any clients.  What
matters is where the replay stands when a flag is stored.  A stop lets out the datagram that is
just about to be sent, and no other.  A pause also lets out the block whose wait has already
looked at the flag for the last time.

## Main definitions

* `FlagStore`, `ControlCommand.stores` — the stores that a command consists of.
* `ReplaySession.Move`, `ReplaySession.play` — steps of a replay with stores between them.
* `ReplaySession.datagrams` — the datagrams that are tried.
* `ReplayPhase.inHand`, `ReplayPhase.committed` — what no stop and what no pause holds up.

## Main results

* `ReplaySession.play_stores` — a command that nothing interrupts is its stores.
* `ReplaySession.heeds_step` — what a step owes to the flags.
* `ReplaySession.datagrams_of_stopping`, `ReplaySession.datagrams_of_paused` — what is still
  tried behind a stop, and behind a pause that lasts.
* `ReplaySession.flags_take_effect` — **both take effect within one block**.
-/

namespace IqTape

/-! ### Stores -/

/-- A store to one of the flags of a session. -/
inductive FlagStore
  | stop
  | pause
  | unpause
  deriving DecidableEq, Repr

def FlagStore.apply (f : FlagStore) (s : ReplaySession) : ReplaySession :=
  match f with
  | stop => { s with stopping := true }
  | pause => { s with paused := true }
  | unpause => { s with paused := false }

/-- No store takes a stop back. -/
theorem FlagStore.stopping_apply (f : FlagStore) {s : ReplaySession} (hs : s.stopping = true) :
    (f.apply s).stopping = true := by
  cases f with
  | stop => rfl
  | pause => exact hs
  | unpause => exact hs

/-- The stores of a command, in their order. -/
def ControlCommand.stores : ControlCommand → List FlagStore
  | status | stats => []
  | pause => [.pause]
  | resume => [.unpause]
  | stop => [.stop, .unpause]

/-- The datagram that is tried, if there is one. -/
def ReplayDeed.datagrams : ReplayDeed → List Bytes
  | send datagram => [datagram]
  | _ => []

/-- Whether a wait has looked at the pause flag for the last time. -/
def Wait.isFree : Wait → Bool
  | arriving _ | paused _ _ => false
  | _ => true

namespace ReplayPhase

/-- The datagram that the next step tries to send. -/
def inHand : ReplayPhase → List Bytes
  | sending _ datagram => [datagram]
  | _ => []

/-- The datagram, if there is one, of the block that is in hand, or that nothing but a stop can
hold up any more. -/
def committed : ReplayPhase → List Bytes
  | waiting b w => if w.isFree then (Datagram.encode b).toOption.toList else []
  | deciding b => (Datagram.encode b).toOption.toList
  | sending _ datagram => [datagram]
  | _ => []

variable {phase : ReplayPhase}

theorem length_inHand_le (phase : ReplayPhase) : phase.inHand.length ≤ 1 := by
  cases phase <;> first
    | exact Nat.le_refl _
    | exact Nat.zero_le _

theorem length_committed_le (phase : ReplayPhase) : phase.committed.length ≤ 1 := by
  unfold committed
  split
  · split
    · exact Option.length_toList_le
    · exact Nat.zero_le _
  · exact Option.length_toList_le
  · exact Nat.le_refl _
  · exact Nat.zero_le _

/-- What is in hand is committed. -/
theorem inHand_of_committed (h : phase.committed = []) : phase.inHand = [] := by
  cases phase <;> first
    | rfl
    | cases h

end ReplayPhase

namespace ReplaySession

/-! ### Moves -/

/-- What may happen next: a step of the replay, or a store to a flag. -/
inductive Move
  | step (outside : Surroundings)
  | store (f : FlagStore)

/-- Whether a move clears the pause flag. -/
def Move.clears : Move → Bool
  | store .unpause => true
  | _ => false

/-- The session after a move. -/
def after (s : ReplaySession) : Move → ReplaySession
  | .step outside => (s.step outside).1
  | .store f => f.apply s

/-- The datagram that is tried in a move, if there is one. -/
def Move.datagrams (s : ReplaySession) : Move → List Bytes
  | step outside => (s.step outside).2.1.datagrams
  | store _ => []

/-- The session after some moves. -/
def play (s : ReplaySession) : List Move → ReplaySession
  | [] => s
  | m :: ms => (s.after m).play ms

/-- The datagrams that are tried in some moves. -/
def datagrams (s : ReplaySession) : List Move → List Bytes
  | [] => []
  | m :: ms => m.datagrams s ++ (s.after m).datagrams ms

variable {s : ReplaySession} {out : Outcome}

/-- A command whose stores come one right after the other has the effect that it should have. -/
theorem play_stores (s : ReplaySession) (c : ControlCommand) :
    s.play (c.stores.map .store) = c.apply s := by
  cases c <;> rfl

/-! ### What a step owes to the flags -/

/-- A step leaves the flags alone and tries what is in hand.  If the session is to stop the step
takes nothing more in hand and begins no pass, and if it is paused the step commits it to nothing
more. -/
structure Heeds (s : ReplaySession) (out : Outcome) : Prop where
  stopping : out.1.stopping = s.stopping
  paused : out.1.paused = s.paused
  tries : out.2.1.datagrams = s.phase.inHand
  stops : s.stopping = true → out.1.phase.inHand = [] ∧ out.1.passes = s.passes
  holds : s.paused = true → s.phase.inHand ++ out.1.phase.committed <+: s.phase.committed

/-- Away from a block there is nothing to do for a step but to leave the flags alone. -/
theorem Heeds.of_nothing {phase : ReplayPhase} (hphase : s.phase = phase)
    (hbefore : phase.inHand = []) (hafter : out.1.phase.committed = [])
    (hstopping : out.1.stopping = s.stopping) (hpaused : out.1.paused = s.paused)
    (hdeed : out.2.1.datagrams = []) (hpasses : s.stopping = true → out.1.passes = s.passes) :
    s.Heeds out := by
  rw [← hphase] at hbefore
  refine ⟨hstopping, hpaused, by rw [hdeed, hbefore], ?_, ?_⟩
  · intro hstop
    exact ⟨ReplayPhase.inHand_of_committed hafter, hpasses hstop⟩
  · intro _
    rw [hbefore, hafter]
    exact List.nil_prefix

theorem heeds_startPass (now : Int) (hphase : s.phase = .between) :
    s.Heeds (s.startPass now) := by
  unfold startPass
  split
  · exact .of_nothing hphase rfl rfl rfl rfl rfl fun _ => rfl
  · next hgo =>
    -- A pass begins only if there has been no stop.
    simp only
    split <;> exact .of_nothing hphase rfl rfl rfl rfl rfl (absurd · hgo)

theorem heeds_openTape (tape : Option Source) (hphase : s.phase = .opening) :
    s.Heeds (s.openTape tape) := by
  unfold openTape
  split <;> exact .of_nothing hphase rfl rfl rfl rfl rfl fun _ => rfl

/-- A block that has been read has to wait, and looks at the pause flag. -/
theorem heeds_read (hphase : s.phase = .reading) : s.Heeds s.read := by
  unfold read
  split
  · exact .of_nothing hphase rfl rfl rfl rfl rfl fun _ => rfl
  · rcases s.reader.next with ⟨_ | b, later⟩ <;>
      exact .of_nothing hphase rfl rfl rfl rfl rfl fun _ => rfl

/-- While there is a pause, a wait that it can hold up is held up. -/
theorem isFree_of_step {w : Wait} (now : Int) (schedule : Schedule)
    (hfree : (w.step true now schedule).1.isFree = true) : w.isFree = true := by
  cases w <;> first
    | rfl
    | cases hfree

/-- A wait commits a session to its block only if there is no pause, and tries nothing. -/
theorem heeds_await (now : Int) {b : Block} {w : Wait} (hphase : s.phase = .waiting b w) :
    s.Heeds (s.await now b w) := by
  have hbefore : s.phase.inHand = [] := by rw [hphase]; rfl
  unfold await
  rcases hw : w.step s.paused now s.schedule with ⟨next, schedule, nap⟩
  have hdeed : ((nap.map ReplayDeed.sleep).getD .nothing).datagrams = s.phase.inHand := by
    rw [hbefore]
    cases nap <;> rfl
  have hholds (hpaused : s.paused = true) :
      s.phase.inHand ++ (ReplayPhase.waiting b next).committed <+: s.phase.committed := by
    rw [hbefore, hphase, ReplayPhase.committed, ReplayPhase.committed]
    by_cases hfree : next.isFree = true
    · rw [hpaused] at hw
      have hbefore : w.isFree = true := isFree_of_step now s.schedule (by rw [hw]; exact hfree)
      rw [if_pos hfree, if_pos hbefore]
      exact List.prefix_refl _
    · rw [if_neg hfree]
      exact List.nil_prefix
  -- A block that is due is as committed as while it was waited for.
  cases next <;> exact ⟨rfl, rfl, hdeed, fun _ => ⟨rfl, rfl⟩, hholds⟩

/-- Only a stop keeps a block that is due from being taken in hand. -/
theorem heeds_frame {b : Block} (hphase : s.phase = .deciding b) : s.Heeds (s.frame b) := by
  have hbefore : s.phase.inHand = [] := by rw [hphase]; rfl
  unfold frame
  split
  · exact .of_nothing hphase rfl rfl rfl rfl rfl fun _ => rfl
  · next hgo =>
    split
    · next datagram hframe =>
      refine ⟨rfl, rfl, hbefore.symm, fun hstop => absurd hstop hgo, fun _ => ?_⟩
      rw [hphase, ReplayPhase.committed, hframe]
      exact List.prefix_refl _
    · exact .of_nothing hphase rfl rfl rfl rfl rfl fun _ => rfl

/-- What is in hand is tried, whatever the flags say. -/
theorem heeds_send (fault : Option String) {b : Block} {datagram : Bytes}
    (hphase : s.phase = .sending b datagram) : s.Heeds (s.send fault b datagram) := by
  have hhand : s.phase.inHand = [datagram] := by rw [hphase]; rfl
  have hcommitted : s.phase.committed = [datagram] := by rw [hphase]; rfl
  unfold send
  split
  all_goals
    refine ⟨rfl, rfl, hhand.symm, fun _ => ⟨rfl, rfl⟩, fun _ => ?_⟩
    rw [hhand, hcommitted]
    exact List.prefix_refl _

theorem heeds_count (now : Int) {b : Block} (hphase : s.phase = .tried b) :
    s.Heeds (s.count now b) := by
  unfold count
  simp only
  split <;> exact .of_nothing hphase rfl rfl rfl rfl rfl fun _ => rfl

theorem heeds_endPass (hphase : s.phase = .closing) : s.Heeds s.endPass := by
  unfold endPass
  simp only
  split
  · exact .of_nothing hphase rfl rfl rfl rfl rfl fun _ => rfl
  · split <;> exact .of_nothing hphase rfl rfl rfl rfl rfl fun _ => rfl

/-- **Every step heeds the flags.** -/
theorem heeds_step (s : ReplaySession) (outside : Surroundings) : s.Heeds (s.step outside) := by
  unfold step
  cases hphase : s.phase with
  | between => exact heeds_startPass _ hphase
  | opening => exact heeds_openTape _ hphase
  | reading => exact heeds_read hphase
  | waiting b w => exact heeds_await _ hphase
  | deciding b => exact heeds_frame hphase
  | sending b datagram => exact heeds_send _ hphase
  | tried b => exact heeds_count _ hphase
  | closing => exact heeds_endPass hphase
  | finishing ok => exact .of_nothing hphase rfl rfl rfl rfl rfl fun _ => rfl
  | «over» ok =>
    have hafter : s.phase.committed = [] := by rw [hphase]; rfl
    exact .of_nothing hphase rfl hafter rfl rfl rfl fun _ => rfl

/-! ### What is still tried -/

/-- What a session tries in some moves, if in each of them what is tried and what is owed from
then on are what was owed. -/
theorem datagrams_prefix (inv : ReplaySession → Prop) (owed : ReplaySession → List Bytes)
    {ms : List Move} (hmove : ∀ m ∈ ms, ∀ s, inv s →
      inv (s.after m) ∧ m.datagrams s ++ owed (s.after m) <+: owed s) (hs : inv s) :
    s.datagrams ms <+: owed s := by
  induction ms generalizing s with
  | nil => exact List.nil_prefix
  | cons m ms ih =>
    obtain ⟨hinv, howed⟩ := hmove m List.mem_cons_self s hs
    have hlater := ih (fun m hm => hmove m (List.mem_cons_of_mem _ hm)) hinv
    exact ((List.prefix_append_right_inj _).2 hlater).trans howed

/-- **Nothing is tried after a stop but what was in hand.** -/
theorem datagrams_of_stopping (hs : s.stopping = true) (ms : List Move) :
    s.datagrams ms <+: s.phase.inHand := by
  refine datagrams_prefix (·.stopping = true) (·.phase.inHand) ?_ hs
  intro m _ s hs
  cases m with
  | step outside =>
    obtain ⟨hstopping, -, htries, hstops, -⟩ := heeds_step s outside
    refine ⟨hstopping.trans hs, [], ?_⟩
    rw [Move.datagrams, after, htries, (hstops hs).1, List.append_nil, List.append_nil]
  | store f => exact ⟨f.stopping_apply hs, by cases f <;> exact List.prefix_refl _⟩

/-- **Nothing is tried during a pause but what was committed.** -/
theorem datagrams_of_paused (hs : s.paused = true) {ms : List Move}
    (hms : ∀ m ∈ ms, m.clears = false) : s.datagrams ms <+: s.phase.committed := by
  refine datagrams_prefix (·.paused = true) (·.phase.committed) ?_ hs
  intro m hm s hs
  cases m with
  | step outside =>
    obtain ⟨-, hpaused, htries, -, hholds⟩ := heeds_step s outside
    refine ⟨hpaused.trans hs, ?_⟩
    rw [Move.datagrams, after, htries]
    exact hholds hs
  | store f =>
    cases f with
    | stop => exact ⟨hs, List.prefix_refl _⟩
    | pause => exact ⟨rfl, List.prefix_refl _⟩
    | unpause => exact absurd (hms _ hm) (by decide)

/-- A stop is never taken back, and no pass begins after it. -/
theorem play_of_stopping (hs : s.stopping = true) (ms : List Move) :
    (s.play ms).stopping = true ∧ (s.play ms).passes = s.passes := by
  induction ms generalizing s with
  | nil => exact ⟨hs, rfl⟩
  | cons m ms ih =>
    have hmove : (s.after m).stopping = true ∧ (s.after m).passes = s.passes := by
      cases m with
      | step outside =>
        obtain ⟨hstopping, -, -, hstops, -⟩ := heeds_step s outside
        exact ⟨hstopping.trans hs, (hstops hs).2⟩
      | store f => exact ⟨f.stopping_apply hs, by cases f <;> rfl⟩
    obtain ⟨hstopping, hpasses⟩ := ih hmove.1
    exact ⟨hstopping, hpasses.trans hmove.2⟩

/-- **Stop and pause take effect within one block**, wherever the session is and whatever its
settings, whatever each step meets, and whatever other stores come in between.  After the stop
flag has been stored at most one datagram is tried, and that was in hand by then; no pass begins,
and none is tried of a pass whose tape has still to be opened.  After the pause flag has been
stored at most one is tried before it is cleared, and the session was committed to that. -/
theorem flags_take_effect (s : ReplaySession) (ms : List Move) :
    let stopped := FlagStore.stop.apply s
    let held := FlagStore.pause.apply s
    ((stopped.datagrams ms).length ≤ 1 ∧ stopped.datagrams ms <+: s.phase.inHand ∧
        (stopped.play ms).passes = s.passes ∧
        ((stopped.play ms).phase = .opening →
          ∀ later, (stopped.play ms).datagrams later = [])) ∧
      (held.datagrams (ms.takeWhile fun m => !m.clears)).length ≤ 1 ∧
        held.datagrams (ms.takeWhile fun m => !m.clears) <+: s.phase.committed := by
  intro stopped held
  have hstopped := datagrams_of_stopping (s := stopped) rfl ms
  obtain ⟨hstopping, hpasses⟩ := play_of_stopping (s := stopped) rfl ms
  have hclears : ∀ m ∈ ms.takeWhile fun m => !m.clears, m.clears = false := by
    intro m hm
    have hkept := List.all_eq_true.1 (List.all_takeWhile (p := fun m : Move => !m.clears)) m hm
    rwa [Bool.not_eq_true'] at hkept
  have hheld := datagrams_of_paused (s := held) rfl hclears
  refine ⟨⟨Nat.le_trans hstopped.length_le s.phase.length_inHand_le, hstopped, hpasses, ?_⟩,
    Nat.le_trans hheld.length_le s.phase.length_committed_le, hheld⟩
  intro hopening later
  have hlater := datagrams_of_stopping hstopping later
  rw [hopening] at hlater
  exact List.prefix_nil.1 hlater

/-- A step with the short tape at hand. -/
def shortStep : Move := .step (meets shortTape 0 none)

set_option maxRecDepth 4000 in
/-- A stop before the tape is opened lets nothing out, and one in front of a datagram lets that
out; so does a pause while the block is waited for, and the next comes after the pause. -/
theorem flags_take_effect_of_shortTape :
    let opening := loopSession.play [shortStep]
    let waiting := loopSession.play (List.replicate 4 shortStep)
    let sending := loopSession.play (List.replicate 6 shortStep)
    let ms := List.replicate 9 shortStep ++ .store .unpause :: List.replicate 6 shortStep
    ((FlagStore.stop.apply opening).play []).phase = .opening ∧
      (FlagStore.stop.apply opening).datagrams ms = [] ∧
      (FlagStore.stop.apply sending).datagrams ms = sending.phase.inHand ∧
      sending.phase.inHand.length = 1 ∧
      ((FlagStore.pause.apply waiting).datagrams (ms.takeWhile fun m => !m.clears)).length = 1 ∧
      ((FlagStore.pause.apply waiting).datagrams ms).length = 2 := by
  intro opening waiting sending ms
  have hopening : ((FlagStore.stop.apply opening).play []).phase = .opening := by decide +kernel
  obtain ⟨⟨-, -, -, hnone⟩, -⟩ := flags_take_effect opening []
  obtain ⟨⟨-, hprefix, -⟩, -⟩ := flags_take_effect sending ms
  have hhand : sending.phase.inHand.length = 1 := by decide +kernel
  have hone : ((FlagStore.stop.apply sending).datagrams ms).length = 1 := by decide +kernel
  have hheld : ((FlagStore.pause.apply waiting).datagrams
      (ms.takeWhile fun m => !m.clears)).length = 1 := by decide +kernel
  have hboth : ((FlagStore.pause.apply waiting).datagrams ms).length = 2 := by decide +kernel
  exact ⟨hopening, hnone hopening ms, hprefix.eq_of_length (hone.trans hhand.symm), hhand, hheld,
    hboth⟩

end ReplaySession

end IqTape
