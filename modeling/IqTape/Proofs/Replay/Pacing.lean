import IqTape.Replay.Session

/-!
# The schedule does not drift

A wait makes a few looks at the pause flag and the clock: those that find the replay paused,
the one that finds it going on, the one after which the block is due or the wait sleeps, and
the one after the sleep.  The clock never goes back, and a sleep is never shorter than was
asked for; it may be longer.  So a block never goes out before it is due, and what a wait
leaves in the schedule is the time for which it was paused and nothing else.

When a block is due is therefore a function of the history since the schedule was last
started: the clock then, the time spent paused, and the first timestamp.  How long earlier
waits slept too long, or how late they were, does not enter.

## Main definitions

* `Look`, `Wait.run`, `Wait.naps` — what a wait looks at, what it comes to, and its sleeps.
* `Wait.Kept` — the clock does not go back, and the sleeps are as long as was asked for.
* `Pacer`, `Turn` — a schedule with the counters, restarted and waited for in any order.
* `Round` — what has happened since the schedule was last started.

## Main results

* `Wait.Kept.comes_due` — one wait.
* `Pacer.on_schedule` — a wait after any others.
* `Pacer.due_beyond_clock` — a block that is due later than the clock can show.
-/

namespace IqTape

/-- A look at the pause flag and the clock. -/
structure Look where
  pausing : Bool
  now : Int
  deriving DecidableEq, Repr

namespace Look

/-- The clock at the first of some looks. -/
def firstNow (looks : List Look) : Int := (looks.head?.map Look.now).getD 0

/-- For how long the replay was found paused. -/
def pausedFor (looks : List Look) : Int := firstNow (looks.dropWhile Look.pausing) - firstNow looks

/-- The clock at the second look that does not find the replay paused: it is the one that
decides whether to sleep. -/
def readyAt (looks : List Look) : Int := firstNow ((looks.dropWhile Look.pausing).drop 1)

/-- The clock at the last look. -/
def returnedAt (looks : List Look) : Int := (looks.getLast?.map Look.now).getD 0

variable {pauses : List Look} {m r : Look}

theorem firstNow_append_cons (pauses : List Look) (m : Look) (rest : List Look) :
    firstNow (pauses ++ m :: rest) = firstNow (pauses ++ [m]) := by
  cases pauses <;> rfl

theorem dropWhile_pauses (hpauses : ∀ l ∈ pauses, l.pausing = true) (hm : m.pausing = false)
    (rest : List Look) : (pauses ++ m :: rest).dropWhile Look.pausing = m :: rest := by
  rw [List.dropWhile_append_of_pos hpauses, List.dropWhile_cons_of_neg (by rw [hm]; nofun)]

theorem pausedFor_append_cons (hpauses : ∀ l ∈ pauses, l.pausing = true) (hm : m.pausing = false)
    (rest : List Look) :
    pausedFor (pauses ++ m :: rest) = m.now - firstNow (pauses ++ m :: rest) := by
  rw [pausedFor, dropWhile_pauses hpauses hm]
  rfl

theorem readyAt_append_cons (hpauses : ∀ l ∈ pauses, l.pausing = true) (hm : m.pausing = false)
    (slept : List Look) : readyAt (pauses ++ m :: r :: slept) = r.now := by
  rw [readyAt, dropWhile_pauses hpauses hm]
  rfl

end Look

/-! ### The schedule -/

namespace Binary64

/-- What is made a signed word is one. -/
theorem toInt64_bounds (x : Binary64) : -2 ^ 63 ≤ x.toInt64 ∧ x.toInt64 < 2 ^ 63 := by
  rw [toInt64]
  split
  · dsimp only
    split <;> omega
  · omega

end Binary64

namespace Schedule

/-- A recorded gap, in whole numbers: what came before the origin has none. -/
theorem gap_eq (s : Schedule) (timestamp : UInt64) :
    s.gap timestamp = (timestamp.toNat - (s.origin.getD timestamp).toNat).toUInt64 := by
  rw [gap]
  split
  · next h =>
    rw [UInt64.lt_iff_toNat_lt] at h
    rw [← UInt64.toNat_inj, UInt64.toNat_sub_of_le _ _ (UInt64.le_iff_toNat_le.2 (Nat.le_of_lt h))]
    exact (Nat.mod_eq_of_lt (by have := timestamp.toNat_lt; omega)).symm
  · next h =>
    rw [UInt64.lt_iff_toNat_lt] at h
    rw [Nat.sub_eq_zero_of_le (Nat.le_of_not_lt h)]
    rfl

theorem offset_lt (speed : Binary64) (gap : UInt64) : offset speed gap < 2 ^ 63 :=
  (Binary64.toInt64_bounds _).2

/-- A time spent paused moves the start by as much. -/
theorem start_shift (s : Schedule) (nanos : Int) (hnonneg : 0 ≤ s.start + nanos)
    (hlt : s.start + nanos < 2 ^ 63) : (s.shift nanos).start = s.start + nanos :=
  signedNanos_eq_self (by omega) hlt

/-- No time spent paused moves nothing. -/
theorem shift_zero {s : Schedule} (hnonneg : 0 ≤ s.start) (hlt : s.start < 2 ^ 63) :
    s.shift 0 = s := by
  rw [shift, Int.add_zero, signedNanos_eq_self (by omega) hlt]

theorem target_bounds (s : Schedule) (timestamp : UInt64) :
    -2 ^ 63 ≤ s.target timestamp ∧ s.target timestamp < 2 ^ 63 := signedNanos_bounds _

end Schedule

theorem lagWord_toNat {n : Int} (hpos : 0 ≤ n) (hlt : n < 2 ^ 64) :
    ((lagWord n).toNat : Int) = n := by
  rw [lagWord, Int.emod_eq_of_lt hpos hlt]
  have hword : n.toNat < 2 ^ 64 := by omega
  rw [show n.toNat.toUInt64.toNat = n.toNat from Nat.mod_eq_of_lt hword]
  exact Int.toNat_of_nonneg hpos

namespace Wait

/-! ### One wait -/

/-- What a wait comes to with some looks, the schedule then, and the sleeps it asks for. -/
def run (s : Schedule) (w : Wait) : List Look → Wait × Schedule × List Int
  | [] => (w, s, [])
  | l :: looks =>
    let (w, s, nap) := w.step l.pausing l.now s
    let (w, s, naps) := run s w looks
    (w, s, nap.toList ++ naps)

/-- Whether the block may be sent. -/
def isDue : Wait → Bool
  | .due _ _ => true
  | _ => false

/-- The looks of a wait: the clock does not go back, no sleep is shorter than was asked for,
and the wait is over with the last look and not before. -/
def Kept (earliest : Int) (s : Schedule) (w : Wait) : List Look → Prop
  | [] => w.isDue = true
  | l :: looks =>
    w.isDue = false ∧ earliest ≤ l.now ∧
      let (w, s, nap) := w.step l.pausing l.now s
      Kept (l.now + nap.getD 0) s w looks

instance decidableKept (earliest : Int) (s : Schedule) (w : Wait) :
    (looks : List Look) → Decidable (Kept earliest s w looks)
  | [] => inferInstanceAs (Decidable (w.isDue = true))
  | l :: looks =>
    have := decidableKept (l.now + ((w.step l.pausing l.now s).2.2).getD 0)
      (w.step l.pausing l.now s).2.1 (w.step l.pausing l.now s).1 looks
    inferInstanceAs (Decidable (_ ∧ _ ∧ _))

/-- Whether a block was due long before the replay was ready to send it. -/
def isLate (due ready : Int) : Bool :=
  !decide (ready < due) && decide (Schedule.underrunThreshold < signedNanos (ready - due))

theorem isLate_eq {due ready : Int} (hlt : ready - due < 2 ^ 63) :
    isLate due ready = decide (due + 1000000 < ready) := by
  rw [isLate]
  by_cases hearly : ready < due
  · have hnot : ¬ due + 1000000 < ready := by omega
    simp [hearly, hnot]
  · have hiff : Schedule.underrunThreshold < signedNanos (ready - due) ↔
        due + 1000000 < ready := by
      rw [signedNanos_eq_self (by omega) hlt, Schedule.underrunThreshold]
      omega
    simp [hearly, hiff]

/-- A lag too long for a signed word is none. -/
theorem isLate_of_le {due ready : Int} (hle : 2 ^ 63 ≤ ready - due)
    (hlt : ready - due < 2 ^ 64) : isLate due ready = false := by
  rw [isLate, signedNanos_eq_sub hle (by omega), Schedule.underrunThreshold]
  have hnot : ¬ 1000000 < ready - due - 2 ^ 64 := by omega
  rw [decide_eq_false hnot, Bool.and_false]

variable {earliest : Int} {s : Schedule} {timestamp : UInt64} {looks pauses : List Look}
  {m r q : Look}

/-- A paused replay sleeps until it is found going on. -/
theorem run_paused (since : Int) (hpauses : ∀ l ∈ pauses, l.pausing = true)
    (hm : m.pausing = false) (rest : List Look) :
    run s (.paused timestamp since) (pauses ++ m :: rest) =
      let (w, s, naps) := run (s.shift (signedNanos (m.now - since))) (.pacing timestamp) rest
      (w, s, List.replicate pauses.length Schedule.pausePoll ++ naps) := by
  induction pauses with
  | nil => simp [run, step, hm]
  | cons l pauses ih =>
    rw [List.forall_mem_cons] at hpauses
    rw [List.cons_append, run]
    simp only [step, hpauses.1, if_true]
    rw [ih hpauses.2, List.length_cons, List.replicate_succ]
    rfl

/-- The pause moves the schedule by as long as it lasted. -/
theorem run_arriving (hstart : 0 ≤ s.start) (hword : s.start < 2 ^ 63)
    (hpauses : ∀ l ∈ pauses, l.pausing = true) (hm : m.pausing = false) (rest : List Look) :
    run s (.arriving timestamp) (pauses ++ m :: rest) =
      let (w, s, naps) := run (s.shift (signedNanos (m.now - Look.firstNow (pauses ++ [m]))))
        (.pacing timestamp) rest
      (w, s, List.replicate (pauses.length - 1) Schedule.pausePoll ++ naps) := by
  cases pauses with
  | nil =>
    have hsame : s.shift (signedNanos (m.now - Look.firstNow [m])) = s := by
      rw [show m.now - Look.firstNow [m] = 0 from Int.sub_self m.now]
      exact Schedule.shift_zero hstart hword
    simp [run, step, hm, hsame]
  | cons l pauses =>
    rw [List.forall_mem_cons] at hpauses
    rw [List.cons_append, run]
    simp only [step, hpauses.1, if_true]
    rw [run_paused l.now hpauses.2 hm]
    rfl

/-- A block that is due goes out with no sleep. -/
theorem run_pacing_of_le (hdue : s.target timestamp ≤ r.now) :
    run s (.pacing timestamp) [r] =
      (.due (lagWord (r.now - s.target timestamp)) (isLate (s.target timestamp) r.now),
        s.anchor timestamp, []) := by
  have hsame : (s.anchor timestamp).target timestamp = s.target timestamp := rfl
  have hnot : ¬ r.now < s.target timestamp := Int.not_lt.2 hdue
  simp [run, step, hsame, hnot, isLate]

/-- From a reading of the clock it is not too long to when a block is due. -/
theorem nap_eq (hr : 0 ≤ r.now) (hearly : r.now < s.target timestamp) :
    signedNanos (s.target timestamp - r.now) = s.target timestamp - r.now := by
  have hlt := (s.target_bounds timestamp).2
  exact signedNanos_eq_self (by omega) (by omega)

/-- A block that is not due goes out after a sleep. -/
theorem run_pacing_of_lt (hr : 0 ≤ r.now) (hearly : r.now < s.target timestamp)
    (hq : s.target timestamp ≤ q.now) :
    run s (.pacing timestamp) [r, q] =
      (.due (lagWord (q.now - s.target timestamp)) (isLate (s.target timestamp) r.now),
        s.anchor timestamp, [s.target timestamp - r.now]) := by
  have hsame : (s.anchor timestamp).target timestamp = s.target timestamp := rfl
  have hlag : (if q.now ≤ s.target timestamp then 0 else lagWord (q.now - s.target timestamp)) =
      lagWord (q.now - s.target timestamp) := by
    split
    · -- No sleep is too short, so here it was neither too long.
      next hle =>
      have hzero : q.now - s.target timestamp = 0 := by omega
      rw [hzero]
      rfl
    · rfl
  simp [run, step, hsame, hearly, hlag, nap_eq hr hearly, isLate]

/-- **A wait is over soon after the pause**: with the next look, or with the one after it. -/
theorem isDue_run (hstart : 0 ≤ s.start) (hword : s.start < 2 ^ 63) (timestamp : UInt64)
    (hpauses : ∀ l ∈ pauses, l.pausing = true) (hm : m.pausing = false) (r q : Look) :
    (run s (.arriving timestamp) (pauses ++ [m, r, q])).1.isDue = true := by
  rw [run_arriving hstart hword hpauses hm]
  generalize s.shift _ = moved
  by_cases hearly : r.now < (moved.anchor timestamp).target timestamp
  · simp only [run, step, if_pos hearly]
    rfl
  · simp only [run, step, if_neg hearly]
    rfl

/-- No step asks for a sleep back in time. -/
theorem nap_nonneg {now : Int} (hnow : 0 ≤ now) (pausing : Bool) (s : Schedule) (w : Wait) :
    0 ≤ (w.step pausing now s).2.2.getD 0 := by
  cases w with
  | arriving timestamp => exact Int.le_refl 0
  | paused timestamp since =>
    cases pausing with
    | true => exact Int.le_of_lt (by decide : 0 < Schedule.pausePoll)
    | false => exact Int.le_refl 0
  | pacing timestamp =>
    rw [step]
    simp only
    split
    · next hearly =>
      have hnap := nap_eq (r := ⟨pausing, now⟩) (s := s.anchor timestamp) hnow hearly
      rw [Option.getD_some, hnap]
      exact Int.sub_nonneg_of_le (Int.le_of_lt hearly)
    · exact Int.le_refl 0
  | sleeping due => exact Int.le_refl 0
  | due error underrun => exact Int.le_refl 0

/-- The clock does not go back during a wait. -/
theorem Kept.le_returnedAt {w : Wait} (h : Kept earliest s w looks) (hsome : looks ≠ [])
    (hearliest : 0 ≤ earliest) : earliest ≤ Look.returnedAt looks := by
  induction looks generalizing earliest s w with
  | nil => exact absurd rfl hsome
  | cons l looks ih =>
    obtain ⟨-, hl, hrest⟩ := h
    change Kept (l.now + (w.step l.pausing l.now s).2.2.getD 0) _ _ _ at hrest
    cases looks with
    | nil => exact hl
    | cons next looks =>
      have hnap := nap_nonneg (Int.le_trans hearliest hl) l.pausing s w
      have hle := ih hrest (List.cons_ne_nil _ _) (by omega)
      have hsame : Look.returnedAt (l :: next :: looks) = Look.returnedAt (next :: looks) := by
        rw [Look.returnedAt, List.getLast?_cons_cons, Look.returnedAt]
      omega

theorem Kept.of_due {error : UInt64} {underrun : Bool}
    (h : Kept earliest s (.due error underrun) looks) : looks = [] := by
  cases looks with
  | nil => rfl
  | cons l looks => exact absurd h.1 Bool.noConfusion

/-- A wait that sleeps is over when it wakes. -/
theorem Kept.of_sleeping {due : Int} (h : Kept earliest s (.sleeping due) looks) :
    ∃ q, looks = [q] ∧ earliest ≤ q.now := by
  cases looks with
  | nil => exact absurd h Bool.noConfusion
  | cons q looks =>
    obtain ⟨-, hq, hrest⟩ := h
    exact ⟨q, by rw [hrest.of_due], hq⟩

/-- Once the replay is not paused, the block is due with the next look, or else with the one
after the sleep. -/
theorem Kept.of_pacing (h : Kept earliest s (.pacing timestamp) looks) (hearliest : 0 ≤ earliest) :
    ∃ r slept, looks = r :: slept ∧ earliest ≤ r.now ∧
      ((s.target timestamp ≤ r.now ∧ slept = []) ∨
        (r.now < s.target timestamp ∧ ∃ q, slept = [q] ∧ s.target timestamp ≤ q.now)) := by
  cases looks with
  | nil => exact absurd h Bool.noConfusion
  | cons r slept =>
    obtain ⟨-, hr, hrest⟩ := h
    refine ⟨r, slept, rfl, hr, ?_⟩
    have hsame : (s.anchor timestamp).target timestamp = s.target timestamp := rfl
    by_cases hearly : r.now < s.target timestamp
    · right
      have hnap := nap_eq (Int.le_trans hearliest hr) hearly
      simp only [step, hsame, if_pos hearly, Option.getD_some, hnap] at hrest
      obtain ⟨q, hslept, hq⟩ := hrest.of_sleeping
      exact ⟨hearly, q, hslept, by omega⟩
    · left
      simp only [step, hsame, if_neg hearly] at hrest
      exact ⟨Int.not_lt.1 hearly, hrest.of_due⟩

theorem Kept.of_paused {since : Int} (h : Kept earliest s (.paused timestamp since) looks) :
    ∃ pauses m rest, looks = pauses ++ m :: rest ∧ (∀ l ∈ pauses, l.pausing = true) ∧
      m.pausing = false ∧ earliest ≤ m.now ∧
      Kept m.now (s.shift (signedNanos (m.now - since))) (.pacing timestamp) rest := by
  induction looks generalizing earliest with
  | nil => exact absurd h Bool.noConfusion
  | cons l looks ih =>
    obtain ⟨-, hl, hrest⟩ := h
    cases hpausing : l.pausing with
    | true =>
      -- The poll sleeps before the next look, which only pushes the bound back.
      simp only [step, hpausing, if_true, Option.getD_some] at hrest
      obtain ⟨pauses, m, rest, rfl, hpauses, hm, hle, hkept⟩ := ih hrest
      rw [Schedule.pausePoll] at hle
      refine ⟨l :: pauses, m, rest, rfl, ?_, hm, by omega, hkept⟩
      exact List.forall_mem_cons.2 ⟨hpausing, hpauses⟩
    | false =>
      simp only [step, hpausing, Bool.false_eq_true, if_false, Option.getD_none] at hrest
      exact ⟨[], l, looks, rfl, nofun, hpausing, hl, by simpa using hrest⟩

/-- The looks of a wait, in their order. -/
theorem Kept.of_arriving (h : Kept earliest s (.arriving timestamp) looks)
    (hstart : 0 ≤ s.start) (hword : s.start < 2 ^ 63) :
    ∃ pauses m rest, looks = pauses ++ m :: rest ∧ (∀ l ∈ pauses, l.pausing = true) ∧
      m.pausing = false ∧ earliest ≤ Look.firstNow looks ∧ Look.firstNow looks ≤ m.now ∧
      Kept m.now (s.shift (signedNanos (m.now - Look.firstNow looks))) (.pacing timestamp)
        rest := by
  cases looks with
  | nil => exact absurd h Bool.noConfusion
  | cons l looks =>
    obtain ⟨-, hl, hrest⟩ := h
    have hfirst : Look.firstNow (l :: looks) = l.now := rfl
    rw [hfirst]
    cases hpausing : l.pausing with
    | true =>
      simp only [step, hpausing, if_true, Option.getD_none] at hrest
      obtain ⟨pauses, m, rest, rfl, hpauses, hm, hle, hkept⟩ := hrest.of_paused
      refine ⟨l :: pauses, m, rest, rfl, ?_, hm, hl, by omega, hkept⟩
      exact List.forall_mem_cons.2 ⟨hpausing, hpauses⟩
    | false =>
      simp only [step, hpausing, Bool.false_eq_true, if_false, Option.getD_none] at hrest
      refine ⟨[], l, looks, rfl, nofun, hpausing, hl, Int.le_refl _, ?_⟩
      rw [Int.sub_self, show signedNanos 0 = 0 from rfl, Schedule.shift_zero hstart hword]
      simpa using hrest

/-- **A block goes out when it is due, or as soon after as the replay is ready.**  The schedule
moves by the time for which the wait was paused, and by nothing else. -/
theorem Kept.comes_due (h : Kept earliest s (.arriving timestamp) looks) (hstart : 0 ≤ s.start)
    (hpast : s.start ≤ earliest) (hlasts : Look.returnedAt looks < 2 ^ 63) :
    let moved := s.shift (Look.pausedFor looks)
    let due := moved.target timestamp
    let ready := Look.readyAt looks
    let returned := Look.returnedAt looks
    (∃ polls, run s (.arriving timestamp) looks =
      (.due (lagWord (returned - due)) (isLate due ready), moved.anchor timestamp,
        List.replicate polls Schedule.pausePoll ++
          if ready < due then [due - ready] else [])) ∧
      0 ≤ Look.pausedFor looks ∧ s.start + Look.pausedFor looks ≤ ready ∧ earliest ≤ ready ∧
      max ready due ≤ returned ∧ (due ≤ ready → returned = ready) := by
  intro moved due ready returned
  have hsome : looks ≠ [] := by
    rintro rfl
    exact absurd h Bool.noConfusion
  have hnow := h.le_returnedAt hsome (by omega)
  have hword : s.start < 2 ^ 63 := by omega
  obtain ⟨pauses, m, rest, rfl, hpauses, hm, hfirst, hpause, hkept⟩ := h.of_arriving hstart hword
  obtain ⟨r, slept, rfl, hr, hslept⟩ := hkept.of_pacing (by omega)
  have hready : ready = r.now := Look.readyAt_append_cons hpauses hm slept
  have hpaused : Look.pausedFor (pauses ++ m :: r :: slept) =
      m.now - Look.firstNow (pauses ++ m :: r :: slept) := Look.pausedFor_append_cons hpauses hm _
  have hwoken : r.now ≤ returned := by
    rcases hslept with ⟨-, rfl⟩ | ⟨hearly, q, rfl, hq⟩
    · simp [returned, Look.returnedAt]
    · simp only [returned, Look.returnedAt, List.getLast?_append, List.getLast?_cons_cons]
      exact Int.le_trans (Int.le_of_lt hearly) hq
  -- The two readings of the clock around the pause are words, and so is what is between them.
  have hexact : signedNanos (m.now - Look.firstNow (pauses ++ m :: r :: slept)) =
      Look.pausedFor (pauses ++ m :: r :: slept) := by
    rw [hpaused]
    exact signedNanos_eq_self (by omega) (by omega)
  have hrun : run s (.arriving timestamp) (pauses ++ m :: r :: slept) = _ :=
    run_arriving hstart hword hpauses hm (r :: slept)
  rw [← Look.firstNow_append_cons pauses m (r :: slept), hexact] at hrun
  have hdue : (s.shift (Look.pausedFor (pauses ++ m :: r :: slept))).target timestamp = due := rfl
  rw [hexact, hdue] at hslept
  have hnonneg : 0 ≤ Look.pausedFor (pauses ++ m :: r :: slept) := by omega
  -- Either the block is due with the look that finds the replay ready, or it sleeps once.
  rcases hslept with ⟨hlate, rfl⟩ | ⟨hearly, q, rfl, hq⟩
  · have hreturned : returned = r.now := by simp [returned, Look.returnedAt]
    refine ⟨⟨pauses.length - 1, ?_⟩, hnonneg, by omega, by omega, by omega, by omega⟩
    rw [hrun, run_pacing_of_le hlate, hready, hreturned, if_neg (Int.not_lt.2 hlate)]
  · have hreturned : returned = q.now := by simp [returned, Look.returnedAt]
    refine ⟨⟨pauses.length - 1, ?_⟩, hnonneg, by omega, by omega, by omega, by omega⟩
    rw [hrun, run_pacing_of_lt (by omega) hearly hq, hready, hreturned, if_pos hearly]

end Wait

/-! ### One wait after another -/

/-- A schedule, and the counters that the waits go into. -/
structure Pacer where
  schedule : Schedule
  counters : ReplayCounters
  deriving DecidableEq, Repr

/-- What is done with a schedule. -/
inductive Turn
  | restart (now : Int)
  | wait (timestamp : UInt64) (looks : List Look)
  deriving DecidableEq, Repr

/-- What has happened since the schedule was last started. -/
structure Round where
  /-- The clock at the start. -/
  start : Int
  /-- The waits since, with their timestamps. -/
  waits : List (UInt64 × List Look)

namespace Round

/-- The round that a turn begins or goes on with. -/
def after (d : Round) : Turn → Round
  | .restart now => ⟨now, []⟩
  | .wait timestamp looks => ⟨d.start, d.waits ++ [(timestamp, looks)]⟩

/-- The round that some turns end in. -/
def of (opened : Int) (turns : List Turn) : Round := turns.foldl after ⟨opened, []⟩

/-- The whole time spent paused. -/
def paused (d : Round) : Int := (d.waits.map fun w => Look.pausedFor w.2).sum

/-- The first timestamp. -/
def first? (d : Round) : Option UInt64 := d.waits.head?.map Prod.fst

/-- The recorded time since the first block in real nanoseconds. -/
def offset (d : Round) (speed : Binary64) (timestamp : UInt64) : Int :=
  Schedule.offset (speed.max Schedule.minSpeed)
    (timestamp.toNat - (d.first?.getD timestamp).toNat).toUInt64

/-- When a block is due that is waited for next. -/
def due (d : Round) (speed : Binary64) (timestamp : UInt64) (looks : List Look) : Int :=
  d.start + (d.paused + Look.pausedFor looks) + d.offset speed timestamp

end Round

/-- The clock when a turn is over. -/
def Turn.endsAt : Turn → Int
  | .restart now => now
  | .wait _ looks => Look.returnedAt looks

namespace Pacer

/-- A schedule that starts now. -/
def starting (speed : Binary64) (now : Int) (counters : ReplayCounters) : Pacer :=
  ⟨.starting speed now, counters⟩

def take (p : Pacer) : Turn → Pacer
  | .restart now => { p with schedule := p.schedule.restart now }
  | .wait timestamp looks =>
    match Wait.run p.schedule (.arriving timestamp) looks with
    | (.due error underrun, schedule, _) =>
      ⟨schedule, ReplaySession.countWait p.counters error underrun⟩
    | (_, schedule, _) => { p with schedule := schedule }

def run (p : Pacer) (turns : List Turn) : Pacer := turns.foldl take p

/-- The clock does not go back in a turn, and its sleeps are as long as was asked for. -/
def KeepsTurn (p : Pacer) (earliest : Int) : Turn → Prop
  | .restart now => earliest ≤ now
  | .wait timestamp looks => Wait.Kept earliest p.schedule (.arriving timestamp) looks

/-- The same for some turns. -/
def Keeps (p : Pacer) (earliest : Int) : List Turn → Prop
  | [] => True
  | t :: turns => p.KeepsTurn earliest t ∧ (p.take t).Keeps t.endsAt turns

instance decidableKeepsTurn (p : Pacer) (earliest : Int) :
    (t : Turn) → Decidable (p.KeepsTurn earliest t)
  | .restart now => inferInstanceAs (Decidable (earliest ≤ now))
  | .wait timestamp looks =>
    inferInstanceAs (Decidable (Wait.Kept earliest p.schedule (.arriving timestamp) looks))

instance decidableKeeps (p : Pacer) (earliest : Int) :
    (turns : List Turn) → Decidable (p.Keeps earliest turns)
  | [] => inferInstanceAs (Decidable True)
  | t :: turns =>
    have := decidableKeeps (p.take t) t.endsAt turns
    inferInstanceAs (Decidable (_ ∧ _))

/-- The schedule is what has happened in the round, in short. -/
structure Follows (speed : Binary64) (now : Int) (p : Pacer) (d : Round) : Prop where
  speed : p.schedule.speed = speed.max Schedule.minSpeed
  start : p.schedule.start = d.start + d.paused
  origin : p.schedule.origin = d.first?
  /-- The clock does not show less than nothing. -/
  started : 0 ≤ d.start
  paused : 0 ≤ d.paused
  /-- The clock has not gone back. -/
  past : d.start + d.paused ≤ now

variable {speed : Binary64} {opened earliest now : Int} {p : Pacer} {d : Round}

theorem follows_starting (speed : Binary64) (hopened : 0 ≤ opened) (counters : ReplayCounters) :
    (starting speed opened counters).Follows speed opened ⟨opened, []⟩ :=
  ⟨rfl, (Int.add_zero opened).symm, rfl, hopened, Int.le_refl 0, Int.le_of_eq (Int.add_zero opened)⟩

/-- The clock does not go back in a turn. -/
theorem KeepsTurn.le_endsAt {t : Turn} (h : p.KeepsTurn earliest t) (hearliest : 0 ≤ earliest) :
    earliest ≤ t.endsAt := by
  cases t with
  | restart now => exact h
  | wait timestamp looks =>
    refine Wait.Kept.le_returnedAt h ?_ hearliest
    rintro rfl
    exact absurd h Bool.noConfusion

/-- Nor does it in some turns. -/
theorem Keeps.le_endsAt {before : List Turn} {t : Turn} (h : p.Keeps earliest (before ++ [t]))
    (hearliest : 0 ≤ earliest) : earliest ≤ t.endsAt := by
  induction before generalizing p earliest with
  | nil => exact h.1.le_endsAt hearliest
  | cons first before ih =>
    have hfirst := h.1.le_endsAt hearliest
    exact Int.le_trans hfirst (ih h.2 (Int.le_trans hearliest hfirst))

theorem take_of_due {timestamp : UInt64} {looks : List Look} {error : UInt64} {underrun : Bool}
    {schedule : Schedule} {naps : List Int}
    (h : Wait.run p.schedule (.arriving timestamp) looks = (.due error underrun, schedule, naps)) :
    p.take (.wait timestamp looks) =
      ⟨schedule, ReplaySession.countWait p.counters error underrun⟩ := by
  rw [take, h]

/-- A wait leaves the schedule moved by the time paused, and with an origin. -/
theorem take_wait {timestamp : UInt64} {looks : List Look}
    (h : Wait.Kept earliest p.schedule (.arriving timestamp) looks) (hstart : 0 ≤ p.schedule.start)
    (hpast : p.schedule.start ≤ earliest) (hlasts : Look.returnedAt looks < 2 ^ 63) :
    ∃ error underrun, p.take (.wait timestamp looks) =
      ⟨(p.schedule.shift (Look.pausedFor looks)).anchor timestamp,
        ReplaySession.countWait p.counters error underrun⟩ := by
  obtain ⟨⟨polls, hrun⟩, -⟩ := h.comes_due hstart hpast hlasts
  exact ⟨_, _, take_of_due hrun⟩

/-- The start of the schedule is a time that the clock has shown. -/
theorem Follows.start_bounds (hp : p.Follows speed now d) :
    0 ≤ p.schedule.start ∧ p.schedule.start ≤ now := by
  have hstarted := hp.started
  have hpaused := hp.paused
  have hpast := hp.past
  rw [hp.start]
  omega

/-- **Every turn keeps the schedule in step with the history.** -/
theorem Follows.take (hp : p.Follows speed now d) {t : Turn} (ht : p.KeepsTurn now t)
    (hlasts : t.endsAt < 2 ^ 63) : (p.take t).Follows speed t.endsAt (d.after t) := by
  obtain ⟨hstart, hpast⟩ := hp.start_bounds
  cases t with
  | restart later =>
    have hlater : 0 ≤ later := Int.le_trans (Int.le_trans hstart hpast) ht
    exact ⟨hp.speed, (Int.add_zero later).symm, rfl, hlater, Int.le_refl 0,
      Int.le_of_eq (Int.add_zero later)⟩
  | wait timestamp looks =>
    obtain ⟨error, underrun, htake⟩ := take_wait ht hstart hpast hlasts
    obtain ⟨-, hpaused, hmoved, hready, hreturned, -⟩ := ht.comes_due hstart hpast hlasts
    have hsum : (d.after (.wait timestamp looks)).paused = d.paused + Look.pausedFor looks := by
      simp [Round.after, Round.paused]
    have hsame : (d.after (.wait timestamp looks)).start = d.start := rfl
    have hends : (Turn.wait timestamp looks).endsAt = Look.returnedAt looks := rfl
    have hshift := p.schedule.start_shift (Look.pausedFor looks) (by omega) (by omega)
    have hround := hp.start
    have hnonneg := hp.paused
    rw [htake]
    -- The error and the underrun go into the counters; the schedule has only moved by the pause.
    refine ⟨hp.speed, ?_, ?_, hp.started, by omega, by omega⟩
    · change (p.schedule.shift (Look.pausedFor looks)).start = _
      omega
    · change some (p.schedule.origin.getD timestamp) = _
      -- Only the first wait of a round sets the origin.
      rw [hp.origin, Round.first?, Round.first?, Round.after]
      cases d.waits <;> rfl

theorem Follows.run (hp : p.Follows speed now d) (hnow : 0 ≤ now) {before : List Turn} {t : Turn}
    (h : p.Keeps now (before ++ [t])) (hlasts : t.endsAt < 2 ^ 63) :
    ∃ later, 0 ≤ later ∧ (p.run before).Follows speed later (before.foldl Round.after d) ∧
      (p.run before).KeepsTurn later t := by
  induction before generalizing p d now with
  | nil => exact ⟨now, hnow, hp, h.1⟩
  | cons first before ih =>
    obtain ⟨hfirst, hrest⟩ := h
    have hlater : 0 ≤ first.endsAt := Int.le_trans hnow (hfirst.le_endsAt hnow)
    have hends : first.endsAt < 2 ^ 63 := by
      have hle := hrest.le_endsAt hlater
      omega
    exact ih (hp.take hfirst hends) hlater hrest

/-- When the schedule says that a block is due is when the history says so, as a signed word. -/
theorem Follows.target_eq (hp : p.Follows speed now d) {timestamp : UInt64} {looks : List Look}
    (hmoved : (p.schedule.shift (Look.pausedFor looks)).start =
      p.schedule.start + Look.pausedFor looks) :
    (p.schedule.shift (Look.pausedFor looks)).target timestamp =
      signedNanos (d.due speed timestamp looks) := by
  rw [Schedule.target, Schedule.gap_eq, hmoved, Round.due, Round.offset]
  change signedNanos (_ + Schedule.offset p.schedule.speed
    (timestamp.toNat - (p.schedule.origin.getD timestamp).toNat).toUInt64) = _
  rw [hp.speed, hp.start, hp.origin, Int.add_assoc d.start]

theorem underruns_countWait (c : ReplayCounters) (error : UInt64) (underrun : Bool) :
    (ReplaySession.countWait c error underrun).underruns =
      c.underruns + if underrun then 1 else 0 := by
  cases underrun
  · exact (UInt64.add_zero c.underruns).symm
  · rfl

/-- **The schedule is absolute.**  After any restarts and waits, a block is due at the clock of
the last start, plus the time spent paused since, plus the recorded time since the first block,
divided by the speed.  As long as that is a time that the clock can show, the wait is over when the
pause is and the block is due, whichever is later, plus only what it sleeps too long itself; and it
sleeps only if the block is not yet due, for the time that is left.  It counts the time that it is
late, and an underrun if the block was due more than a millisecond before the pause was over.  A
block that is due later than the clock can show goes out as soon as the pause is over, and the
time until it is due is counted as if it had been late, but as no underrun.  Nothing else of
earlier waits enters.  The clock is a signed word of nanoseconds and counts from nothing; a
recorded time that has no place in such a word is negative here. -/
theorem on_schedule {speed : Binary64} {opened : Int} {counters : ReplayCounters}
    {before : List Turn} {timestamp : UInt64} {looks : List Look}
    (h : (starting speed opened counters).Keeps opened (before ++ [.wait timestamp looks]))
    (hopened : 0 ≤ opened) (hlasts : Look.returnedAt looks < 2 ^ 63)
    (hoffset : 0 ≤ (Round.of opened before).offset speed timestamp) :
    let p := (starting speed opened counters).run before
    let due := (Round.of opened before).due speed timestamp looks
    let ready := Look.readyAt looks
    let returned := Look.returnedAt looks
    ∃ error underrun schedule polls naps,
      Wait.run p.schedule (.arriving timestamp) looks =
        (.due error underrun, schedule, List.replicate polls Schedule.pausePoll ++ naps) ∧
      (due < 2 ^ 63 →
        naps = (if ready < due then [due - ready] else []) ∧
        (∃ oversleep, 0 ≤ oversleep ∧ (due ≤ ready → oversleep = 0) ∧
          returned = max ready due + oversleep) ∧
        (error.toNat : Int) = returned - due ∧
        (p.take (.wait timestamp looks)).counters.underruns =
          p.counters.underruns + (if due + 1000000 < ready then 1 else 0)) ∧
      (2 ^ 63 ≤ due →
        naps = [] ∧ returned = ready ∧ (error.toNat : Int) = 2 ^ 64 - (due - returned) ∧
        (p.take (.wait timestamp looks)).counters.underruns = p.counters.underruns) ∧
      ∀ pauses m r q, (∀ l ∈ pauses, l.pausing = true) → m.pausing = false →
        (Wait.run p.schedule (.arriving timestamp) (pauses ++ [m, r, q])).1.isDue = true := by
  intro p due ready returned
  obtain ⟨now, hnow, hfollows, hkept⟩ :=
    (follows_starting speed hopened counters).run hopened h hlasts
  have hp : p.Follows speed now (Round.of opened before) := hfollows
  obtain ⟨hstart, hpast⟩ := hp.start_bounds
  obtain ⟨⟨polls, hrun⟩, hpaused, hmoved, hready, hmax, hprompt⟩ :=
    Wait.Kept.comes_due hkept hstart hpast hlasts
  have hover : p.schedule.start + Look.pausedFor looks ≤ ready := hmoved
  have hshift := p.schedule.start_shift (Look.pausedFor looks) (by omega) (by omega)
  have htarget : (p.schedule.shift (Look.pausedFor looks)).target timestamp = signedNanos due :=
    hp.target_eq hshift
  rw [htarget] at hrun hmax hprompt
  -- What is due at all is due after the time at which the pauses were over.
  have hdue : due = p.schedule.start + Look.pausedFor looks +
      (Round.of opened before).offset speed timestamp := by
    have hround := hp.start
    simp only [due, Round.due]
    omega
  have hbelow : (Round.of opened before).offset speed timestamp < 2 ^ 63 :=
    Schedule.offset_lt _ _
  have hcount : (p.take (.wait timestamp looks)).counters.underruns =
      p.counters.underruns + if Wait.isLate (signedNanos due) ready then 1 else 0 := by
    rw [take_of_due hrun, underruns_countWait]
  refine ⟨_, _, _, polls, _, hrun, ?_, ?_, ?_⟩
  · intro hin
    have hexact : signedNanos due = due := signedNanos_eq_self (by omega) hin
    rw [hexact] at hmax hprompt hcount
    refine ⟨by rw [hexact], ⟨returned - max ready due, Int.sub_nonneg_of_le hmax, ?_, by omega⟩,
      ?_, ?_⟩
    · intro hle
      have hsame : returned = ready := hprompt hle
      rw [hsame, Int.max_eq_left hle, Int.sub_self]
    · rw [hexact]
      exact lagWord_toNat (by omega) (by omega)
    · have hlate : Wait.isLate due ready = decide (due + 1000000 < ready) :=
        Wait.isLate_eq (by omega)
      rw [hcount, hlate]
      simp only [decide_eq_true_eq]
  · intro hout
    have hwrapped : signedNanos due = due - 2 ^ 64 := signedNanos_eq_sub hout (by omega)
    rw [hwrapped] at hmax hprompt hcount
    have hsame : returned = ready := hprompt (by omega)
    refine ⟨by rw [hwrapped, if_neg (by omega)], hsame, ?_, ?_⟩
    · rw [hwrapped, lagWord_toNat (by omega) (by omega)]
      omega
    · have hlate : Wait.isLate (due - 2 ^ 64) ready = false :=
        Wait.isLate_of_le (by omega) (by omega)
      rw [hcount, hlate]
      exact UInt64.add_zero _
  · intro pauses m r q hpauses hm
    exact Wait.isDue_run hstart (by omega) timestamp hpauses hm r q

/-- Twice the recorded speed: a block at once, a restart, a block that wakes too late, a pause,
and a block from before the first one. -/
def pausedTurns : List Turn :=
  [.wait 5000 [⟨false, 1000⟩, ⟨false, 1001⟩],
    .restart 2000,
    .wait 90000000 [⟨false, 2000⟩, ⟨false, 2003⟩],
    .wait 90004000 [⟨false, 2010⟩, ⟨false, 2010⟩, ⟨false, 4900⟩],
    .wait 70000000 [⟨true, 5000⟩, ⟨true, 5010⟩, ⟨false, 20005010⟩, ⟨false, 20005010⟩]]

/-- The pause of 20000010 ns moves the block that is 3000000 ns after the first one, and
neither the sleep that was too long nor the block that came late does. -/
theorem on_schedule_of_pausedTurns :
    let p := (starting (.ofNat 2) 1000 (.fresh 1000)).run pausedTurns
    let looks : List Look := [⟨false, 20005020⟩, ⟨false, 20005020⟩, ⟨false, 21502011⟩]
    (starting (.ofNat 2) 1000 (.fresh 1000)).Keeps 1000 (pausedTurns ++ [.wait 93000000 looks]) ∧
      (Round.of 1000 pausedTurns).due (.ofNat 2) 93000000 looks = 2000 + 20000010 + 1500000 ∧
      (p.take (.wait 93000000 looks)).counters.underruns = p.counters.underruns ∧
      ∃ error underrun schedule polls,
        Wait.run p.schedule (.arriving 93000000) looks =
          (.due error underrun, schedule, List.replicate polls Schedule.pausePoll ++ [1496990]) ∧
        error.toNat = 1 := by
  intro p looks
  have hkeeps : (starting (.ofNat 2) 1000 (.fresh 1000)).Keeps 1000
      (pausedTurns ++ [.wait 93000000 looks]) := by decide +kernel
  have hdue : (Round.of 1000 pausedTurns).due (.ofNat 2) 93000000 looks = 21502010 := by
    decide +kernel
  have hready : Look.readyAt looks = 20005020 := rfl
  have hreturned : Look.returnedAt looks = 21502011 := rfl
  have hoffset : 0 ≤ (Round.of 1000 pausedTurns).offset (.ofNat 2) 93000000 := by decide +kernel
  obtain ⟨error, underrun, schedule, polls, naps, hrun, hshown, -⟩ :=
    on_schedule hkeeps (by decide) (by decide) hoffset
  obtain ⟨hnaps, -, herror, hcount⟩ := hshown (by rw [hdue]; decide)
  rw [hdue, hready] at hnaps hcount
  rw [hdue, hreturned] at herror
  rw [if_neg (by decide), UInt64.add_zero] at hcount
  rw [hnaps] at hrun
  simp only [p]
  exact ⟨hkeeps, hdue, hcount, error, underrun, schedule, polls, hrun, Int.ofNat.inj herror⟩

/-- A block at the clock of the start, when the clock has shown it for some time. -/
def firstTurn : Turn := .wait 0 [⟨false, 10000000000000⟩, ⟨false, 10000000000000⟩]

/-- **A block that is due later than the clock can show goes out at once.**  At the recorded speed
and after nearly three hours, so does one that was recorded 292 years after the first. -/
theorem due_beyond_clock :
    let p := (starting .one 10000000000000 (.fresh 0)).run [firstTurn]
    let looks : List Look := [⟨false, 10000000000000⟩, ⟨false, 10000000000000⟩]
    let d := Round.of 10000000000000 [firstTurn]
    (starting .one 10000000000000 (.fresh 0)).Keeps 10000000000000
      [firstTurn, .wait 9223372036854774784 looks] ∧
      d.offset .one 9223372036854774784 = 9223372036854774784 ∧
      d.due .one 9223372036854774784 looks = 10000000000000 + 9223372036854774784 ∧
      Look.returnedAt looks = 10000000000000 ∧
      Wait.run p.schedule (.arriving 9223372036854774784) looks =
        (.due 9223372036854776832 false, ⟨.one, 10000000000000, some 0⟩, []) := by
  intro p looks d
  exact ⟨by decide +kernel, by decide +kernel, by decide +kernel, rfl, by decide +kernel⟩

end Pacer

end IqTape
