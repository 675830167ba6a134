import IqTape.Proofs.Number.Arithmetic
import IqTape.Proofs.Replay.Pacing
import IqTape.Proofs.Replay.Sending

/-!
# How far ahead a block can be due

A block is due at the start of the schedule plus a gap between timestamps, which is any word,
divided by a speed, which is any number from the slowest one on.  Both are in double precision;
the whole part of their quotient has to be a signed word, and nothing checks that it is one.
The quotient is determined by the numbers, and rounding keeps their order, so that there is a
longest gap that every speed can stretch.

## Main definitions

* `Schedule.slowest` — the slowest speed, as a number.
* `Schedule.longestGap` — **the longest gap that any speed can stretch**.

## Main results

* `Schedule.offset_eq` — when a block is due, by the numbers.
* `Schedule.div_lt_of_le_longestGap`, `Schedule.le_div_of_longestGap_lt` — the longest gap.
* `ReplaySession.due_in_range` — the blocks of a session.
* `ReplaySession.far_block_goes_out_at_once` — a gap that is too long.
-/

namespace IqTape

namespace Schedule

open Binary64

variable {speed : Binary64} {v : ℚ} {n : ℕ}

/-- The slowest speed, exactly. -/
def slowest : ℚ := 5764607523034235 / 2 ^ 59

theorem minSpeed_holds : minSpeed.Holds slowest :=
  ⟨5764607523034235, -59, by decide +kernel, by norm_num [slowest]⟩

theorem slowest_pos : 0 < slowest := by norm_num [slowest]

/-- The rounded gap, divided by the speed, is far from the largest number. -/
theorem quotient_lt (hv : slowest ≤ v) (hn : n < 2 ^ 64) : double n / v < 2 ^ (71 : ℤ) := by
  have hpos : (0 : ℚ) < v := slowest_pos.trans_le hv
  have hgap : double n ≤ 2 ^ (64 : ℤ) := by
    have hle : (n : ℚ) ≤ 2 ^ (64 : ℤ) := by exact_mod_cast hn.le
    have hmono := FloatFormat.binary64.round_mono (Nat.cast_nonneg n) hle
    rwa [FloatFormat.binary64.round_two_zpow (by decide)] at hmono
  rw [div_lt_iff₀ hpos]
  calc double n ≤ 2 ^ (64 : ℤ) := hgap
    _ < 2 ^ (71 : ℤ) * slowest := by norm_num [slowest]
    _ ≤ 2 ^ (71 : ℤ) * v := mul_le_mul_of_nonneg_left hv (by positivity)

/-- **When a block is due**: at the whole part of the rounded quotient, if that is a word. -/
theorem offset_eq (hs : speed.Holds v) (hv : slowest ≤ v) (gap : UInt64) :
    offset speed gap =
      if double gap.toNat / v < 2 ^ 63 - 512 then ⌊double (double gap.toNat / v)⌋
      else -2 ^ 63 := by
  have hpos : (0 : ℚ) < v := slowest_pos.trans_le hv
  have hquotient := (ofNat_holds gap.toNat_lt).div hs hpos (by decide) (quotient_lt hv gap.toNat_lt)
  have hnonneg : 0 ≤ double gap.toNat / v :=
    div_nonneg (FloatFormat.binary64.round_nonneg _) hpos.le
  rw [offset, hquotient.toInt64_eq]
  simp only [double_lt_iff hnonneg]

/-! ### The longest gap -/

/-- The longest gap that no speed stretches past a word: just under three years. -/
def longestGap : ℕ := 92233720368547752

theorem double_longestGap : double longestGap = 92233720368547744 := by
  have hround := ofNat_holds (n := longestGap) (by decide)
  have hexact : (ofNat longestGap).Holds 92233720368547744 :=
    ⟨5764607523034234, 4, by decide +kernel, by norm_num⟩
  exact hround.value_eq.symm.trans hexact.value_eq

theorem double_succ_longestGap : double (longestGap + 1 : ℕ) = 92233720368547760 := by
  have hround := ofNat_holds (n := longestGap + 1) (by decide)
  have hexact : (ofNat (longestGap + 1)).Holds 92233720368547760 :=
    ⟨5764607523034235, 4, by decide +kernel, by norm_num⟩
  exact hround.value_eq.symm.trans hexact.value_eq

/-- Up to the longest gap, every speed gives a word. -/
theorem div_lt_of_le_longestGap (hv : slowest ≤ v) (hn : n ≤ longestGap) :
    double n / v < 2 ^ 63 - 512 := by
  have hpos := slowest_pos.trans_le hv
  have hgap : double n ≤ double longestGap :=
    FloatFormat.binary64.round_mono (Nat.cast_nonneg n) (by exact_mod_cast hn)
  rw [div_lt_iff₀ hpos]
  calc double n ≤ 92233720368547744 := hgap.trans_eq double_longestGap
    _ < (2 ^ 63 - 512) * slowest := by norm_num [slowest]
    _ ≤ (2 ^ 63 - 512) * v := mul_le_mul_of_nonneg_left hv (by norm_num)

/-- Past the longest gap, the slowest speed does not. -/
theorem le_div_of_longestGap_lt (hn : longestGap < n) : 2 ^ 63 ≤ double n / slowest := by
  have hgap : double (longestGap + 1 : ℕ) ≤ double n :=
    FloatFormat.binary64.round_mono (Nat.cast_nonneg _) (by exact_mod_cast hn)
  rw [le_div_iff₀ slowest_pos]
  calc (2 : ℚ) ^ 63 * slowest = 92233720368547760 := by norm_num [slowest]
    _ ≤ double n := double_succ_longestGap.symm.trans_le hgap

/-- Rounded or not, a gap is stretched to little more than its hundredfold. -/
theorem floor_div_le (hv : slowest ≤ v) (n : ℕ) : ⌊double (double n / v)⌋ ≤ 101 * n := by
  have hgap := double_natCast_le n
  have hquotient : double n / v ≤ (n + n / 2 ^ 53) / slowest :=
    div_le_div₀ (by positivity) hgap slowest_pos hv
  have hfloor := (floor_double_bounds (v := double n / v)
    (div_nonneg (FloatFormat.binary64.round_nonneg _) (slowest_pos.trans_le hv).le)).1
  have hn : (0 : ℚ) ≤ n := Nat.cast_nonneg n
  have hle : (⌊double (double n / v)⌋ : ℚ) ≤ 101 * n := by
    rw [slowest] at hquotient
    linarith
  exact_mod_cast hle

end Schedule

namespace Wait

/-- A block that was due so long ago that the lag is no signed word goes out at once, and not as
an underrun. -/
theorem step_pacing_of_far {s : Schedule} {timestamp : UInt64} {now : Int}
    (hle : 2 ^ 63 ≤ now - s.target timestamp) (hlt : now - s.target timestamp < 2 ^ 64) :
    (step false now s (.pacing timestamp)).1 =
      .due (lagWord (now - s.target timestamp)) false := by
  have hsame : (s.anchor timestamp).target timestamp = s.target timestamp := rfl
  have hlate : ¬ now < s.target timestamp := by omega
  have hlag : ¬ Schedule.underrunThreshold < signedNanos (now - s.target timestamp) := by
    rw [signedNanos_eq_sub hle (by omega), Schedule.underrunThreshold]
    omega
  simp only [step, hsame, if_neg hlate, decide_eq_false hlag]

/-- So does a block that is due later than the clock can show. -/
theorem step_pacing_of_beyond {s : Schedule} {timestamp : UInt64} {now due : Int}
    (hdue : due = s.start + Schedule.offset s.speed (s.gap timestamp)) (hbeyond : 2 ^ 63 ≤ due)
    (hnow : s.start ≤ now) (hsoon : now < 2 ^ 63) :
    (step false now s (.pacing timestamp)).1 = .due (lagWord (now - due)) false := by
  have hbelow := Schedule.offset_lt s.speed (s.gap timestamp)
  have hwrapped : s.target timestamp = due - 2 ^ 64 := by
    rw [Schedule.target, ← hdue]
    exact signedNanos_eq_sub hbeyond (by omega)
  -- Words of times that are one turn of the clock apart are the same.
  have hlag : lagWord (now - s.target timestamp) = lagWord (now - due) := by
    have hmod : (now - (due - 2 ^ 64)) % 2 ^ 64 = (now - due) % 2 ^ 64 := by omega
    rw [hwrapped, lagWord, lagWord, hmod]
  rw [← hlag]
  exact step_pacing_of_far (by omega) (by omega)

/-- A wait leaves the speed as it is. -/
theorem speed_step (pausing : Bool) (now : Int) (s : Schedule) (w : Wait) :
    (w.step pausing now s).2.1.speed = s.speed := by
  cases w with
  | paused timestamp since =>
    simp only [step]
    split <;> rfl
  | pacing timestamp =>
    simp only [step]
    split <;> rfl
  | _ => rfl

end Wait

namespace ReplaySession

variable {s : ReplaySession}

/-- No step changes the speed of the schedule. -/
theorem speed_step (s : ReplaySession) (outside : Surroundings) :
    (s.step outside).1.schedule.speed = s.schedule.speed := by
  unfold ReplaySession.step
  cases s.phase with
  | between =>
    simp only [startPass]
    split
    · rfl
    · split <;> rfl
  | opening =>
    simp only [openTape]
    split <;> rfl
  | reading =>
    simp only [read]
    split <;> rfl
  | waiting b w =>
    have hspeed := Wait.speed_step s.paused outside.now s.schedule w
    simp only [await]
    split <;> exact hspeed
  | deciding b =>
    simp only [frame]
    split
    · rfl
    · split <;> rfl
  | sending b datagram =>
    simp only [send]
    split <;> rfl
  | tried b =>
    simp only [count]
    split <;> rfl
  | closing =>
    simp only [endPass]
    split
    · rfl
    · split <;> rfl
  | finishing ok => rfl
  | «over» ok => rfl

theorem speed_run (tape : Source) (s : ReplaySession) (es : List Event) :
    (s.run tape es).schedule.speed = s.schedule.speed := by
  induction es generalizing s with
  | nil => rfl
  | cons e es ih =>
    rw [run, ih]
    cases e with
    | step now fault => exact speed_step s _
    | _ => rfl

/-- The speed of a session that begins: the one asked for, but at least the slowest. -/
theorem speed_begin {config : ReplayConfig} {created now : Int} {file : Option Source}
    {net : SocketAnswers} (h : ((idle config created).setUp now file net).2.2 = none)
    (start : Int) :
    ∃ v, config.speed.Holds v ∧
      (((idle config created).setUp now file net).1.begin start).1.schedule.speed.Holds
        (v ⊔ Schedule.slowest) := by
  obtain ⟨hlt, hfin, target, header, port, hready⟩ := setUp_eq h
  obtain ⟨v, -, hv⟩ := Binary64.exists_holds hlt hfin
  refine ⟨v, hv, ?_⟩
  rw [hready]
  exact hv.max Schedule.minSpeed_holds

/-- **When blocks can be due.**  At any time of a session, the recorded time since the first
block, divided by the speed that was asked for or by the slowest one, is rounded to double
precision.  Up to half a last bit below `2 ^ 63` its whole part is a word, and as near to the
quotient as double precision comes; from there on it is not, and the block goes out at once, with
an error but not as an underrun.  No speed gets there with the longest gap or less, and the slowest
one does with any other.  And as long as the start of the schedule is not negative, and with a
hundred and one times the gap is a word, so is the time at which the block is due.  Where it is no
word, it wraps around and the block goes out at once as well. -/
theorem due_in_range {config : ReplayConfig} {created now : Int} {tape : Source}
    {net : SocketAnswers} (hsetUp : ((idle config created).setUp now (some tape) net).2.2 = none)
    (start : Int) (es : List Event) (timestamp : UInt64) :
    let begun := (((idle config created).setUp now (some tape) net).1.begin start).1
    let schedule := (begun.run tape es).schedule
    let gap := timestamp.toNat - (schedule.origin.getD timestamp).toNat
    let quotient := (Binary64.ofNat gap).value / schedule.speed.value
    let offset := Schedule.offset schedule.speed (schedule.gap timestamp)
    schedule.speed.value = config.speed.value ⊔ Schedule.minSpeed.value ∧
      (quotient < 2 ^ 63 - 512 →
        0 ≤ offset ∧ offset < 2 ^ 63 ∧ (offset : ℚ) ≤ quotient + quotient / 2 ^ 53 ∧
          quotient - quotient / 2 ^ 53 < offset + 1) ∧
      (2 ^ 63 - 512 ≤ quotient → offset = -2 ^ 63 ∧
        ∀ now, 0 ≤ schedule.start → schedule.start ≤ now → now < 2 ^ 63 →
          (Wait.step false now schedule (.pacing timestamp)).1 =
            .due (lagWord (now - schedule.start + 2 ^ 63)) false) ∧
      (gap ≤ Schedule.longestGap → quotient < 2 ^ 63 - 512) ∧
      (config.speed.value ≤ Schedule.minSpeed.value →
        Schedule.longestGap < gap → 2 ^ 63 - 512 ≤ quotient) ∧
      (0 ≤ schedule.start → schedule.start + 101 * gap < 2 ^ 63 →
        schedule.target timestamp = schedule.start + offset ∧
          schedule.start ≤ schedule.target timestamp ∧ schedule.target timestamp < 2 ^ 63) ∧
      (0 ≤ schedule.start → 0 ≤ offset →
        (schedule.start + offset < 2 ^ 63 →
          schedule.target timestamp = schedule.start + offset) ∧
        (2 ^ 63 ≤ schedule.start + offset →
          ∀ now, schedule.start ≤ now → now < 2 ^ 63 →
            (Wait.step false now schedule (.pacing timestamp)).1 =
              .due (lagWord (now - (schedule.start + offset))) false)) := by
  intro begun schedule gap quotient offset
  obtain ⟨u, hu, hbegun⟩ := speed_begin hsetUp start
  have hspeed : schedule.speed.Holds (u ⊔ Schedule.slowest) := by
    rw [speed_run]
    exact hbegun
  have hv : Schedule.slowest ≤ u ⊔ Schedule.slowest := le_sup_right
  have hword : gap < 2 ^ 64 := lt_of_le_of_lt (Nat.sub_le _ _) timestamp.toNat_lt
  have hgap : (schedule.gap timestamp).toNat = gap := by
    rw [Schedule.gap_eq]
    exact UInt64.toNat_ofNat_of_lt' hword
  have hquotient : quotient = double gap / (u ⊔ Schedule.slowest) :=
    congrArg₂ (· / ·) (Binary64.ofNat_holds hword).value_eq hspeed.value_eq
  have hoffset : offset = if quotient < 2 ^ 63 - 512 then ⌊double quotient⌋ else -2 ^ 63 := by
    rw [hquotient, ← hgap]
    exact Schedule.offset_eq hspeed hv (schedule.gap timestamp)
  have htarget : schedule.target timestamp = signedNanos (schedule.start + offset) := rfl
  have hbelow : offset < 2 ^ 63 := Schedule.offset_lt _ _
  have hnonneg : 0 ≤ quotient := by
    rw [hquotient]
    exact div_nonneg (FloatFormat.binary64.round_nonneg _) (Schedule.slowest_pos.trans_le hv).le
  have hfloor : 0 ≤ ⌊double quotient⌋ :=
    Int.floor_nonneg.2 (FloatFormat.binary64.round_nonneg _)
  have hfits : gap ≤ Schedule.longestGap → quotient < 2 ^ 63 - 512 := by
    intro hle
    rw [hquotient]
    exact Schedule.div_lt_of_le_longestGap hv hle
  refine ⟨?_, ?_, ?_, hfits, ?_, ?_, ?_⟩
  · rw [hspeed.value_eq, hu.value_eq, Schedule.minSpeed_holds.value_eq]
  · intro hlt
    rw [if_pos hlt] at hoffset
    obtain ⟨habove, hbelow⟩ := floor_double_bounds hnonneg
    rw [hoffset]
    refine ⟨hfloor, ?_, habove, hbelow⟩
    rw [Int.floor_lt]
    exact_mod_cast (double_lt_iff hnonneg).2 hlt
  · intro hge
    rw [if_neg (not_lt.2 hge)] at hoffset
    refine ⟨hoffset, fun now hstart hnow hsoon => ?_⟩
    have hexact : schedule.target timestamp = schedule.start + offset :=
      signedNanos_eq_self (by omega) (by omega)
    have hlag : now - schedule.target timestamp = now - schedule.start + 2 ^ 63 := by omega
    rw [← hlag]
    exact Wait.step_pacing_of_far (by omega) (by omega)
  · intro hslow hlong
    rw [hu.value_eq, Schedule.minSpeed_holds.value_eq] at hslow
    rw [hquotient, sup_eq_right.2 hslow]
    have hle := Schedule.le_div_of_longestGap_lt hlong
    linarith
  · intro hstart hsum
    have hlt : quotient < 2 ^ 63 - 512 := hfits (by rw [Schedule.longestGap]; omega)
    rw [if_pos hlt] at hoffset
    have hle := Schedule.floor_div_le hv gap
    rw [← hquotient, ← hoffset] at hle
    have hzero : 0 ≤ offset := hfloor.trans_eq hoffset.symm
    have hexact : schedule.target timestamp = schedule.start + offset :=
      signedNanos_eq_self (by omega) (by omega)
    exact ⟨hexact, by omega, by omega⟩
  · intro hstart hzero
    exact ⟨fun hin => signedNanos_eq_self (by omega) hin,
      fun hout now hnow hsoon => Wait.step_pacing_of_beyond rfl hout hnow hsoon⟩

/-- Settings for a tenth of the recorded speed. -/
def slowConfig : ReplayConfig := { ReplayConfig.initial with speed := .ofRatio false 1 10 }

/-- The timestamp of a clock that has been set. -/
def newYear : UInt64 := 1704067200000000000

/-- A block from before the clock was set, and one from after. -/
def farBlocks : List Block := [⟨0, 1, [1, 2, 3, 4], false⟩, ⟨newYear, 1, [5, 6, 7, 8], false⟩]

/-- Their tape. -/
def farTape : Source := .ofBytes (Header.blank.encode ++ farBlocks.flatMap Block.frame)

/-- A session that has begun to replay it. -/
def farSession : ReplaySession :=
  (((idle slowConfig 0).setUp 0 (some farTape) default).1.begin 0).1

set_option maxRecDepth 4000 in
/-- A block that was recorded a second after the first one is due in range. -/
theorem due_in_range_of_farTape :
    let schedule := (farSession.run farTape (List.replicate 8 (.step 0 none))).schedule
    ((idle slowConfig 0).setUp 0 (some farTape) default).2.2 = none ∧
      schedule.origin = some 0 ∧ 0 ≤ schedule.target 1000000000 ∧
      schedule.target 1000000000 < 2 ^ 63 := by
  have hsetUp : ((idle slowConfig 0).setUp 0 (some farTape) default).2.2 = none := by
    decide +kernel
  have horigin : (farSession.run farTape (List.replicate 8 (.step 0 none))).schedule.origin =
      some 0 := by decide +kernel
  have hstart : (farSession.run farTape (List.replicate 8 (.step 0 none))).schedule.start = 0 := by
    decide +kernel
  unfold farSession at *
  obtain ⟨-, -, -, -, -, hsum, -⟩ :=
    due_in_range hsetUp 0 (List.replicate 8 (.step 0 none)) 1000000000
  rw [hstart, horigin] at hsum
  exact ⟨hsetUp, horigin, (hsum (Int.le_refl 0) (by decide)).2⟩

/-- The quotient for the second block is no word: it is due in five hundred years. -/
theorem le_quotient_of_farBlocks :
    2 ^ 63 ≤ (Binary64.ofNat newYear.toNat).value / slowConfig.speed.value := by
  have hgap : (Binary64.ofNat newYear.toNat).Holds 1704067200000000000 :=
    ⟨6656512500000000, 8, by decide +kernel, by norm_num⟩
  have hspeed : slowConfig.speed.Holds (3602879701896397 / 2 ^ 55) :=
    ⟨7205759403792794, -56, by decide +kernel, by norm_num⟩
  rw [hgap.value_eq, hspeed.value_eq]
  norm_num

set_option maxRecDepth 4000 in
/-- **A block due in five hundred years goes out at once**, and not as an underrun. -/
theorem far_block_goes_out_at_once :
    let s := farSession.run farTape (List.replicate 11 (.step 0 none))
    slowConfig.validate = none ∧
      ((idle slowConfig 0).setUp 0 (some farTape) default).2.2 = none ∧
      (∃ contents, readAll (some farTape) = .ok contents ∧ contents.blocks = farBlocks) ∧
      2 ^ 63 ≤ (Binary64.ofNat newYear.toNat).value / s.schedule.speed.value ∧
      s.schedule.target newYear = -2 ^ 63 ∧ s.phase = .deciding ⟨newYear, 1, [5, 6, 7, 8], false⟩ ∧
      s.counters.underruns = 0 := by
  have hread : ∃ contents, readAll (some farTape) = .ok contents ∧
      contents.blocks = farBlocks := by
    refine readAll_of_frames ?_
    simp only [farBlocks, List.forall_mem_cons]
    exact ⟨Segment.isFrame_frame rfl (by decide) rfl, Segment.isFrame_frame rfl (by decide) rfl,
      List.forall_mem_nil _⟩
  have hspeed : (farSession.run farTape (List.replicate 11 (.step 0 none))).schedule.speed =
      slowConfig.speed := by decide +kernel
  refine ⟨by decide +kernel, by decide +kernel, hread, ?_, by decide +kernel,
    by decide +kernel, by decide +kernel⟩
  rw [hspeed]
  exact le_quotient_of_farBlocks

end ReplaySession

end IqTape
