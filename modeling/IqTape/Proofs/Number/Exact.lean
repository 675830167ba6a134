import IqTape.Proofs.Number.Arithmetic

/-!
# Numbers that a binary format holds

A format holds the numbers whose significand has no more bits than it keeps.  Rounding leaves
those as they are and gives nothing else, so that rounding twice is rounding once.  The pattern of
such a number is found again from the number, whatever quotient it is given by; the sign of a
pattern goes its own way.  A number in single precision is one in double precision as well,
and comes back from there unchanged.

## Main definitions

* `FloatFormat.IsHeld` — the numbers that the format holds, were there no largest one.
* `Datum.withSign` — what a pattern stands for when a sign is put on it.

## Main results

* `FloatFormat.round_eq_self_iff`, `FloatFormat.round_round` — rounding and the numbers held.
* `FloatFormat.nearest_of_datum` — **the pattern of a number is found again**.
* `FloatFormat.datum_signed`, `FloatFormat.exists_signed` — the sign of a pattern.
* `Binary32.narrow_widen` — **single precision within double precision**.
-/

namespace IqTape

namespace FloatFormat

variable (f : FloatFormat) {x : ℚ} {m num den bits : ℕ} {q : ℤ}

/-- The format holds `x`, were there no largest number: its significand has no more bits than are
kept, and its last bit is not below the least one. -/
def IsHeld (x : ℚ) : Prop :=
  ∃ (m : ℕ) (q : ℤ), m < 2 ^ (f.fractionBits + 1) ∧ f.leastQuantum ≤ q ∧ x = m * 2 ^ q

/-! ### Rounding -/

theorem log_lt (hm : m < 2 ^ (f.fractionBits + 1)) (hpos : 0 < m) (q : ℤ) :
    Int.log 2 (m * 2 ^ q : ℚ) < f.fractionBits + 1 + q := by
  have hx : (0 : ℚ) < m * 2 ^ q := by positivity
  refine (Int.lt_zpow_iff_log_lt (R := ℚ) one_lt_two hx).1 ?_
  have hpow : (2 : ℚ) ^ ((f.fractionBits : ℤ) + 1) = (2 ^ (f.fractionBits + 1) : ℕ) := by
    rw [← Nat.cast_succ, zpow_natCast, Nat.cast_pow, Nat.cast_two]
  rw [Nat.cast_ofNat, zpow_add₀ two_ne_zero, hpow]
  exact mul_lt_mul_of_pos_right (by exact_mod_cast hm) (by positivity)

/-- Of a number that is held, no bit behind its last one is looked at. -/
theorem lastBit_le (hm : m < 2 ^ (f.fractionBits + 1)) (hpos : 0 < m)
    (hq : f.leastQuantum ≤ q) : f.lastBit (m * 2 ^ q) ≤ q := by
  have hlog := f.log_lt hm hpos q
  rw [lastBit]
  omega

/-- Rounding changes nothing where the last bit that is kept is not before that of the number. -/
theorem round_of_lastBit_le (h : f.lastBit (m * 2 ^ q) ≤ q) :
    f.round (m * 2 ^ q) = m * 2 ^ q := by
  obtain ⟨k, hk⟩ := Int.eq_ofNat_of_zero_le (Int.sub_nonneg_of_le h)
  have hwhole : (m * 2 ^ q : ℚ) / 2 ^ f.lastBit (m * 2 ^ q) = (m * 2 ^ k : ℕ) := by
    rw [mul_div_assoc, ← zpow_sub₀ two_ne_zero, hk, zpow_natCast, Nat.cast_mul, Nat.cast_pow,
      Nat.cast_two]
  rw [f.round_eq rfl (by positivity) (by rw [hwhole]; exact .natCast _), ← hwhole]
  exact div_mul_cancel₀ _ (by positivity)

variable {f} in
theorem IsHeld.round_eq (h : f.IsHeld x) : f.round x = x := by
  obtain ⟨m, q, hm, hq, rfl⟩ := h
  rcases Nat.eq_zero_or_pos m with rfl | hpos
  · rw [Nat.cast_zero, zero_mul, round_zero]
  · exact f.round_of_lastBit_le (f.lastBit_le hm hpos hq)

/-- Rounding gives a number that is held. -/
theorem isHeld_round (hx : 0 ≤ x) : f.IsHeld (f.round x) := by
  have hq := f.leastQuantum_le_lastBit x
  rcases (f.significand_le hx).lt_or_eq with hlt | heq
  · exact ⟨f.significand x, f.lastBit x, hlt, hq, rfl⟩
  · -- A significand that is a power of two is the half of it, one bit further up.
    refine ⟨2 ^ f.fractionBits, f.lastBit x + 1, ?_, by omega, ?_⟩
    · exact Nat.pow_lt_pow_right one_lt_two (Nat.lt_succ_self _)
    · rw [round, heq, zpow_add_one₀ two_ne_zero, pow_succ]
      push_cast
      ring

/-- **Rounding leaves a number as it is** exactly if the format holds it. -/
theorem round_eq_self_iff (hx : 0 ≤ x) : f.round x = x ↔ f.IsHeld x :=
  ⟨fun h => h ▸ f.isHeld_round hx, IsHeld.round_eq⟩

/-- Rounding twice is rounding once. -/
theorem round_round (hx : 0 ≤ x) : f.round (f.round x) = f.round x :=
  (f.isHeld_round hx).round_eq

/-- The whole numbers that are held: those with few bits up to the last one that is set. -/
theorem isHeld_natCast_iff (hleast : f.leastQuantum ≤ 0) {n : ℕ} :
    f.IsHeld n ↔ ∃ m k : ℕ, m < 2 ^ (f.fractionBits + 1) ∧ n = m * 2 ^ k := by
  constructor
  · rintro ⟨m, q, hm, -, hn⟩
    rcases le_total 0 q with hge | hle
    · obtain ⟨k, rfl⟩ := Int.eq_ofNat_of_zero_le hge
      exact ⟨m, k, hm, by exact_mod_cast hn⟩
    · have hsmall : (n : ℚ) ≤ m :=
        hn.trans_le
          (mul_le_of_le_one_right (Nat.cast_nonneg m) (zpow_le_one_of_nonpos₀ one_le_two hle))
      exact ⟨n, 0, lt_of_le_of_lt (by exact_mod_cast hsmall) hm, (mul_one n).symm⟩
  · rintro ⟨m, k, hm, rfl⟩
    exact ⟨m, k, hm, by omega, by push_cast; rw [zpow_natCast]⟩

/-- A whole number is rounded to a whole number. -/
theorem exists_round_natCast (n : ℕ) : ∃ k : ℕ, f.round n = k := by
  rcases le_total (f.lastBit n) 0 with hle | hge
  · have hround := f.round_of_lastBit_le (m := n) (q := 0) (by rwa [zpow_zero, mul_one])
    rw [zpow_zero, mul_one] at hround
    exact ⟨n, hround⟩
  · obtain ⟨k, hk⟩ := Int.eq_ofNat_of_zero_le hge
    refine ⟨f.significand n * 2 ^ k, ?_⟩
    rw [round, hk, zpow_natCast]
    push_cast
    rfl

/-- **What is rounded to more than a power of two**: what is above it by more than half a last
bit. -/
theorem two_zpow_lt_round {k : ℤ} (hk : f.leastQuantum + f.fractionBits < k)
    (h : 2 ^ k + 2 ^ (k - f.fractionBits - 1) < x) : 2 ^ k < f.round x := by
  have hpos : (0 : ℚ) < 2 ^ (k - f.fractionBits - 1) := by positivity
  have hx : 0 ≤ x := by
    have : (0 : ℚ) < 2 ^ k := by positivity
    linarith
  by_cases hlt : x < 2 ^ (k + 1)
  · have hlast : f.lastBit x = k - f.fractionBits := by
      rw [f.lastBit_eq (k := k + 1) (by omega) (by rw [add_sub_cancel_right]; linarith) hlt]
      omega
    have hbit : (2 : ℚ) ^ (k - f.fractionBits) = 2 * 2 ^ (k - f.fractionBits - 1) := by
      rw [← zpow_one_add₀ two_ne_zero]
      congr 1
      omega
    have herror := (abs_le.1 (f.abs_round_sub_le hx)).1
    rw [hlast, hbit] at herror
    linarith
  · have hmono := f.round_mono (by positivity) (not_lt.1 hlt)
    rw [f.round_two_zpow (by omega)] at hmono
    exact (zpow_lt_zpow_right₀ one_lt_two (lt_add_one k)).trans_le hmono

/-! ### Patterns of numbers that are held -/

/-- The exponent field of a pattern without a sign. -/
theorem field_lt (hbits : bits < f.signMask) : bits / 2 ^ f.fractionBits < 2 ^ f.exponentBits := by
  rw [Nat.div_lt_iff_lt_mul (Nat.two_pow_pos _), ← Nat.pow_add, Nat.add_comm]
  exact hbits

/-- A pattern without a sign, by its number. -/
theorem of_datum_eq_finite (hbits : bits < f.signMask) {negative : Bool}
    (h : f.datum bits = .finite negative m q) :
    negative = false ∧ m < 2 ^ (f.fractionBits + 1) ∧ f.leastQuantum ≤ q ∧
      (q = f.leastQuantum ∨ 2 ^ f.fractionBits ≤ m) ∧
      bits = (q - f.leastQuantum).toNat * 2 ^ f.fractionBits + m ∧ bits < f.infinity := by
  have hpos := Nat.two_pow_pos f.fractionBits
  have ht := Nat.mod_lt bits hpos
  have hsplit : bits = bits / 2 ^ f.fractionBits * 2 ^ f.fractionBits + bits % 2 ^ f.fractionBits :=
    (Nat.div_add_mod' bits _).symm
  have hfield := f.field_lt hbits
  have htop : bits / 2 ^ f.fractionBits ≠ f.topField := by
    intro htop
    rw [datum] at h
    simp only [Nat.mod_eq_of_lt hfield, if_pos htop] at h
    split at h <;> cases h
  have hlt : bits / 2 ^ f.fractionBits < f.topField :=
    lt_of_le_of_ne (Nat.le_sub_one_of_lt hfield) htop
  have hinfinity : bits < f.infinity := by
    rw [infinity]
    exact (Nat.div_lt_iff_lt_mul hpos).1 hlt
  rw [hsplit, f.datum_of_field hlt ht] at h
  have hpow : 2 ^ (f.fractionBits + 1) = 2 * 2 ^ f.fractionBits := by rw [pow_succ, mul_comm]
  split at h
  · next hzero =>
    cases h
    refine ⟨rfl, by omega, le_refl _, .inl rfl, ?_, hinfinity⟩
    rw [hzero, zero_mul, zero_add] at hsplit
    rw [sub_self, Int.toNat_zero, zero_mul, zero_add]
    exact hsplit
  · next hzero =>
    cases h
    obtain ⟨e, he⟩ := Nat.exists_eq_succ_of_ne_zero hzero
    have hexponent : f.leastQuantum + (bits / 2 ^ f.fractionBits : ℕ) - 1 =
        f.leastQuantum + e := by
      rw [he]
      omega
    rw [hexponent]
    refine ⟨rfl, by omega, by omega, .inr (Nat.le_add_right _ _), ?_, hinfinity⟩
    rw [add_sub_cancel_left, Int.toNat_natCast, ← add_assoc, ← Nat.succ_mul, ← he]
    exact hsplit

/-- **The pattern of a number is found again** from any quotient that is the number. -/
theorem nearest_of_datum (hbits : bits < f.signMask) {negative : Bool}
    (h : f.datum bits = .finite negative m q) (hden : den ≠ 0)
    (hx : (num : ℚ) / den = m * 2 ^ q) : f.nearest num den = bits := by
  obtain ⟨-, hm, hq, hnormal, hpattern, hinfinity⟩ := f.of_datum_eq_finite hbits h
  have hden' : (den : ℚ) ≠ 0 := by exact_mod_cast hden
  rcases Nat.eq_zero_or_pos m with rfl | hpos
  · have hnum : num = 0 := by
      rw [Nat.cast_zero, zero_mul, div_eq_zero_iff, or_iff_left hden'] at hx
      exact_mod_cast hx
    have hleast : q = f.leastQuantum :=
      hnormal.resolve_right (not_le.2 (Nat.two_pow_pos _))
    rw [nearest, if_pos hnum, hpattern, hleast, sub_self, Int.toNat_zero, zero_mul]
  · have hnum : num ≠ 0 := by
      rintro rfl
      rw [Nat.cast_zero, zero_div] at hx
      have : (0 : ℚ) < m * 2 ^ q := by positivity
      exact this.ne hx
    have hlast : f.lastBit (m * 2 ^ q) = q := by
      refine (f.lastBit_le hm hpos hq).antisymm ?_
      rcases hnormal with hleast | hle
      · exact hleast.le.trans (f.leastQuantum_le_lastBit _)
      · have hx : (0 : ℚ) < m * 2 ^ q := by positivity
        have hlog : f.fractionBits + q ≤ Int.log 2 (m * 2 ^ q : ℚ) := by
          refine (Int.zpow_le_iff_le_log (R := ℚ) one_lt_two hx).1 ?_
          rw [Nat.cast_ofNat, zpow_add₀ two_ne_zero, zpow_natCast]
          exact mul_le_mul_of_nonneg_right (by exact_mod_cast hle) (by positivity)
        rw [lastBit]
        omega
    have hsignificand : f.significand (m * 2 ^ q) = m := by
      have hround := f.nearestEven_significand (x := m * 2 ^ q) (by positivity)
      rw [hlast, mul_div_cancel_right₀ _ (by positivity)] at hround
      exact hround.unique (.natCast m)
    rw [f.nearest_eq hnum hden, hx, hlast, hsignificand, ← hpattern, min_eq_right hinfinity.le]

/-- The one pattern without a sign that is an infinity. -/
theorem of_datum_eq_infinite (hbits : bits < f.signMask) {negative : Bool}
    (h : f.datum bits = .infinite negative) : bits = f.infinity := by
  have hfield := f.field_lt hbits
  have hsplit := Nat.div_add_mod' bits (2 ^ f.fractionBits)
  rw [datum] at h
  simp only [Nat.mod_eq_of_lt hfield] at h
  split at h
  · next htop =>
    split at h
    · next hzero => rw [← hsplit, htop, hzero, add_zero, infinity]
    · cases h
  · split at h <;> cases h

end FloatFormat

/-! ### Signs -/

/-- What a pattern stands for when a sign is put on it. -/
def Datum.withSign (negative : Bool) : Datum → Datum
  | .finite _ m q => .finite negative m q
  | .infinite _ => .infinite negative
  | .nan _ fraction => .nan negative fraction

namespace FloatFormat

variable (f : FloatFormat) {bits : ℕ}

/-- The sign of a pattern is the sign of what it stands for, and changes nothing else. -/
theorem datum_signed (hbits : bits < f.signMask) (negative : Bool) :
    f.datum (f.signed negative bits) = (f.datum bits).withSign negative := by
  have hmask : f.signMask = 2 ^ f.fractionBits * 2 ^ f.exponentBits := Nat.pow_add _ _ _
  have hpos := Nat.two_pow_pos f.fractionBits
  have hsign : decide (f.signed negative bits / f.signMask % 2 = 1) = negative := by
    have hmaskpos : 0 < f.signMask := Nat.two_pow_pos _
    cases negative with
    | false => simp [signed, Nat.div_eq_of_lt hbits]
    | true => simp [signed, Nat.add_div_left _ hmaskpos, Nat.div_eq_of_lt hbits]
  have hfield : f.signed negative bits / 2 ^ f.fractionBits % 2 ^ f.exponentBits =
      bits / 2 ^ f.fractionBits % 2 ^ f.exponentBits := by
    cases negative with
    | false => rfl
    | true => rw [signed, if_pos rfl, hmask, Nat.mul_add_div hpos, Nat.add_mod_left]
  have hfraction : f.signed negative bits % 2 ^ f.fractionBits = bits % 2 ^ f.fractionBits := by
    cases negative with
    | false => rfl
    | true => rw [signed, if_pos rfl, hmask, Nat.mul_add_mod]
  unfold datum
  simp only [hsign, hfield, hfraction]
  split_ifs <;> rfl

/-- A pattern is one without a sign, with a sign put on it. -/
theorem exists_signed (hbits : bits < 2 * f.signMask) :
    ∃ negative rest, rest < f.signMask ∧ bits = f.signed negative rest := by
  rcases Nat.lt_or_ge bits f.signMask with hlt | hge
  · exact ⟨false, bits, hlt, rfl⟩
  · exact ⟨true, bits - f.signMask, by omega, (Nat.add_sub_cancel' hge).symm⟩

end FloatFormat

/-! ### Single precision -/

/-- What single precision holds double precision holds, too. -/
theorem isHeld_of_single {x : ℚ} (h : FloatFormat.binary32.IsHeld x) :
    FloatFormat.binary64.IsHeld x := by
  obtain ⟨m, q, hm, hq, rfl⟩ := h
  have hbits : 2 ^ (FloatFormat.binary32.fractionBits + 1) ≤
      2 ^ (FloatFormat.binary64.fractionBits + 1) := by decide
  have hleast : FloatFormat.binary64.leastQuantum ≤ FloatFormat.binary32.leastQuantum := by decide
  exact ⟨m, q, hm.trans_le hbits, hleast.trans hq, rfl⟩

/-- A quotient of naturals is rounded once, whatever its sign. -/
theorem Binary64.datum_ofRatio {num den : ℕ} {k : ℤ} (hden : den ≠ 0) (hk : k ≤ 1023)
    (h : (num : ℚ) / den < 2 ^ k) (negative : Bool) :
    ∃ m q, (Binary64.ofRatio negative num den).datum = .finite negative m q ∧
      (m * 2 ^ q : ℚ) = double (num / den) := by
  have hfin := Binary64.nearest_lt_infinity hden hk h
  have hmask := hfin.trans (show FloatFormat.binary64.infinity < FloatFormat.binary64.signMask by
    decide)
  obtain ⟨m, q, hdatum, hvalue⟩ := FloatFormat.binary64.datum_nearest hden hfin
  refine ⟨m, q, ?_, hvalue⟩
  have hword : FloatFormat.binary64.signed negative (FloatFormat.binary64.nearest num den) <
      2 ^ 64 := by
    have : FloatFormat.binary64.signMask = 2 ^ 63 := by decide
    unfold FloatFormat.signed
    split <;> omega
  rw [Binary64.ofRatio, Binary64.datum, Binary64.toNat_ofPattern hword,
    FloatFormat.datum_signed _ hmask, hdatum]
  rfl

namespace Binary32

/-- A number in single precision is held, and is not too large. -/
theorem isHeld_of_datum {bits m : ℕ} {negative : Bool} {q : ℤ}
    (hbits : bits < FloatFormat.binary32.signMask)
    (h : FloatFormat.binary32.datum bits = .finite negative m q) :
    FloatFormat.binary32.IsHeld (m * 2 ^ q) ∧ (m * 2 ^ q : ℚ) < 2 ^ (128 : ℤ) := by
  obtain ⟨-, hm, hq, hnormal, hpattern, hinfinity⟩ :=
    FloatFormat.binary32.of_datum_eq_finite hbits h
  refine ⟨⟨m, q, hm, hq, rfl⟩, ?_⟩
  have hleast : FloatFormat.binary32.leastQuantum = -149 := by decide
  have htop : FloatFormat.binary32.infinity = 255 * 2 ^ 23 := by decide
  have hfraction : FloatFormat.binary32.fractionBits = 23 := rfl
  rw [hleast, hfraction] at hpattern hnormal
  rw [hfraction] at hm
  have hexponent : q ≤ 104 := by omega
  calc (m * 2 ^ q : ℚ) < 2 ^ (24 : ℤ) * 2 ^ q :=
        mul_lt_mul_of_pos_right (by exact_mod_cast hm) (by positivity)
    _ = 2 ^ (24 + q) := (zpow_add₀ two_ne_zero _ _).symm
    _ ≤ 2 ^ (128 : ℤ) := zpow_le_zpow_right₀ one_le_two (by omega)

/-- **Single precision within double precision**: a number that goes there comes back as the same
pattern. -/
theorem narrow_widen {x : Binary32} (h : ∀ negative fraction, x.datum ≠ .nan negative fraction) :
    x.widen.narrow = x := by
  have hword : x.bits.toNat < 2 * FloatFormat.binary32.signMask := x.bits.toNat_lt
  obtain ⟨negative, bits, hbits, hsigned⟩ := FloatFormat.binary32.exists_signed hword
  have hpattern : (⟨(FloatFormat.binary32.signed negative bits).toUInt32⟩ : Binary32) = x := by
    rw [← hsigned]
    exact congrArg Binary32.mk UInt32.ofNat_toNat
  have hdatum : x.datum = (FloatFormat.binary32.datum bits).withSign negative := by
    rw [datum, hsigned, FloatFormat.datum_signed _ hbits]
  cases hbare : FloatFormat.binary32.datum bits with
  | finite s m q =>
    obtain ⟨hheld, hlt⟩ := isHeld_of_datum hbits hbare
    have hscaled := scaled_one_neg_eq m q
    have hden := (scaled_den_pos m Nat.one_pos (-q)).ne'
    rw [← hscaled] at hlt
    obtain ⟨m', q', hwide, hvalue⟩ := Binary64.datum_ofRatio hden (by decide) hlt negative
    rw [hscaled, double, (isHeld_of_single hheld).round_eq] at hvalue
    have hwidened : x.widen.datum = .finite negative m' q' := by
      rw [widen, hdatum, hbare]
      exact hwide
    have hback : ((scaled m' 1 (-q')).1 : ℚ) / (scaled m' 1 (-q')).2 = m * 2 ^ q := by
      rw [scaled_one_neg_eq, hvalue]
    rw [Binary64.narrow, hwidened]
    simp only
    rw [FloatFormat.binary32.nearest_of_datum hbits hbare
      (scaled_den_pos m' Nat.one_pos (-q')).ne' hback]
    exact hpattern
  | infinite s =>
    have hinfinity := FloatFormat.binary32.of_datum_eq_infinite hbits hbare
    rw [widen, hdatum, hbare, Datum.withSign]
    simp only
    rw [Binary64.narrow, Binary64.datum_infinite]
    simp only
    rw [← hinfinity]
    exact hpattern
  | nan s fraction =>
    rw [hbare] at hdatum
    exact (h _ _ hdatum).elim

end Binary32

end IqTape
