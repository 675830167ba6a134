import Mathlib.Algebra.Order.Floor.Semifield
import IqTape.Proofs.Number.Nearest

/-!
# Arithmetic in double precision

Numbers in double precision that have no sign are added up to what the arithmetic of bit patterns
computes with them: conversion and division round the exact result once, comparison is that of the
numbers, and the whole part is cut off towards zero.  A whole part that is no signed word becomes
the least one.

## Main definitions

* `Binary64.value` — the number that is meant.
* `Binary64.Holds` — a pattern without a sign, and its number.

## Main results

* `Binary64.ofRatio_holds`, `Binary64.Holds.div`, `Binary64.Holds.mul` — rounding once.
* `Binary64.Holds.max`, `Binary64.exists_holds` — comparison.
* `Binary64.nearestWhole_eq` — the nearest whole number.
* `Binary64.Holds.toInt64_eq` — **the whole part as a word**.
-/

namespace IqTape

/-- A number rounded to double precision. -/
abbrev double (v : ℚ) : ℚ := FloatFormat.binary64.round v

/-- Numbers that are rounded to at least `2 ^ 63`: half a last bit below it is enough. -/
theorem double_lt_iff {v : ℚ} (hv : 0 ≤ v) : double v < 2 ^ 63 ↔ v < 2 ^ 63 - 512 := by
  have hiff := FloatFormat.binary64.round_lt_two_zpow_iff (k := 63) (by decide) hv
  have hhalf : (2 : ℚ) ^ ((63 : ℤ) - FloatFormat.binary64.fractionBits - 2) = 512 :=
    (by norm_num : (2 : ℚ) ^ (9 : ℤ) = 512)
  rw [hhalf] at hiff
  exact_mod_cast hiff

/-- A rounded whole number is off by a small part of it. -/
theorem double_natCast_le (n : ℕ) : double n ≤ n + n / 2 ^ 53 := by
  rcases Nat.eq_zero_or_pos n with rfl | hpos
  · simp
  · have hleast : (2 : ℚ) ^ (FloatFormat.binary64.leastQuantum +
        FloatFormat.binary64.fractionBits) ≤ n := by
      have hone : (1 : ℚ) ≤ n := by exact_mod_cast hpos
      exact (zpow_le_one_of_nonpos₀ one_le_two (by decide)).trans hone
    have habove := (abs_le.1 (FloatFormat.binary64.abs_round_sub_le_mul hleast)).2
    have hpart : (n : ℚ) / 2 ^ (FloatFormat.binary64.fractionBits + 1) = n / 2 ^ 53 := rfl
    linarith

/-- The whole part of a rounded number is off by a small part of the number, and by what is cut
off. -/
theorem floor_double_bounds {v : ℚ} (hv : 0 ≤ v) :
    (⌊double v⌋ : ℚ) ≤ v + v / 2 ^ 53 ∧ v - v / 2 ^ 53 < ⌊double v⌋ + 1 := by
  obtain ⟨e, he⟩ : ∃ e : ℤ,
      e = FloatFormat.binary64.leastQuantum + FloatFormat.binary64.fractionBits := ⟨_, rfl⟩
  have hsmall : e = -1022 := he.trans (by decide)
  by_cases hleast : 2 ^ e ≤ v
  · obtain ⟨hbelow, habove⟩ :=
      abs_le.1 (FloatFormat.binary64.abs_round_sub_le_mul (x := v) (by rwa [← he]))
    have hpart : v / 2 ^ (FloatFormat.binary64.fractionBits + 1) = v / 2 ^ 53 := rfl
    have hfloor := Int.floor_le (double v)
    have hnext := Int.lt_floor_add_one (double v)
    constructor <;> linarith
  · -- Of the least numbers, nothing is left.
    have hone : (2 : ℚ) ^ e < 1 := zpow_lt_one_of_neg₀ one_lt_two (by omega)
    have hle := FloatFormat.binary64.round_mono hv (not_le.1 hleast).le
    rw [FloatFormat.binary64.round_two_zpow (by rw [he]; omega)] at hle
    have hzero : ⌊double v⌋ = 0 :=
      Int.floor_eq_zero_iff.2 ⟨FloatFormat.binary64.round_nonneg v, hle.trans_lt hone⟩
    rw [hzero, Int.cast_zero]
    constructor
    · positivity
    · have hless : v < 1 := (not_le.1 hleast).trans hone
      have hpart : 0 ≤ v / 2 ^ 53 := by positivity
      linarith

namespace Binary64

/-- The number that is meant, if any. -/
def value (x : Binary64) : ℚ := x.datum.value

/-- The pattern has no sign, and stands for `v`. -/
def Holds (x : Binary64) (v : ℚ) : Prop :=
  ∃ m q, x.datum = .finite false m q ∧ (m * 2 ^ q : ℚ) = v

variable {x y : Binary64} {v w : ℚ} {k : ℤ}

theorem Holds.value_eq (h : x.Holds v) : x.value = v := by
  obtain ⟨m, q, hdatum, rfl⟩ := h
  simp [value, hdatum, Datum.value]

theorem Holds.nonneg (h : x.Holds v) : 0 ≤ v := by
  obtain ⟨m, q, -, rfl⟩ := h
  positivity

theorem Holds.isFinite (h : x.Holds v) : x.isFinite = true := by
  obtain ⟨m, q, hdatum, -⟩ := h
  rw [Binary64.isFinite, hdatum]

/-! ### Rounding once -/

theorem datum_infinite (negative : Bool) : (infinite negative).datum = .infinite negative := by
  cases negative <;> decide

theorem toNat_ofPattern {bits : ℕ} (h : bits < 2 ^ 64) : (ofPattern bits).bits.toNat = bits :=
  UInt64.toNat_ofNat_of_lt' h

/-- What is below a large power of two is not past the largest number. -/
theorem nearest_lt_infinity {num den : ℕ} (hden : den ≠ 0) (hk : k ≤ 1023)
    (h : (num : ℚ) / den < 2 ^ k) :
    FloatFormat.binary64.nearest num den < FloatFormat.binary64.infinity := by
  refine FloatFormat.binary64.nearest_lt_infinity hden ?_
  have hlog : Int.log 2 ((num : ℚ) / den) < 1023 := by
    have hnonneg : (0 : ℚ) ≤ num / den := div_nonneg (Nat.cast_nonneg _) (Nat.cast_nonneg _)
    rcases hnonneg.eq_or_lt with hzero | hpos
    · rw [← hzero, Int.log_zero_right]
      decide
    · exact lt_of_lt_of_le
        ((Int.lt_zpow_iff_log_lt (R := ℚ) one_lt_two hpos).1 (by rwa [Nat.cast_ofNat])) hk
  have hleast : FloatFormat.binary64.leastQuantum = -1074 := by decide
  have htop : FloatFormat.binary64.topField = 2047 := by decide
  have hbits : FloatFormat.binary64.fractionBits = 52 := rfl
  rw [FloatFormat.lastBit, hleast, htop, hbits]
  omega

theorem ofRatio_holds_of_nearest_lt {num den : ℕ} (hden : den ≠ 0)
    (h : FloatFormat.binary64.nearest num den < FloatFormat.binary64.infinity) :
    (ofRatio false num den).Holds (double (num / den)) := by
  obtain ⟨m, q, hdatum, hvalue⟩ := FloatFormat.binary64.datum_nearest hden h
  refine ⟨m, q, ?_, hvalue⟩
  rw [ofRatio, FloatFormat.signed, if_neg Bool.false_ne_true, datum,
    toNat_ofPattern (h.trans (by decide)), hdatum]

/-- **A quotient of naturals is rounded once.** -/
theorem ofRatio_holds {num den : ℕ} (hden : den ≠ 0) (hk : k ≤ 1023)
    (h : (num : ℚ) / den < 2 ^ k) : (ofRatio false num den).Holds (double (num / den)) :=
  ofRatio_holds_of_nearest_lt hden (nearest_lt_infinity hden hk h)

/-- Where it is not, it is infinite. -/
theorem ofRatio_cases (num : ℕ) {den : ℕ} (hden : den ≠ 0) :
    (ofRatio false num den).Holds (double (num / den)) ∨
      (ofRatio false num den).datum = .infinite false := by
  rcases (FloatFormat.binary64.nearest_le_infinity num hden).lt_or_eq with hlt | heq
  · exact .inl (ofRatio_holds_of_nearest_lt hden hlt)
  · right
    rw [ofRatio, heq]
    decide

theorem ofNat_holds {n : ℕ} (h : n < 2 ^ 64) : (ofNat n).Holds (double n) := by
  have hsmall : ((n : ℕ) : ℚ) / ((1 : ℕ) : ℚ) < 2 ^ (64 : ℤ) := by
    rw [Nat.cast_one, div_one]
    exact_mod_cast h
  have hround := ofRatio_holds Nat.one_ne_zero (by decide) hsmall
  rwa [Nat.cast_one, div_one] at hround

/-- **A quotient is rounded once.** -/
theorem Holds.div (hx : x.Holds v) (hy : y.Holds w) (hpos : 0 < w) (hk : k ≤ 1023)
    (h : v / w < 2 ^ k) : (x.div y).Holds (double (v / w)) := by
  obtain ⟨m, q, hm, rfl⟩ := hx
  obtain ⟨n, r, hn, rfl⟩ := hy
  have hne : n ≠ 0 := by
    rintro rfl
    simp at hpos
  have hquotient : (m * 2 ^ q / (n * 2 ^ r) : ℚ) =
      ((scaled m n (r - q)).1 : ℚ) / (scaled m n (r - q)).2 := by
    rw [scaled_eq, zpow_sub₀ two_ne_zero]
    field_simp
  have hdiv : x.div y = ofRatio false (scaled m n (r - q)).1 (scaled m n (r - q)).2 := by
    rw [Binary64.div, hm, hn]
    simp only [if_neg hne]
    rfl
  rw [hquotient] at h ⊢
  rw [hdiv]
  exact ofRatio_holds (Nat.ne_of_gt (scaled_den_pos m (Nat.pos_of_ne_zero hne) _)) hk h

/-- A product is the pattern nearest to a quotient. -/
theorem Holds.exists_mul_eq (hx : x.Holds v) (hy : y.Holds w) :
    ∃ num den : ℕ, den ≠ 0 ∧ (num : ℚ) / den = v * w ∧ x.mul y = ofRatio false num den := by
  obtain ⟨m, q, hm, rfl⟩ := hx
  obtain ⟨n, r, hn, rfl⟩ := hy
  refine ⟨(scaled (m * n) 1 (-(q + r))).1, (scaled (m * n) 1 (-(q + r))).2,
    (scaled_den_pos (m * n) Nat.one_pos _).ne', ?_, ?_⟩
  · rw [scaled_one_neg_eq, zpow_add₀ two_ne_zero]
    push_cast
    ring
  · rw [Binary64.mul, hm, hn]
    rfl

/-- **A product is rounded once.** -/
theorem Holds.mul (hx : x.Holds v) (hy : y.Holds w) (hk : k ≤ 1023) (h : v * w < 2 ^ k) :
    (x.mul y).Holds (double (v * w)) := by
  obtain ⟨num, den, hden, hquotient, hmul⟩ := hx.exists_mul_eq hy
  rw [← hquotient] at h ⊢
  rw [hmul]
  exact ofRatio_holds hden hk h

/-- Where it is not, it is infinite. -/
theorem Holds.mul_cases (hx : x.Holds v) (hy : y.Holds w) :
    (x.mul y).Holds (double (v * w)) ∨ (x.mul y).datum = .infinite false := by
  obtain ⟨num, den, hden, hquotient, hmul⟩ := hx.exists_mul_eq hy
  rw [← hquotient, hmul]
  exact ofRatio_cases _ hden

/-! ### Comparison -/

/-- A significand shifted to a common last bit. -/
theorem aligned_eq (m : ℕ) {q base : ℤ} (h : base ≤ q) :
    (aligned false m q base : ℚ) * 2 ^ base = m * 2 ^ q := by
  obtain ⟨k, hk⟩ := Int.eq_ofNat_of_zero_le (Int.sub_nonneg_of_le h)
  have hq : q = k + base := by omega
  rw [hq, aligned, if_neg Bool.false_ne_true, add_sub_cancel_right, Int.toNat_natCast,
    zpow_add₀ two_ne_zero, zpow_natCast]
  push_cast
  ring

/-- **Comparison is that of the numbers.** -/
theorem Holds.lt_iff (hx : x.Holds v) (hy : y.Holds w) : x.lt y = true ↔ v < w := by
  obtain ⟨m, q, hm, rfl⟩ := hx
  obtain ⟨n, r, hn, rfl⟩ := hy
  have hpos : (0 : ℚ) < 2 ^ min q r := by positivity
  rw [Binary64.lt, hm, hn]
  simp only [decide_eq_true_eq]
  rw [← aligned_eq m (min_le_left q r), ← aligned_eq n (min_le_right q r),
    mul_lt_mul_iff_left₀ hpos, Int.cast_lt]

theorem Holds.max (hx : x.Holds v) (hy : y.Holds w) : (x.max y).Holds (v ⊔ w) := by
  rw [Binary64.max]
  split
  · next h => rwa [sup_eq_right.2 ((hx.lt_iff hy).1 h).le]
  · next h => rwa [sup_eq_left.2 (not_lt.1 fun hlt => h ((hx.lt_iff hy).2 hlt))]

theorem zero_holds : zero.Holds 0 := ⟨0, -1074, by decide, zero_mul _⟩

/-- A number above zero has no sign. -/
theorem exists_holds (hlt : zero.lt x = true) (hfin : x.isFinite = true) :
    ∃ v, 0 < v ∧ x.Holds v := by
  have hzero : zero.datum = .finite false 0 (-1074) := by decide
  rw [Binary64.isFinite] at hfin
  split at hfin
  · next s m q hdatum =>
    cases s with
    | false =>
      have hx : x.Holds (m * 2 ^ q) := ⟨m, q, hdatum, rfl⟩
      exact ⟨_, (zero_holds.lt_iff hx).1 hlt, hx⟩
    | true =>
      -- What has a sign is not above zero.
      rw [Binary64.lt, hzero, hdatum] at hlt
      have habove := of_decide_eq_true hlt
      have hnonneg : (0 : ℤ) ≤ m * 2 ^ (q - min (-1074) q).toNat := by positivity
      simp only [aligned, Bool.false_eq_true, if_false, if_true] at habove
      omega
  · cases hfin

/-! ### Whole parts -/

/-- A significand is cut off at the point. -/
theorem wholePart_eq (m : ℕ) (q : ℤ) : wholePart m q = ⌊(m * 2 ^ q : ℚ)⌋₊ := by
  have hscaled := scaled_eq m 1 (-q)
  rw [Nat.cast_one, div_one, zpow_neg, div_inv_eq_mul] at hscaled
  rw [← hscaled, Nat.floor_div_eq_div]
  rfl

/-- A significand is rounded to the nearest whole number, a half going up. -/
theorem nearestWhole_eq (m : ℕ) (q : ℤ) : nearestWhole m q = ⌊(m * 2 ^ q + 1 / 2 : ℚ)⌋₊ := by
  have hscaled := scaled_eq m 1 (-q)
  rw [Nat.cast_one, div_one, zpow_neg, div_inv_eq_mul] at hscaled
  have hden : ((scaled m 1 (-q)).2 : ℚ) ≠ 0 := by
    exact_mod_cast (scaled_den_pos m Nat.one_pos (-q)).ne'
  have hhalf : (m * 2 ^ q + 1 / 2 : ℚ) =
      ((2 * (scaled m 1 (-q)).1 + (scaled m 1 (-q)).2 : ℕ) : ℚ) /
        (2 * (scaled m 1 (-q)).2 : ℕ) := by
    rw [← hscaled]
    push_cast
    field_simp
  rw [hhalf, Nat.floor_div_eq_div]
  rfl

/-- **The whole part as a word.**  What is too large becomes the least word. -/
theorem Holds.toInt64_eq (h : x.Holds v) :
    x.toInt64 = if v < 2 ^ 63 then ⌊v⌋ else -2 ^ 63 := by
  have hnonneg := h.nonneg
  obtain ⟨m, q, hdatum, rfl⟩ := h
  have hfloor : ((⌊(m * 2 ^ q : ℚ)⌋₊ : ℕ) : ℤ) = ⌊(m * 2 ^ q : ℚ)⌋ :=
    Int.natCast_floor_eq_floor hnonneg
  have hfits : ⌊(m * 2 ^ q : ℚ)⌋ < 2 ^ 63 ↔ (m * 2 ^ q : ℚ) < 2 ^ 63 := by
    rw [Int.floor_lt]
    norm_num
  rw [toInt64, hdatum]
  simp only [Bool.false_eq_true, if_false, wholePart_eq, hfloor]
  have hbelow : (-2 ^ 63 : ℤ) ≤ ⌊(m * 2 ^ q : ℚ)⌋ := by
    have := Int.floor_nonneg.2 hnonneg
    omega
  simp only [hbelow, true_and, hfits]

end Binary64
end IqTape
