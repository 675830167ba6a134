import Mathlib.Algebra.Order.Field.Power
import Mathlib.Algebra.Order.Field.Rat
import Mathlib.Data.Int.Log
import Mathlib.Data.Rat.Floor
import Mathlib.Tactic.FieldSimp
import Mathlib.Tactic.Linarith
import Mathlib.Tactic.NormNum
import Mathlib.Tactic.Positivity
import Mathlib.Tactic.Ring
import IqTape.Number.Binary

/-!
# Rounding to a binary format

A binary format keeps of a number so many bits, from the first one on, or all down to a least
bit.  The number kept is the nearest one, and the one with an even significand of two that are
equally near.  That determines it: which natural numbers a quotient was given by does not
matter, and rounding keeps the order of numbers.  The bit pattern nearest to a quotient stands
for the number kept, as long as that is not past the largest one.

## Main definitions

* `NearestEven` — the specification of rounding to a whole number.
* `FloatFormat.lastBit`, `FloatFormat.significand`, `FloatFormat.round` — what is kept of a number.
* `Datum.value` — the number that a bit pattern stands for.

## Main results

* `NearestEven.mono`, `NearestEven.unique` — the specification determines the result.
* `nearestEven_roundEven`, `magnitude_eq` — what the arithmetic of naturals computes.
* `FloatFormat.round_mono`, `FloatFormat.abs_round_sub_le` — order and accuracy.
* `FloatFormat.round_lt_two_zpow_iff` — **what is rounded up to a power of two**.
* `FloatFormat.datum_nearest` — **the pattern nearest to a quotient**.
-/

namespace IqTape

/-! ### Whole numbers -/

/-- A whole number is as near as any to `x`, and even if it is not the only one. -/
structure NearestEven (x : ℚ) (n : ℕ) : Prop where
  /-- It is at most a half too large. -/
  le : (n : ℚ) ≤ x + 1 / 2
  /-- It is at most a half too small. -/
  ge : x ≤ n + 1 / 2
  /-- It is even if it is a half too large. -/
  even_of_above : (n : ℚ) = x + 1 / 2 → n % 2 = 0
  /-- It is even if it is a half too small. -/
  even_of_below : x = n + 1 / 2 → n % 2 = 0

namespace NearestEven

variable {x y : ℚ} {m n : ℕ}

theorem natCast (n : ℕ) : NearestEven n n := by
  refine ⟨by linarith, by linarith, ?_, ?_⟩ <;> intro h <;> linarith

/-- **Rounding keeps the order.** -/
theorem mono (hx : NearestEven x m) (hy : NearestEven y n) (h : x ≤ y) : m ≤ n := by
  by_contra hlt
  have hle : (n : ℚ) + 1 ≤ m := by exact_mod_cast Nat.lt_of_not_le hlt
  have hm := hx.le
  have hn := hy.ge
  -- Both are halfway between the same neighbours, so both of those are even.
  have hnext : (m : ℚ) = n + 1 := by linarith
  have hmeven : m % 2 = 0 := hx.even_of_above (by linarith)
  have hneven : n % 2 = 0 := hy.even_of_below (by linarith)
  have hsucc : m = n + 1 := by exact_mod_cast hnext
  omega

theorem unique (hm : NearestEven x m) (hn : NearestEven x n) : m = n :=
  Nat.le_antisymm (hm.mono hn (le_refl x)) (hn.mono hm (le_refl x))

theorem le_of_le (hx : NearestEven x m) (h : x ≤ n) : m ≤ n := hx.mono (natCast n) h

theorem le_of_ge (hx : NearestEven x m) (h : (n : ℚ) ≤ x) : n ≤ m := (natCast n).mono hx h

end NearestEven

/-- A tie goes to the even neighbour. -/
theorem roundEven_even_of_tie {num den : ℕ} (h : 0 < den)
    (htie : 2 * (roundEven num den * den) = 2 * num + den ∨
      2 * num = 2 * (roundEven num den * den) + den) : roundEven num den % 2 = 0 := by
  have hdiv : num / den * den + num % den = num := by
    rw [Nat.mul_comm]; exact Nat.div_add_mod num den
  have hlt := Nat.mod_lt num h
  have hsucc : (num / den + 1) * den = num / den * den + den := by
    rw [Nat.add_mul, Nat.one_mul]
  unfold roundEven at htie ⊢
  simp only at htie ⊢
  split_ifs at htie ⊢ <;> omega

/-- **Rounding a quotient to even** gives the nearest whole number. -/
theorem nearestEven_roundEven (num : ℕ) {den : ℕ} (h : 0 < den) :
    NearestEven ((num : ℚ) / den) (roundEven num den) := by
  have hden : (0 : ℚ) < den := by exact_mod_cast h
  have habove : (2 * (roundEven num den * den) : ℚ) ≤ 2 * num + den := by
    exact_mod_cast two_mul_roundEven_le h
  have hbelow : (2 * num : ℚ) ≤ 2 * (roundEven num den * den) + den := by
    exact_mod_cast le_two_mul_roundEven h
  have hx : (num : ℚ) / den * den = num := div_mul_cancel₀ _ hden.ne'
  refine ⟨?_, ?_, fun htie => ?_, fun htie => ?_⟩
  · refine le_of_mul_le_mul_right ?_ hden
    linarith
  · refine le_of_mul_le_mul_right ?_ hden
    linarith
  · refine roundEven_even_of_tie h (.inl ?_)
    have heq : (roundEven num den : ℚ) * den = num + den / 2 := by rw [htie]; linarith
    exact_mod_cast (show (2 * (roundEven num den * den) : ℚ) = 2 * num + den by linarith)
  · refine roundEven_even_of_tie h (.inr ?_)
    have heq : (num : ℚ) = roundEven num den * den + den / 2 := by rw [← hx, htie]; linarith
    exact_mod_cast (show (2 * num : ℚ) = 2 * (roundEven num den * den) + den by linarith)

/-! ### Powers of two -/

theorem scaled_den_pos (num : ℕ) {den : ℕ} (h : 0 < den) (q : ℤ) : 0 < (scaled num den q).2 := by
  unfold scaled
  split
  · exact Nat.mul_pos h (Nat.two_pow_pos _)
  · exact h

/-- What `scaled` gives, as a quotient. -/
theorem scaled_eq (num den : ℕ) (q : ℤ) :
    ((scaled num den q).1 : ℚ) / (scaled num den q).2 = num / den / 2 ^ q := by
  unfold scaled
  split
  · next h =>
    have hpow : ((2 ^ q.toNat : ℕ) : ℚ) = 2 ^ q := by
      rw [Nat.cast_pow, Nat.cast_two, ← zpow_natCast, Int.toNat_of_nonneg h]
    rw [Nat.cast_mul, hpow, div_div]
  · next h =>
    have hpow : ((2 ^ (-q).toNat : ℕ) : ℚ) = (2 ^ q)⁻¹ := by
      rw [Nat.cast_pow, Nat.cast_two, ← zpow_natCast, Int.toNat_of_nonneg (by omega), zpow_neg]
    rw [Nat.cast_mul, hpow, div_right_comm, div_eq_mul_inv (num : ℚ)]

theorem scaled_num_pos {num : ℕ} (h : 0 < num) (den : ℕ) (q : ℤ) : 0 < (scaled num den q).1 := by
  unfold scaled
  split
  · exact h
  · exact Nat.mul_pos h (Nat.two_pow_pos _)

/-- A significand and an exponent, as a quotient. -/
theorem scaled_one_neg_eq (m : ℕ) (q : ℤ) :
    ((scaled m 1 (-q)).1 : ℚ) / (scaled m 1 (-q)).2 = m * 2 ^ q := by
  rw [scaled_eq, Nat.cast_one, div_one, zpow_neg, div_inv_eq_mul]

/-- The magnitude of a number, by the powers of two around it. -/
theorem log_eq_iff {x : ℚ} (hx : 0 < x) {k : ℤ} :
    Int.log 2 x = k ↔ 2 ^ k ≤ x ∧ x < 2 ^ (k + 1) := by
  have hle : (2 : ℚ) ^ k ≤ x ↔ k ≤ Int.log 2 x := by
    simpa only [Nat.cast_ofNat] using Int.zpow_le_iff_le_log (R := ℚ) one_lt_two hx
  have hlt : x < (2 : ℚ) ^ (k + 1) ↔ Int.log 2 x < k + 1 := by
    simpa only [Nat.cast_ofNat] using Int.lt_zpow_iff_log_lt (R := ℚ) one_lt_two hx
  rw [hle, hlt]
  omega

theorem log2_bounds {n : ℕ} (h : n ≠ 0) :
    (2 : ℚ) ^ (n.log2 : ℤ) ≤ n ∧ (n : ℚ) < 2 ^ ((n.log2 : ℤ) + 1) := by
  have hle : 2 ^ n.log2 ≤ n := Nat.log2_self_le h
  have hlt : n < 2 ^ (n.log2 + 1) := Nat.lt_log2_self
  constructor
  · rw [zpow_natCast]
    exact_mod_cast hle
  · rw [← Nat.cast_succ, zpow_natCast]
    exact_mod_cast hlt

/-- **The magnitude of a quotient.** -/
theorem magnitude_eq {num den : ℕ} (hnum : num ≠ 0) (hden : den ≠ 0) :
    magnitude num den = Int.log 2 ((num : ℚ) / den) := by
  have hnum' : (0 : ℚ) < num := by exact_mod_cast Nat.pos_of_ne_zero hnum
  have hden' : (0 : ℚ) < den := by exact_mod_cast Nat.pos_of_ne_zero hden
  obtain ⟨hnumle, hnumlt⟩ := log2_bounds hnum
  obtain ⟨hdenle, hdenlt⟩ := log2_bounds hden
  obtain ⟨k, hk⟩ : ∃ k : ℤ, k = (num.log2 : ℤ) - den.log2 := ⟨_, rfl⟩
  -- The quotient is between half the power of two and twice it.
  have hbelow : (2 : ℚ) ^ (k - 1) < num / den := by
    rw [lt_div_iff₀ hden']
    calc (2 : ℚ) ^ (k - 1) * den < 2 ^ (k - 1) * 2 ^ ((den.log2 : ℤ) + 1) :=
          mul_lt_mul_of_pos_left hdenlt (by positivity)
      _ = 2 ^ (num.log2 : ℤ) := by rw [← zpow_add₀ two_ne_zero]; congr 1; omega
      _ ≤ num := hnumle
  have habove : (num : ℚ) / den < 2 ^ (k + 1) := by
    rw [div_lt_iff₀ hden']
    calc (num : ℚ) < 2 ^ ((num.log2 : ℤ) + 1) := hnumlt
      _ = 2 ^ (k + 1) * 2 ^ (den.log2 : ℤ) := by rw [← zpow_add₀ two_ne_zero]; congr 1; omega
      _ ≤ 2 ^ (k + 1) * den := mul_le_mul_of_nonneg_left hdenle (by positivity)
  have hiff : (scaled num den k).2 ≤ (scaled num den k).1 ↔ (2 : ℚ) ^ k ≤ num / den := by
    have hpos : (0 : ℚ) < (scaled num den k).2 := by
      exact_mod_cast scaled_den_pos num (Nat.pos_of_ne_zero hden) k
    have hone : 1 ≤ (num : ℚ) / den / 2 ^ k ↔ (2 : ℚ) ^ k ≤ num / den :=
      one_le_div₀ (by positivity)
    rw [← hone, ← scaled_eq, one_le_div₀ hpos, Nat.cast_le]
  have hmagnitude : magnitude num den =
      if (scaled num den k).2 ≤ (scaled num den k).1 then k else k - 1 := by
    rw [magnitude, ← hk]
  rw [hmagnitude]
  symm
  split
  · next h => exact (log_eq_iff (by positivity)).2 ⟨hiff.1 h, habove⟩
  · next h =>
    refine (log_eq_iff (by positivity)).2 ⟨hbelow.le, ?_⟩
    rw [sub_add_cancel]
    exact lt_of_not_ge fun hle => h (hiff.2 hle)

namespace FloatFormat

variable (f : FloatFormat) {x y : ℚ}

/-! ### The number kept of a number -/

/-- The exponent of the last bit that the format keeps of `x`. -/
def lastBit (x : ℚ) : ℤ := max f.leastQuantum (Int.log 2 x - f.fractionBits)

/-- The significand that it keeps. -/
def significand (x : ℚ) : ℕ :=
  roundEven (x / 2 ^ f.lastBit x).num.toNat (x / 2 ^ f.lastBit x).den

/-- The number of the format that is nearest to `x`, were there no largest one. -/
def round (x : ℚ) : ℚ := f.significand x * 2 ^ f.lastBit x

theorem leastQuantum_le_lastBit (x : ℚ) : f.leastQuantum ≤ f.lastBit x := le_max_left _ _

theorem lastBit_mono (hx : 0 < x) (h : x ≤ y) : f.lastBit x ≤ f.lastBit y :=
  max_le_max_left _ (Int.sub_le_sub_right (Int.log_mono_right hx h) _)

theorem nearestEven_significand (hx : 0 ≤ x) :
    NearestEven (x / 2 ^ f.lastBit x) (f.significand x) := by
  have hpos : 0 ≤ x / 2 ^ f.lastBit x := by positivity
  have hnum : ((x / 2 ^ f.lastBit x).num.toNat : ℚ) = (x / 2 ^ f.lastBit x).num := by
    exact_mod_cast Int.toNat_of_nonneg (Rat.num_nonneg.2 hpos)
  have hround := nearestEven_roundEven (x / 2 ^ f.lastBit x).num.toNat
    (x / 2 ^ f.lastBit x).den_pos
  rwa [hnum, Rat.num_div_den] at hround

/-- A significand is a power of two at most. -/
theorem significand_le (hx : 0 ≤ x) : f.significand x ≤ 2 ^ (f.fractionBits + 1) := by
  refine (f.nearestEven_significand hx).le_of_le ?_
  have hlt : x < 2 ^ (Int.log 2 x + 1) := by
    simpa only [Nat.cast_ofNat] using Int.lt_zpow_succ_log_self (R := ℚ) one_lt_two x
  have hle : Int.log 2 x - f.fractionBits ≤ f.lastBit x := le_max_right _ _
  rw [div_le_iff₀ (by positivity), Nat.cast_pow, Nat.cast_two, ← zpow_natCast,
    ← zpow_add₀ two_ne_zero]
  refine hlt.le.trans (zpow_le_zpow_right₀ one_le_two ?_)
  push_cast
  omega

/-- Unless the last bit is the least one, all bits of the significand are used. -/
theorem le_significand (hx : 0 < x) (h : f.leastQuantum < f.lastBit x) :
    2 ^ f.fractionBits ≤ f.significand x := by
  refine (f.nearestEven_significand hx.le).le_of_ge ?_
  have hle : (2 : ℚ) ^ Int.log 2 x ≤ x := by
    simpa only [Nat.cast_ofNat] using Int.zpow_log_le_self (R := ℚ) one_lt_two hx
  have heq : f.lastBit x = Int.log 2 x - f.fractionBits := by
    unfold lastBit at h ⊢
    omega
  rw [le_div_iff₀ (by positivity), Nat.cast_pow, Nat.cast_two, ← zpow_natCast,
    ← zpow_add₀ two_ne_zero, heq, add_sub_cancel]
  exact hle

@[simp] theorem round_zero : f.round 0 = 0 := by
  have hzero : f.significand 0 = 0 := by
    refine Nat.le_zero.1 ((f.nearestEven_significand (le_refl 0)).le_of_le ?_)
    simp
  rw [round, hzero, Nat.cast_zero, zero_mul]

theorem round_nonneg (x : ℚ) : 0 ≤ f.round x := by
  unfold round
  positivity

/-- **Rounding keeps the order of numbers.** -/
theorem round_mono (hx : 0 ≤ x) (h : x ≤ y) : f.round x ≤ f.round y := by
  rcases hx.eq_or_lt with rfl | hpos
  · rw [round_zero]
    exact f.round_nonneg y
  have hy : 0 < y := hpos.trans_le h
  rcases (f.lastBit_mono hpos h).eq_or_lt with hsame | hlt
  · have hle : f.significand x ≤ f.significand y := by
      refine (f.nearestEven_significand hx).mono (f.nearestEven_significand hy.le) ?_
      rw [hsame]
      exact div_le_div_of_nonneg_right h (by positivity)
    rw [round, round, hsame]
    exact mul_le_mul_of_nonneg_right (by exact_mod_cast hle) (by positivity)
  · -- The smaller number is at most a power of two that the larger one is at least.
    have hsmall : (f.significand x : ℚ) ≤ 2 ^ (f.fractionBits + 1) := by
      exact_mod_cast f.significand_le hx
    have hlarge : (2 : ℚ) ^ f.fractionBits ≤ f.significand y := by
      exact_mod_cast f.le_significand hy ((f.leastQuantum_le_lastBit x).trans_lt hlt)
    calc f.round x ≤ 2 ^ (f.fractionBits + 1) * 2 ^ f.lastBit x :=
          mul_le_mul_of_nonneg_right hsmall (by positivity)
      _ = 2 ^ f.fractionBits * 2 ^ (f.lastBit x + 1) := by
          rw [zpow_add_one₀ two_ne_zero, pow_succ]; ring
      _ ≤ 2 ^ f.fractionBits * 2 ^ f.lastBit y :=
          mul_le_mul_of_nonneg_left (zpow_le_zpow_right₀ one_le_two hlt) (by positivity)
      _ ≤ f.round y := mul_le_mul_of_nonneg_right hlarge (by positivity)

/-- A number is off by half its last bit at most. -/
theorem abs_round_sub_le (hx : 0 ≤ x) : |f.round x - x| ≤ 2 ^ f.lastBit x / 2 := by
  have hpos : (0 : ℚ) < 2 ^ f.lastBit x := by positivity
  have hround := f.nearestEven_significand hx
  have hx' : x / 2 ^ f.lastBit x * 2 ^ f.lastBit x = x := div_mul_cancel₀ x hpos.ne'
  have habove := mul_le_mul_of_nonneg_right hround.le hpos.le
  have hbelow := mul_le_mul_of_nonneg_right hround.ge hpos.le
  rw [abs_le, round]
  constructor <;> linarith

/-- A number that is not among the least ones is off by a small part of itself. -/
theorem abs_round_sub_le_mul (h : 2 ^ (f.leastQuantum + f.fractionBits) ≤ x) :
    |f.round x - x| ≤ x / 2 ^ (f.fractionBits + 1) := by
  have hx : 0 < x := lt_of_lt_of_le (by positivity) h
  have hlog : f.leastQuantum + f.fractionBits ≤ Int.log 2 x :=
    (Int.zpow_le_iff_le_log (R := ℚ) one_lt_two hx).1 (by simpa only [Nat.cast_ofNat] using h)
  have heq : f.lastBit x = Int.log 2 x - f.fractionBits := by
    unfold lastBit
    omega
  have hle : (2 : ℚ) ^ Int.log 2 x ≤ x := by
    simpa only [Nat.cast_ofNat] using Int.zpow_log_le_self (R := ℚ) one_lt_two hx
  refine (f.abs_round_sub_le hx.le).trans ?_
  rw [heq, zpow_sub₀ two_ne_zero, zpow_natCast, div_div, ← pow_succ]
  exact div_le_div_of_nonneg_right hle (by positivity)

/-- Where the last bit of `x` is known, what is nearest to `x` is found among whole multiples. -/
theorem round_eq {q : ℤ} {n : ℕ} (hq : f.lastBit x = q) (hx : 0 ≤ x)
    (h : NearestEven (x / 2 ^ q) n) : f.round x = n * 2 ^ q := by
  have hround := f.nearestEven_significand hx
  rw [hq] at hround
  rw [round, hq, hround.unique h]

/-- A power of two is kept as it is. -/
theorem round_two_zpow {k : ℤ} (h : f.leastQuantum ≤ k) : f.round (2 ^ k) = 2 ^ k := by
  have hlog : Int.log 2 ((2 : ℚ) ^ k) = k := by
    simpa only [Nat.cast_ofNat] using Int.log_zpow (R := ℚ) one_lt_two k
  have hlast : f.lastBit (2 ^ k) ≤ k := by
    rw [lastBit, hlog]
    omega
  obtain ⟨n, hn⟩ := Int.eq_ofNat_of_zero_le (Int.sub_nonneg_of_le hlast)
  have hwhole : (2 : ℚ) ^ k / 2 ^ f.lastBit (2 ^ k) = (2 ^ n : ℕ) := by
    rw [← zpow_sub₀ two_ne_zero, hn, zpow_natCast, Nat.cast_pow, Nat.cast_two]
  rw [f.round_eq rfl (by positivity) (by rw [hwhole]; exact .natCast _), ← hwhole]
  exact div_mul_cancel₀ _ (by positivity)

theorem lastBit_eq {k : ℤ} (hk : f.leastQuantum + f.fractionBits < k) (hle : 2 ^ (k - 1) ≤ x)
    (hlt : x < 2 ^ k) : f.lastBit x = k - f.fractionBits - 1 := by
  have hlog : Int.log 2 x = k - 1 :=
    (log_eq_iff (lt_of_lt_of_le (by positivity) hle)).2 ⟨hle, by rwa [sub_add_cancel]⟩
  rw [lastBit, hlog]
  omega

/-- Half a last bit below a power of two, the number kept is that power: the one below it has an
odd significand. -/
theorem round_midpoint {k : ℤ} (hk : f.leastQuantum + f.fractionBits < k) :
    f.round (2 ^ k - 2 ^ (k - f.fractionBits - 2)) = 2 ^ k := by
  obtain ⟨q, hq⟩ : ∃ q : ℤ, q = k - f.fractionBits - 1 := ⟨_, rfl⟩
  have hwhole : (2 : ℚ) ^ k = (2 ^ (f.fractionBits + 1) : ℕ) * 2 ^ q := by
    rw [Nat.cast_pow, Nat.cast_two, ← zpow_natCast, ← zpow_add₀ two_ne_zero]
    congr 1
    push_cast
    omega
  have hbit : (2 : ℚ) ^ q = 2 * 2 ^ (k - f.fractionBits - 2) := by
    rw [← zpow_one_add₀ two_ne_zero]
    congr 1
    omega
  have hhalf : (2 : ℚ) ^ k = 2 * 2 ^ (k - 1) := by
    rw [← zpow_one_add₀ two_ne_zero]
    congr 1
    omega
  have hsmall : (2 : ℚ) ^ (k - f.fractionBits - 2) ≤ 2 ^ (k - 1) :=
    zpow_le_zpow_right₀ one_le_two (by omega)
  have hpos : (0 : ℚ) < 2 ^ (k - f.fractionBits - 2) := by positivity
  have hlast : f.lastBit (2 ^ k - 2 ^ (k - f.fractionBits - 2)) = q := by
    rw [hq]
    exact f.lastBit_eq hk (by linarith) (by linarith)
  have hquotient : ((2 : ℚ) ^ k - 2 ^ (k - f.fractionBits - 2)) / 2 ^ q =
      (2 ^ (f.fractionBits + 1) : ℕ) - 1 / 2 := by
    rw [hwhole, div_eq_iff (by positivity), hbit]
    ring
  rw [f.round_eq hlast (by linarith) ?_, ← hwhole]
  rw [hquotient]
  refine ⟨by linarith, by linarith, fun _ => ?_, fun h => by linarith⟩
  rw [pow_succ, Nat.mul_mod_left]

/-- **What is rounded up to a power of two**: what is above it, or below it by half a last bit at
most. -/
theorem round_lt_two_zpow_iff {k : ℤ} (hk : f.leastQuantum + f.fractionBits < k) (hx : 0 ≤ x) :
    f.round x < 2 ^ k ↔ x < 2 ^ k - 2 ^ (k - f.fractionBits - 2) := by
  obtain ⟨q, hq⟩ : ∃ q : ℤ, q = k - f.fractionBits - 1 := ⟨_, rfl⟩
  have hpos : (0 : ℚ) < 2 ^ q := by positivity
  have hbit : (2 : ℚ) ^ (k - f.fractionBits - 2) = 2 ^ q / 2 := by
    rw [hq, eq_div_iff two_ne_zero, ← zpow_add_one₀ two_ne_zero]
    congr 1
    omega
  constructor
  · intro hround
    by_contra hge
    have hmid : f.round (2 ^ k - 2 ^ (k - f.fractionBits - 2)) ≤ f.round x := by
      refine f.round_mono ?_ (not_lt.1 hge)
      rw [sub_nonneg]
      exact zpow_le_zpow_right₀ one_le_two (by omega)
    rw [f.round_midpoint hk] at hmid
    exact absurd hround (not_lt.2 hmid)
  · intro hlt
    by_cases hle : 2 ^ (k - 1) ≤ x
    · have hbelow : x < 2 ^ k := hlt.trans_le (by rw [hbit]; linarith)
      have hlast : f.lastBit x = q := by rw [hq, f.lastBit_eq hk hle hbelow]
      have herror := (abs_le.1 (f.abs_round_sub_le hx)).2
      rw [hlast] at herror
      rw [hbit] at hlt
      linarith
    · have hmono := f.round_mono hx (not_le.1 hle).le
      rw [f.round_two_zpow (by omega)] at hmono
      exact hmono.trans_lt (zpow_lt_zpow_right₀ one_lt_two (by omega))

end FloatFormat

/-! ### Bit patterns -/

/-- The number that is meant, if any. -/
def Datum.value : Datum → ℚ
  | .finite negative m q => (if negative then -1 else 1) * (m * 2 ^ q)
  | _ => 0

namespace FloatFormat

variable (f : FloatFormat) {num den : ℕ}

/-- The pattern nearest to a quotient, by its significand and its last bit. -/
theorem nearest_eq (hnum : num ≠ 0) (hden : den ≠ 0) :
    f.nearest num den = min f.infinity
      ((f.lastBit (num / den) - f.leastQuantum).toNat * 2 ^ f.fractionBits +
        f.significand (num / den)) := by
  have hquantum : f.quantum num den = f.lastBit (num / den) := by
    rw [quantum, magnitude_eq hnum hden, lastBit]
  have hsignificand : roundEven (scaled num den (f.lastBit (num / den))).1
      (scaled num den (f.lastBit (num / den))).2 = f.significand (num / den) := by
    have hround := nearestEven_roundEven
      (scaled num den (f.lastBit ((num : ℚ) / den))).1
      (scaled_den_pos num (Nat.pos_of_ne_zero hden) (f.lastBit ((num : ℚ) / den)))
    rw [scaled_eq] at hround
    exact hround.unique (f.nearestEven_significand (by positivity))
  rw [nearest, if_neg hnum, hquantum, ← hsignificand]

theorem nearest_le_infinity (num : ℕ) (hden : den ≠ 0) : f.nearest num den ≤ f.infinity := by
  rcases Nat.eq_zero_or_pos num with rfl | hpos
  · simp [nearest]
  · rw [f.nearest_eq hpos.ne' hden]
    exact min_le_left _ _

/-- What a pattern without a sign stands for, by its exponent field and its fraction. -/
theorem datum_of_field {e t : ℕ} (he : e < f.topField) (ht : t < 2 ^ f.fractionBits) :
    f.datum (e * 2 ^ f.fractionBits + t) =
      if e = 0 then .finite false t f.leastQuantum
      else .finite false (2 ^ f.fractionBits + t) (f.leastQuantum + e - 1) := by
  have hfield : e < 2 ^ f.exponentBits := lt_of_lt_of_le he (Nat.sub_le _ _)
  have hquotient : (e * 2 ^ f.fractionBits + t) / 2 ^ f.fractionBits = e := by
    rw [Nat.add_comm, Nat.add_mul_div_right _ _ (Nat.two_pow_pos _), Nat.div_eq_of_lt ht,
      Nat.zero_add]
  have hremainder : (e * 2 ^ f.fractionBits + t) % 2 ^ f.fractionBits = t := by
    rw [Nat.add_comm, Nat.add_mul_mod_self_right, Nat.mod_eq_of_lt ht]
  have hsign : (e * 2 ^ f.fractionBits + t) / f.signMask = 0 := by
    rw [signMask, Nat.pow_add, ← Nat.div_div_eq_div_mul, hquotient, Nat.div_eq_of_lt hfield]
  unfold datum
  simp only [hquotient, hremainder, hsign, Nat.mod_eq_of_lt hfield, if_neg (Nat.ne_of_lt he)]
  rfl

/-- The number of a pattern whose significand may have been rounded up to a power of two. -/
theorem datum_of_significand {k s : ℕ} (hs : s ≤ 2 ^ (f.fractionBits + 1))
    (hk : k = 0 ∨ 2 ^ f.fractionBits ≤ s) (hfin : k * 2 ^ f.fractionBits + s < f.infinity) :
    ∃ m q, f.datum (k * 2 ^ f.fractionBits + s) = .finite false m q ∧
      (m * 2 ^ q : ℚ) = s * 2 ^ (f.leastQuantum + k) := by
  have hpos := Nat.two_pow_pos f.fractionBits
  have hfield {e t : ℕ} (h : e * 2 ^ f.fractionBits + t < f.infinity) : e < f.topField := by
    refine lt_of_mul_lt_mul_right ?_ hpos.le
    exact lt_of_le_of_lt (Nat.le_add_right _ t) h
  rcases Nat.lt_or_ge s (2 ^ f.fractionBits) with hleast | hnormal
  · obtain rfl : k = 0 := by omega
    rw [f.datum_of_field (hfield hfin) hleast]
    exact ⟨s, f.leastQuantum, rfl, by simp⟩
  rcases Nat.lt_or_ge s (2 ^ (f.fractionBits + 1)) with hlt | hge
  · have hsplit : k * 2 ^ f.fractionBits + s =
        (k + 1) * 2 ^ f.fractionBits + (s - 2 ^ f.fractionBits) := by
      rw [Nat.add_mul, Nat.one_mul]
      omega
    rw [hsplit] at hfin ⊢
    rw [f.datum_of_field (hfield hfin) (by rw [Nat.pow_succ] at hlt; omega),
      if_neg (Nat.succ_ne_zero k)]
    refine ⟨_, _, rfl, ?_⟩
    rw [Nat.add_sub_cancel' hnormal]
    congr 2
    push_cast
    omega
  · -- The carry out of the significand is one more in the exponent field.
    obtain rfl : s = 2 ^ (f.fractionBits + 1) := Nat.le_antisymm hs hge
    have hsplit : k * 2 ^ f.fractionBits + 2 ^ (f.fractionBits + 1) =
        (k + 2) * 2 ^ f.fractionBits + 0 := by
      rw [Nat.add_mul, Nat.pow_succ]
      omega
    rw [hsplit] at hfin ⊢
    rw [f.datum_of_field (hfield hfin) hpos, if_neg (by omega)]
    refine ⟨_, _, rfl, ?_⟩
    have hexponent : f.leastQuantum + ((k + 2 : ℕ) : ℤ) - 1 = f.leastQuantum + k + 1 := by
      push_cast
      omega
    rw [hexponent, zpow_add_one₀ two_ne_zero]
    push_cast
    ring

/-- **The pattern nearest to a quotient** stands for the quotient rounded, unless that is past the
largest number. -/
theorem datum_nearest (hden : den ≠ 0) (hfin : f.nearest num den < f.infinity) :
    ∃ m q, f.datum (f.nearest num den) = .finite false m q ∧
      (m * 2 ^ q : ℚ) = f.round (num / den) := by
  rcases Nat.eq_zero_or_pos num with rfl | hpos
  · have hzero : f.nearest 0 den = 0 * 2 ^ f.fractionBits + 0 := by simp [nearest]
    rw [hzero] at hfin ⊢
    obtain ⟨m, q, hdatum, hvalue⟩ := f.datum_of_significand (Nat.zero_le _) (.inl rfl) hfin
    exact ⟨m, q, hdatum, by rw [hvalue]; simp⟩
  · have hx : (0 : ℚ) < num / den := by
      have hnum : (0 : ℚ) < num := by exact_mod_cast hpos
      have hden' : (0 : ℚ) < den := by exact_mod_cast Nat.pos_of_ne_zero hden
      positivity
    rw [f.nearest_eq (Nat.ne_of_gt hpos) hden] at hfin ⊢
    have hlt := (min_lt_iff.1 hfin).resolve_left (lt_irrefl _)
    rw [min_eq_right hlt.le]
    have hle := f.leastQuantum_le_lastBit ((num : ℚ) / den)
    have hk : (f.lastBit (num / den) - f.leastQuantum).toNat = 0 ∨
        2 ^ f.fractionBits ≤ f.significand (num / den) := by
      rcases hle.eq_or_lt with hleast | hmore
      · left
        omega
      · exact .inr (f.le_significand hx hmore)
    obtain ⟨m, q, hdatum, hvalue⟩ :=
      f.datum_of_significand (f.significand_le hx.le) hk hlt
    refine ⟨m, q, hdatum, hvalue.trans ?_⟩
    rw [Int.toNat_of_nonneg (by omega), add_sub_cancel, round]

/-- A quotient that is small enough has a number. -/
theorem nearest_lt_infinity (hden : den ≠ 0)
    (h : f.lastBit (num / den) + 2 < f.leastQuantum + f.topField) :
    f.nearest num den < f.infinity := by
  have hle := f.leastQuantum_le_lastBit ((num : ℚ) / den)
  have htop : 0 < f.topField := by omega
  have hpos := Nat.two_pow_pos f.fractionBits
  rcases Nat.eq_zero_or_pos num with rfl | hnum
  · rw [nearest, if_pos rfl, infinity]
    exact Nat.mul_pos htop hpos
  · rw [f.nearest_eq (Nat.ne_of_gt hnum) hden]
    refine min_lt_of_right_lt ?_
    have hs := f.significand_le (x := (num : ℚ) / den) (by positivity)
    calc _ ≤ (f.lastBit (num / den) - f.leastQuantum).toNat * 2 ^ f.fractionBits +
          2 * 2 ^ f.fractionBits := by rw [Nat.pow_succ] at hs; omega
      _ = ((f.lastBit (num / den) - f.leastQuantum).toNat + 2) * 2 ^ f.fractionBits :=
          (Nat.add_mul _ _ _).symm
      _ < f.infinity := Nat.mul_lt_mul_of_pos_right (by omega) hpos

end FloatFormat

end IqTape
