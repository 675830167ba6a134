import IqTape.Number.Shortest
import IqTape.Proofs.Number.Exact
import IqTape.Proofs.Number.Spelling

/-!
# Numbers that are written to be read again

A number in double precision is read back from its short text.  Of fewer than seventeen digits this
is tried before they are taken.  Seventeen are enough for every number: what they leave out is less
than half the distance to the next number on either side, since `10 ^ 16` is more than `2 ^ 53`.

## Main results

* `FloatFormat.nearest_of_close` — **what is close to a number is rounded to it**.
* `Layout.decimalExponent_spec`, `Layout.significantDigits_spec` — the digits of a quotient.
* `Numeral.round_congr`, `Numeral.round_of_close` — the number that a numeral is read as.
* `Layout.exists_spelling_shortest` — **a number is read back from its short text**.
-/

namespace IqTape

/-! ### Close to a number -/

namespace FloatFormat

variable (f : FloatFormat) {m num den bits : ℕ} {q : ℤ}

/-- Half a last bit below a power of two, the significand is rounded up as far as it goes. -/
theorem significand_of_lt_two_zpow {x : ℚ} {k : ℤ} (hk : f.leastQuantum + f.fractionBits < k)
    (hle : 2 ^ k - 2 ^ (k - f.fractionBits - 2) ≤ x) (hlt : x < 2 ^ k) :
    f.lastBit x = k - f.fractionBits - 1 ∧ f.significand x = 2 ^ (f.fractionBits + 1) := by
  have hhalf : (2 : ℚ) ^ k = 2 * 2 ^ (k - 1) := by
    rw [← zpow_one_add₀ two_ne_zero, add_sub_cancel]
  have hsmall : (2 : ℚ) ^ (k - f.fractionBits - 2) ≤ 2 ^ (k - 1) :=
    zpow_le_zpow_right₀ one_le_two (by omega)
  have hpos : 0 ≤ x := by
    have : (0 : ℚ) < 2 ^ (k - 1) := by positivity
    linarith
  have hbit : f.lastBit x = k - f.fractionBits - 1 := f.lastBit_eq hk (by linarith) hlt
  have hrounded : f.round x = 2 ^ k := by
    refine le_antisymm ?_ (not_lt.1 fun hless => ?_)
    · have hmono := f.round_mono hpos hlt.le
      rwa [f.round_two_zpow (by omega)] at hmono
    · exact hle.not_gt ((f.round_lt_two_zpow_iff hk hpos).1 hless)
  refine ⟨hbit, ?_⟩
  have hwhole : (f.significand x * 2 ^ f.lastBit x : ℚ) =
      2 ^ (f.fractionBits + 1) * 2 ^ f.lastBit x := by
    refine hrounded.trans ?_
    rw [hbit, ← zpow_natCast, ← zpow_add₀ two_ne_zero]
    congr 1
    push_cast
    omega
  exact_mod_cast mul_right_cancel₀ (by positivity) hwhole

/-- Less than half of the last bit does not reach another significand. -/
theorem significand_of_close {x : ℚ} (hpos : 0 ≤ x) (hq : f.lastBit x = q)
    (hclose : |x - m * 2 ^ q| < 2 ^ q / 2) : f.significand x = m := by
  obtain ⟨hbelow, habove⟩ := abs_lt.1 hclose
  have hunit : (0 : ℚ) < 2 ^ q := by positivity
  have hlow : (m : ℚ) < x / 2 ^ q + 1 / 2 := by
    rw [← sub_lt_iff_lt_add, lt_div_iff₀ hunit]
    linarith
  have hhigh : x / 2 ^ q < m + 1 / 2 := by
    rw [div_lt_iff₀ hunit]
    linarith
  have hround := f.nearestEven_significand hpos
  rw [hq] at hround
  exact hround.unique ⟨hlow.le, hhigh.le, fun h => absurd h hlow.ne, fun h => absurd h hhigh.ne⟩

/-- Where the last bit is smaller than that of a normal number close by, the number is a power of
two and stands above. -/
theorem significand_of_close_of_lastBit_lt {x : ℚ} (hpos : 0 < x) (hless : f.lastBit x < q)
    (hnormal : 2 ^ f.fractionBits ≤ m) (hhalf : |x - m * 2 ^ q| < 2 ^ q / 2)
    (hclose : |x - m * 2 ^ q| < m * 2 ^ q / 2 ^ (f.fractionBits + 2)) :
    m = 2 ^ f.fractionBits ∧ f.lastBit x = q - 1 ∧
      f.significand x = 2 ^ (f.fractionBits + 1) := by
  have hleast : f.leastQuantum < q := (f.leastQuantum_le_lastBit x).trans_lt hless
  obtain ⟨k, hk⟩ : ∃ k : ℤ, k = f.fractionBits + q := ⟨_, rfl⟩
  have hpow : (2 : ℚ) ^ k = 2 ^ f.fractionBits * 2 ^ q := by
    rw [hk, zpow_add₀ two_ne_zero, zpow_natCast]
  have hunder : x < 2 ^ k := by
    by_contra hge
    have hlog : k ≤ Int.log 2 x :=
      (Int.zpow_le_iff_le_log (R := ℚ) one_lt_two hpos).1 (by rwa [Nat.cast_ofNat, ← not_lt])
    rw [lastBit] at hless
    omega
  have hpower : m = 2 ^ f.fractionBits := by
    refine le_antisymm (Nat.lt_succ_iff.1 ?_) hnormal
    have hunit : (0 : ℚ) < 2 ^ q := by positivity
    have hfew : (m : ℚ) < 2 ^ f.fractionBits + 1 := by
      have hbelow := (abs_lt.1 hhalf).1
      nlinarith
    exact_mod_cast hfew
  have hnumber : (m * 2 ^ q : ℚ) = 2 ^ k := by rw [hpow, hpower, Nat.cast_pow, Nat.cast_two]
  have hquarter : (2 : ℚ) ^ k / 2 ^ (f.fractionBits + 2) = 2 ^ (k - f.fractionBits - 2) := by
    rw [← zpow_natCast, ← zpow_sub₀ two_ne_zero]
    congr 1
    push_cast
    omega
  rw [hnumber, hquarter] at hclose
  obtain ⟨hbit, hsignificand⟩ := f.significand_of_lt_two_zpow (k := k) (by omega)
    (by linarith [(abs_lt.1 hclose).1]) hunder
  exact ⟨hpower, by omega, hsignificand⟩

/-- **What is close to a number is rounded to it**, also below a power of two, where the numbers
are twice as close. -/
theorem nearest_of_close (hbits : bits < f.signMask) {negative : Bool}
    (h : f.datum bits = .finite negative m q) (hm : 0 < m) (hden : den ≠ 0)
    (hclose : |(num : ℚ) / den - m * 2 ^ q| < m * 2 ^ q / 2 ^ (f.fractionBits + 2)) :
    f.nearest num den = bits := by
  obtain ⟨-, hlt, hq, hnormal, hpattern, hinfinity⟩ := f.of_datum_eq_finite hbits h
  obtain ⟨x, hx⟩ : ∃ x : ℚ, x = num / den := ⟨_, rfl⟩
  rw [← hx] at hclose
  have hunit : (0 : ℚ) < 2 ^ q := by positivity
  have hone : (1 : ℚ) ≤ m := by exact_mod_cast hm
  have hmost : (m : ℚ) + 1 ≤ 2 ^ (f.fractionBits + 1) := by exact_mod_cast hlt
  -- The distance is less than half the last bit of the number.
  have hhalf : |x - m * 2 ^ q| < 2 ^ q / 2 := by
    refine hclose.trans ?_
    rw [div_lt_div_iff₀ (by positivity) two_pos, pow_succ]
    nlinarith
  obtain ⟨hbelow, habove⟩ := abs_lt.1 hhalf
  have hpos : 0 < x := by nlinarith
  have hnum : num ≠ 0 := by
    rintro rfl
    rw [Nat.cast_zero, zero_div] at hx
    exact hpos.ne' hx
  have htop : x < 2 ^ (f.fractionBits + q + 1 : ℤ) := by
    rw [zpow_add_one₀ two_ne_zero, zpow_add₀ two_ne_zero, zpow_natCast]
    rw [pow_succ] at hmost
    nlinarith
  have hlog : Int.log 2 x < f.fractionBits + q + 1 :=
    (Int.lt_zpow_iff_log_lt (R := ℚ) one_lt_two hpos).1 (by rwa [Nat.cast_ofNat])
  have hlast : f.lastBit x ≤ q := by
    rw [lastBit]
    omega
  rw [f.nearest_eq hnum hden, ← hx]
  rcases hlast.eq_or_lt with hsame | hless
  · rw [hsame, f.significand_of_close hpos.le hsame hhalf, ← hpattern, min_eq_right hinfinity.le]
  · have hleast : f.leastQuantum < q := (f.leastQuantum_le_lastBit x).trans_lt hless
    obtain ⟨hpower, hbit, hsignificand⟩ := f.significand_of_close_of_lastBit_lt hpos hless
      (hnormal.resolve_left hleast.ne') hhalf hclose
    -- One step down and twice as many of it are the same pattern.
    obtain ⟨d, hd⟩ := Int.eq_ofNat_of_zero_le (show 0 ≤ q - 1 - f.leastQuantum by omega)
    have hpatterns : d * 2 ^ f.fractionBits + 2 ^ (f.fractionBits + 1) = bits := by
      have hsucc : q - f.leastQuantum = (d + 1 : ℕ) := by
        push_cast
        omega
      rw [hpattern, hpower, hsucc, Int.toNat_natCast]
      ring
    rw [hsignificand, hbit, hd, Int.toNat_natCast, hpatterns, min_eq_right hinfinity.le]

end FloatFormat

/-! ### The digits of a quotient -/

/-- A positive number has as many digits as its size says. -/
theorem length_digits_bounds {n : ℕ} (hn : 0 < n) :
    10 ^ ((digits n).length - 1) ≤ n ∧ n < 10 ^ (digits n).length := by
  have hpos : 0 < (digits n).length := List.length_pos_iff.2 (digits_ne_nil n)
  refine ⟨?_, (Nat.length_toDigits_le_iff (by decide) hpos).1 (le_refl _)⟩
  by_contra hlt
  rcases Nat.eq_zero_or_pos ((digits n).length - 1) with hone | hmore
  · rw [hone] at hlt
    omega
  · have hle := (Nat.length_toDigits_le_iff (by decide) hmore).2 (not_le.1 hlt)
    change (digits n).length ≤ _ at hle
    omega

theorem length_digits_eq {n k : ℕ} (hle : 10 ^ k ≤ n) (hlt : n < 10 ^ (k + 1)) :
    (digits n).length = k + 1 := by
  have hpos : 0 < n := (Nat.pow_pos (by decide)).trans_le hle
  obtain ⟨hlow, hhigh⟩ := length_digits_bounds hpos
  have hmost := (Nat.pow_lt_pow_iff_right (by decide)).1 (hlow.trans_lt hlt)
  have hleast := (Nat.pow_lt_pow_iff_right (by decide)).1 (hle.trans_lt hhigh)
  omega

namespace Layout

variable {num den count : ℕ}

/-- The exponent of the first digit of a quotient. -/
theorem decimalExponent_spec (hnum : 0 < num) (hden : 0 < den) :
    (10 : ℚ) ^ decimalExponent num den ≤ num / den ∧
      (num / den : ℚ) < 10 ^ (decimalExponent num den + 1) := by
  have hnum' : (0 : ℚ) < num := by exact_mod_cast hnum
  have hden' : (0 : ℚ) < den := by exact_mod_cast hden
  unfold decimalExponent
  split
  · next hge =>
    obtain ⟨hlow, hhigh⟩ := length_digits_bounds (Nat.div_pos hge hden)
    obtain ⟨L, hL⟩ : ∃ L, (digits (num / den)).length = L + 1 :=
      Nat.exists_eq_succ_of_ne_zero (List.length_pos_iff.2 (digits_ne_nil _)).ne'
    rw [hL] at hlow hhigh ⊢
    rw [Nat.add_sub_cancel, Nat.le_div_iff_mul_le hden] at hlow
    rw [Nat.div_lt_iff_lt_mul hden] at hhigh
    rw [Nat.cast_succ, add_sub_cancel_right, ← Nat.cast_succ, zpow_natCast, zpow_natCast,
      le_div_iff₀ hden', div_lt_iff₀ hden']
    exact ⟨by exact_mod_cast hlow, by exact_mod_cast hhigh⟩
  · next hlt =>
    have hless : num ≤ den - 1 := by omega
    obtain ⟨hlow, hhigh⟩ := length_digits_bounds (Nat.div_pos hless hnum)
    obtain ⟨L, hL⟩ : ∃ L, (digits ((den - 1) / num)).length = L + 1 :=
      Nat.exists_eq_succ_of_ne_zero (List.length_pos_iff.2 (digits_ne_nil _)).ne'
    rw [hL] at hlow hhigh ⊢
    rw [Nat.add_sub_cancel, Nat.le_div_iff_mul_le hnum] at hlow
    rw [Nat.div_lt_iff_lt_mul hnum] at hhigh
    have hdenle : (den : ℚ) ≤ 10 ^ (L + 1) * num := by
      exact_mod_cast (show den ≤ 10 ^ (L + 1) * num by omega)
    have hltden : (10 ^ L * num : ℚ) < den := by
      exact_mod_cast (show 10 ^ L * num < den by omega)
    have hexponent : -((L + 1 : ℕ) : ℤ) + 1 = -(L : ℤ) := by
      push_cast
      omega
    rw [hexponent, zpow_neg, zpow_neg, zpow_natCast, zpow_natCast]
    refine ⟨?_, ?_⟩
    · rw [inv_le_iff_one_le_mul₀ (by positivity), div_mul_eq_mul_div, one_le_div₀ hden', mul_comm]
      exact hdenle
    · rw [lt_inv_comm₀ (by positivity) (by positivity), inv_div, lt_div_iff₀ hnum']
      exact hltden

/-- A quotient with some of its digits in front of the point, rounded. -/
theorem nearestEven_shifted (num : ℕ) (hden : 0 < den) (shift : ℤ) :
    NearestEven (num / den * 10 ^ shift)
      (if 0 ≤ shift then roundEven (num * 10 ^ shift.toNat) den
        else roundEven num (den * 10 ^ (-shift).toNat)) := by
  split
  · next h =>
    have hpow : (num / den * 10 ^ shift : ℚ) = (num * 10 ^ shift.toNat : ℕ) / den := by
      conv_lhs => rw [← Int.toNat_of_nonneg h]
      rw [zpow_natCast, div_mul_eq_mul_div]
      push_cast
      rfl
    rw [hpow]
    exact nearestEven_roundEven _ hden
  · next h =>
    have hpow : (num / den * 10 ^ shift : ℚ) = num / (den * 10 ^ (-shift).toNat : ℕ) := by
      have hshift : shift = -((-shift).toNat : ℤ) := by omega
      conv_lhs => rw [hshift]
      rw [zpow_neg, zpow_natCast, ← div_eq_mul_inv, div_div]
      push_cast
      rfl
    rw [hpow]
    exact nearestEven_roundEven _ (Nat.mul_pos hden (Nat.pow_pos (by decide)))

/-- Where the last digit stands for one, at most a half is left out. -/
theorem abs_sub_le_of_nearestEven {x : ℚ} {first : ℤ} {m : ℕ} (hx : 10 ^ first ≤ x)
    (h : NearestEven (x * 10 ^ ((count : ℤ) - first)) m) :
    |(m * 10 ^ (first - count) - x : ℚ)| ≤ x / (2 * 10 ^ count) := by
  have hhalf : |(m : ℚ) - x * 10 ^ ((count : ℤ) - first)| ≤ 1 / 2 :=
    abs_le.2 ⟨by linarith [h.ge], by linarith [h.le]⟩
  have hpow : (10 : ℚ) ^ ((count : ℤ) - first) * 10 ^ (first - count) = 1 := by
    rw [← zpow_add₀ (by norm_num), sub_add_sub_cancel, sub_self, zpow_zero]
  have hscaled : (m * 10 ^ (first - count) - x : ℚ) =
      (m - x * 10 ^ ((count : ℤ) - first)) * 10 ^ (first - count) := by
    rw [sub_mul, mul_assoc, hpow, mul_one]
  rw [hscaled, abs_mul, abs_of_pos (show (0 : ℚ) < 10 ^ (first - count) by positivity)]
  calc |(m : ℚ) - x * 10 ^ ((count : ℤ) - first)| * 10 ^ (first - count)
        ≤ 1 / 2 * 10 ^ (first - count) := mul_le_mul_of_nonneg_right hhalf (by positivity)
    _ = 10 ^ first / (2 * 10 ^ count) := by
        rw [zpow_sub₀ (by norm_num), zpow_natCast]
        ring
    _ ≤ x / (2 * 10 ^ count) := div_le_div_of_nonneg_right hx (by positivity)

/-- **The digits of a quotient** are as many as are wanted, and what they leave out is half of the
last one at most. -/
theorem significantDigits_spec (hnum : 0 < num) (hden : 0 < den) {n : ℕ} {e : ℤ}
    (h : significantDigits (count + 1) num den = (n, e)) :
    0 < n ∧ (digits n).length = count + 1 ∧
      |(n * 10 ^ (e - count) - num / den : ℚ)| ≤ num / den / (2 * 10 ^ count) := by
  obtain ⟨hlow, hhigh⟩ := decimalExponent_spec hnum hden
  obtain ⟨first, hfirst⟩ : ∃ first, first = decimalExponent num den := ⟨_, rfl⟩
  obtain ⟨x, hx⟩ : ∃ x : ℚ, x = num / den := ⟨_, rfl⟩
  have hnearest := nearestEven_shifted num hden ((count : ℤ) - first)
  have hshift : ((count + 1 : ℕ) : ℤ) - 1 - first = count - first := by
    push_cast
    omega
  rw [significantDigits, ← hfirst] at h
  simp only [hshift] at h
  rw [← hfirst] at hlow hhigh
  rw [← hx] at hlow hhigh hnearest ⊢
  generalize hm : (if 0 ≤ (count : ℤ) - first then
      roundEven (num * 10 ^ ((count : ℤ) - first).toNat) den
    else roundEven num (den * 10 ^ (-((count : ℤ) - first)).toNat)) = m at h hnearest
  have hpos : (0 : ℚ) < 10 ^ ((count : ℤ) - first) := by positivity
  have hleast : (10 ^ count : ℕ) ≤ x * 10 ^ ((count : ℤ) - first) := by
    calc ((10 ^ count : ℕ) : ℚ) = 10 ^ first * 10 ^ ((count : ℤ) - first) := by
          rw [← zpow_add₀ (by norm_num), add_sub_cancel, zpow_natCast]
          push_cast
          rfl
      _ ≤ x * 10 ^ ((count : ℤ) - first) := mul_le_mul_of_nonneg_right hlow hpos.le
  have hmost : x * 10 ^ ((count : ℤ) - first) ≤ (10 ^ (count + 1) : ℕ) := by
    calc x * 10 ^ ((count : ℤ) - first) ≤ 10 ^ (first + 1) * 10 ^ ((count : ℤ) - first) :=
          mul_le_mul_of_nonneg_right hhigh.le hpos.le
      _ = ((10 ^ (count + 1) : ℕ) : ℚ) := by
          rw [← zpow_add₀ (by norm_num), show first + 1 + (count - first) = ((count + 1 : ℕ) : ℤ) by
            push_cast; omega, zpow_natCast]
          push_cast
          rfl
  have hmlow := hnearest.le_of_ge hleast
  have hmhigh := hnearest.le_of_le hmost
  have herror := abs_sub_le_of_nearestEven hlow hnearest
  split at h
  · next hcarry =>
    cases h
    rw [Nat.add_sub_cancel]
    refine ⟨Nat.pow_pos (by decide), length_digits_eq (le_refl _)
      (Nat.pow_lt_pow_right (by decide) (Nat.lt_succ_self _)), ?_⟩
    have hsame : ((10 ^ count : ℕ) * 10 ^ (first + 1 - count) : ℚ) =
        m * 10 ^ (first - count) := by
      rw [hcarry, show first + 1 - (count : ℤ) = first - count + 1 by omega,
        zpow_add_one₀ (by norm_num)]
      push_cast
      ring
    rw [hsame]
    exact herror
  · next hcarry =>
    cases h
    have hlt := lt_of_le_of_ne hmhigh hcarry
    exact ⟨(Nat.pow_pos (by decide)).trans_le hmlow, length_digits_eq hmlow hlt, herror⟩

end Layout

/-! ### Numerals by their value -/

namespace FloatFormat

/-- The pattern nearest to a quotient depends on the quotient alone. -/
theorem nearest_congr (f : FloatFormat) {num den num' den' : ℕ} (hden : den ≠ 0) (hden' : den' ≠ 0)
    (h : (num : ℚ) / den = num' / den') : f.nearest num den = f.nearest num' den' := by
  have hzero (num : ℕ) {den : ℕ} (hden : den ≠ 0) : num = 0 ↔ (num : ℚ) / den = 0 := by
    rw [div_eq_zero_iff, Nat.cast_eq_zero, Nat.cast_eq_zero, or_iff_left hden]
  by_cases hnum : num = 0
  · have hnum' : num' = 0 := (hzero num' hden').2 (h ▸ (hzero num hden).1 hnum)
    rw [nearest, nearest, if_pos hnum, if_pos hnum']
  · have hnum' : num' ≠ 0 := fun h' => hnum ((hzero num hden).2 (h.trans ((hzero num' hden').1 h')))
    rw [f.nearest_eq hnum hden, f.nearest_eq hnum' hden', h]

end FloatFormat

namespace Numeral

variable {a b : Numeral}

/-- The number that a decimal numeral stands for, less its sign. -/
def size (a : Numeral) : ℚ := a.significand * 10 ^ a.exponent

theorem ratio_den_ne_zero (h : a.base = 10) : a.ratio.2 ≠ 0 := by
  rw [ratio, h]
  exact (Nat.pow_pos (by decide)).ne'

theorem ratio_eq_size (h : a.base = 10) : (a.ratio.1 : ℚ) / a.ratio.2 = a.size := by
  have hsplit : a.exponent = (a.exponent.toNat : ℤ) - ((-a.exponent).toNat : ℤ) := by omega
  rw [ratio, size, h]
  conv_rhs => rw [hsplit, zpow_sub₀ (by norm_num), zpow_natCast, zpow_natCast]
  push_cast
  ring

/-- The power of ten just above a numeral. -/
theorem top_eq_log (h : a.base = 10) (hpos : 0 < a.significand) :
    a.top = Int.log 10 a.size + 1 := by
  obtain ⟨hlow, hhigh⟩ := length_digits_bounds hpos
  have hlength : 0 < (digits a.significand).length := List.length_pos_iff.2 (digits_ne_nil _)
  have hwidth : (a.width : ℤ) = (digits a.significand).length := by rw [width, h]; rfl
  have hsize : 0 < a.size := mul_pos (by exact_mod_cast hpos) (by positivity)
  have hle : ((10 : ℕ) : ℚ) ^ (a.top - 1) ≤ a.size := by
    have hexponent : a.top - 1 = (((digits a.significand).length - 1 : ℕ) : ℤ) + a.exponent := by
      rw [top, hwidth]
      omega
    rw [hexponent, zpow_add₀ (by norm_num), zpow_natCast, size]
    refine mul_le_mul_of_nonneg_right ?_ (by positivity)
    exact_mod_cast hlow
  have hlt : a.size < ((10 : ℕ) : ℚ) ^ a.top := by
    rw [top, hwidth, add_comm, zpow_add₀ (by norm_num), zpow_natCast, size]
    refine mul_lt_mul_of_pos_right ?_ (by positivity)
    exact_mod_cast hhigh
  have h1 := (Int.zpow_le_iff_le_log (by decide) hsize).1 hle
  have h2 := (Int.lt_zpow_iff_log_lt (by decide) hsize).1 hlt
  omega

/-- **A numeral is read by its value**, however it is written. -/
theorem round_congr (ha : a.base = 10) (hb : b.base = 10) (hsign : a.negative = b.negative)
    (hsize : a.size = b.size) : a.round = b.round := by
  have hzero (a : Numeral) : a.significand = 0 ↔ a.size = 0 := by
    rw [size, mul_eq_zero, or_iff_left (by positivity), Nat.cast_eq_zero]
  by_cases hnone : a.significand = 0
  · have hnone' : b.significand = 0 := (hzero b).2 (hsize ▸ (hzero a).1 hnone)
    rw [round, round, if_pos (.inl hnone), if_pos (.inl hnone'), hsign]
  · have hsome : b.significand ≠ 0 := fun h => hnone ((hzero a).2 (hsize.trans ((hzero b).1 h)))
    have htop : a.top = b.top := by
      rw [top_eq_log ha (Nat.pos_of_ne_zero hnone), top_eq_log hb (Nat.pos_of_ne_zero hsome), hsize]
    have hnearest : FloatFormat.binary64.nearest a.ratio.1 a.ratio.2 =
        FloatFormat.binary64.nearest b.ratio.1 b.ratio.2 := by
      refine FloatFormat.binary64.nearest_congr (ratio_den_ne_zero ha) (ratio_den_ne_zero hb) ?_
      rw [ratio_eq_size ha, ratio_eq_size hb, hsize]
    simp only [round, hnone, hsome, htop, hsign, Binary64.ofRatio, hnearest]

end Numeral

/-- A finite number, by its pattern. -/
theorem Binary64.exists_pattern {x : Binary64} {negative : Bool} {m : ℕ} {q : ℤ}
    (hx : x.datum = .finite negative m q) :
    ∃ bits < FloatFormat.binary64.signMask,
      FloatFormat.binary64.datum bits = .finite false m q ∧
        x = ofPattern (FloatFormat.binary64.signed negative bits) := by
  obtain ⟨sign, bits, hbits, hsigned⟩ :=
    FloatFormat.binary64.exists_signed (show x.bits.toNat < _ from x.bits.toNat_lt)
  rw [datum, hsigned, FloatFormat.datum_signed _ hbits] at hx
  cases hbare : FloatFormat.binary64.datum bits with
  | finite s n r =>
    obtain ⟨rfl, -⟩ := FloatFormat.binary64.of_datum_eq_finite hbits hbare
    rw [hbare] at hx
    cases hx
    refine ⟨bits, hbits, hbare, ?_⟩
    rw [← hsigned]
    exact (congrArg Binary64.mk UInt64.ofNat_toNat).symm
  | infinite s => rw [hbare] at hx; cases hx
  | nan s fraction => rw [hbare] at hx; cases hx

namespace Numeral

/-- A numeral that is close to a number is within the reach of reading. -/
theorem top_of_close {a : Numeral} (ha : a.base = 10) (hpos : 0 < a.significand) {m : ℕ} {q : ℤ}
    (hlow : (m * 2 ^ q / 2 : ℚ) < a.size) (hhigh : a.size < 2 * (m * 2 ^ q)) (hm : 0 < m)
    (hmost : m < 2 ^ 53) (hq : -1074 ≤ q) (hq' : q ≤ 972) : -reach ≤ a.top ∧ a.top ≤ reach := by
  have hsize : 0 < a.size := mul_pos (by exact_mod_cast hpos) (by positivity)
  have hone : (1 : ℚ) ≤ m := by exact_mod_cast hm
  have hleast : ((10 : ℕ) : ℚ) ^ (-1075 : ℤ) ≤ a.size := by
    calc ((10 : ℕ) : ℚ) ^ (-1075 : ℤ) ≤ 2 ^ (-1075 : ℤ) := by
          rw [zpow_neg, zpow_neg]
          refine inv_anti₀ (by positivity) ?_
          exact zpow_le_zpow_left₀ (by decide) (by norm_num) (by norm_num)
      _ ≤ 2 ^ (q - 1) := zpow_le_zpow_right₀ one_le_two (by omega)
      _ = 2 ^ q / 2 := zpow_sub_one₀ two_ne_zero q
      _ ≤ m * 2 ^ q / 2 := by
          have hunit : (0 : ℚ) < 2 ^ q := by positivity
          nlinarith
      _ ≤ a.size := hlow.le
  have hlarge : a.size < ((10 : ℕ) : ℚ) ^ (1026 : ℤ) := by
    calc a.size < 2 * (m * 2 ^ q) := hhigh
      _ ≤ 2 * (2 ^ (53 : ℤ) * 2 ^ q) := by
          refine mul_le_mul_of_nonneg_left (mul_le_mul_of_nonneg_right ?_ (by positivity))
            two_pos.le
          exact_mod_cast hmost.le
      _ = 2 ^ (1 + (53 + q)) := by
          rw [zpow_one_add₀ two_ne_zero, zpow_add₀ two_ne_zero]
      _ ≤ 2 ^ (1026 : ℤ) := zpow_le_zpow_right₀ one_le_two (by omega)
      _ ≤ ((10 : ℕ) : ℚ) ^ (1026 : ℤ) :=
          zpow_le_zpow_left₀ (by decide) (by norm_num) (by norm_num)
  have h1 := (Int.zpow_le_iff_le_log (by decide) hsize).1 hleast
  have h2 := (Int.lt_zpow_iff_log_lt (by decide) hsize).1 hlarge
  rw [top_eq_log ha hpos, reach]
  omega

/-- **A numeral that is close to a number is read as the number.** -/
theorem round_of_close {a : Numeral} (ha : a.base = 10) {x : Binary64} {m : ℕ} {q : ℤ}
    (hx : x.datum = .finite a.negative m q) (hm : 0 < m)
    (hclose : |a.size - m * 2 ^ q| < m * 2 ^ q / 2 ^ 54) : a.round = x := by
  obtain ⟨bits, hbits, hdatum, hpattern⟩ := Binary64.exists_pattern hx
  obtain ⟨-, hmost, hq, -, hfields, hinfinity⟩ :=
    FloatFormat.binary64.of_datum_eq_finite hbits hdatum
  have hleast : FloatFormat.binary64.leastQuantum = -1074 := by decide
  have htop : FloatFormat.binary64.infinity = 2047 * 2 ^ 52 := by decide
  have hfraction : FloatFormat.binary64.fractionBits = 52 := rfl
  rw [hleast] at hq hfields
  rw [hfraction] at hmost hfields
  obtain ⟨hbelow, habove⟩ := abs_lt.1 hclose
  have hx' : (0 : ℚ) < m * 2 ^ q := mul_pos (by exact_mod_cast hm) (by positivity)
  have hsmall : (m * 2 ^ q : ℚ) / 2 ^ 54 < m * 2 ^ q / 2 :=
    div_lt_div_of_pos_left hx' two_pos (by norm_num)
  have hpos : 0 < a.significand := by
    refine Nat.pos_of_ne_zero fun hzero => ?_
    rw [size, hzero, Nat.cast_zero, zero_mul] at hbelow
    linarith
  obtain ⟨hreach, hreach'⟩ := top_of_close ha hpos (m := m) (q := q) (by linarith) (by linarith) hm
    hmost hq (by omega)
  have hnearest : FloatFormat.binary64.nearest a.ratio.1 a.ratio.2 = bits := by
    refine FloatFormat.binary64.nearest_of_close hbits hdatum hm (ratio_den_ne_zero ha) ?_
    rw [ratio_eq_size ha]
    exact hclose
  rw [round, if_neg (not_or.2 ⟨hpos.ne', not_lt.2 hreach⟩), if_neg (not_lt.2 hreach'), hpattern,
    Binary64.ofRatio, hnearest]

end Numeral

/-! ### Short texts -/

namespace Spelling

/-- The numeral that is read of a text. -/
def numeral (p : Spelling) (negative : Bool) : Numeral := ⟨negative, p.significand, 10, p.scale⟩

theorem size_numeral (p : Spelling) (negative : Bool) : (p.numeral negative).size = p.value := rfl

end Spelling

namespace Layout

/-- A text looks real if there is a point or an exponent in it. -/
theorem looksReal_text (p : Spelling) : looksReal p.text = p.isReal := by
  have hpart {c : Char} (hc : c ∈ p.text) (hreal : (c == '.' || c == 'e') = true) :
      looksReal p.text = true := List.any_eq_true.2 ⟨c, hc, hreal⟩
  by_cases hfraction : p.fraction = []
  · rcases p.exponentPart_eq with ⟨hnone, hexponent⟩ | ⟨e, hsome, hexponent⟩
    · have htext : p.text = p.whole := by
        simp [Spelling.text, Spelling.tail, hfraction, hnone, pointed]
      have hdigits : looksReal p.whole = false := by
        refine List.any_eq_false.2 fun c hc hreal => ?_
        have hdigit := p.isDigit_whole c hc
        rcases Bool.or_eq_true_iff.1 hreal with h | h <;> rw [eq_of_beq h] at hdigit <;>
          cases hdigit
      rw [htext, hdigits, Spelling.isReal, hfraction, hexponent]
      rfl
    · have hmark : 'e' ∈ p.text :=
        List.mem_append_right _ (List.mem_append_right _ (hsome ▸ List.mem_cons_self))
      rw [hpart hmark rfl, Spelling.isReal, hexponent, Option.isSome_some, Bool.or_true]
  · have hsome : p.fraction.isEmpty = false := Bool.eq_false_iff.2 fun h =>
      hfraction (List.isEmpty_iff.1 h)
    have hpoint : '.' ∈ p.text := by
      refine List.mem_append_right _ (List.mem_append_left _ ?_)
      rw [pointed, if_neg (by rw [hsome]; exact Bool.false_ne_true)]
      exact List.mem_cons_self
    rw [hpart hpoint rfl, Spelling.isReal, hsome, Bool.not_false, Bool.true_or]

/-- A whole number that gets a zero behind the point stays the same. -/
theorem exists_spelling_real (p : Spelling) :
    ∃ r : Spelling, (if looksReal p.text then p.text else p.text ++ ['.', '0']) = r.text ∧
      r.value = p.value ∧ r.isReal = true := by
  rw [looksReal_text]
  by_cases hreal : p.isReal = true
  · exact ⟨p, if_pos hreal, rfl, hreal⟩
  · obtain ⟨hfraction, hexponent⟩ : p.fraction = [] ∧ p.exponent = none := by
      simpa [Spelling.isReal] using hreal
    have hpart : p.exponentPart = [] := by rw [Spelling.exponentPart, hexponent]; rfl
    refine ⟨⟨p.whole, ['0'], none, p.isDigit_whole, fun _ => isDigit_of_mem_zeros (z := 1),
      p.leading⟩, ?_, ?_, rfl⟩
    · rw [if_neg hreal, Spelling.text, Spelling.tail, hfraction, hpart]
      simp [pointed, Spelling.text, Spelling.tail, Spelling.exponentPart]
    · have hzero : ofDigits 10 digitValue (p.whole ++ ['0']) =
          ofDigits 10 digitValue p.whole * 10 := ofDigits_append_zeros p.whole 1
      simp only [Spelling.value, Spelling.significand, Spelling.scale, hfraction, hexponent,
        List.append_nil, hzero]
      push_cast
      rw [mul_assoc, ← zpow_one_add₀ (by norm_num)]
      rfl

/-- The digits of a number have a text in every layout. -/
theorem exists_spelling_of_digits (limit : ℤ) {num den count : ℕ} (hnum : 0 < num) (hden : 0 < den)
    {n : ℕ} {e : ℤ} (h : significantDigits (count + 1) num den = (n, e)) :
    ∃ p : Spelling, placed limit (digits n) e = p.text ∧ p.value = n * 10 ^ (e - count) := by
  obtain ⟨hpos, hlength, -⟩ := significantDigits_spec hnum hden h
  obtain ⟨p, htext, hvalue⟩ := exists_spelling_placed limit hpos e
  refine ⟨p, htext, hvalue.trans ?_⟩
  rw [hlength]
  congr 2
  push_cast
  omega

/-- **A number is read back from so many digits** as are taken for its short text. -/
theorem round_of_leastDigits {x : Binary64} {negative : Bool} {m : ℕ} {q : ℤ}
    (hx : x.datum = .finite negative m q) (hm : 0 < m) {count n : ℕ} {e : ℤ}
    (hcount : max 1 (leastDigits x) = count + 1)
    (h : significantDigits (count + 1) (scaled m 1 (-q)).1 (scaled m 1 (-q)).2 = (n, e))
    {p : Spelling} (hp : p.value = n * 10 ^ (e - count)) : (p.numeral negative).round = x := by
  have hden : 0 < (scaled m 1 (-q)).2 := scaled_den_pos m Nat.one_pos (-q)
  have hnum : 0 < (scaled m 1 (-q)).1 := scaled_num_pos hm 1 (-q)
  cases hfind : (List.range enoughDigits).find? fun n => (Layout.significant n).reads x with
  | none =>
    -- Seventeen digits leave out too little to matter.
    have hsixteen : count = 16 := by
      rw [leastDigits, hfind, Option.getD_none, enoughDigits] at hcount
      omega
    obtain ⟨-, -, herror⟩ := significantDigits_spec hnum hden h
    rw [scaled_one_neg_eq, hsixteen] at herror
    refine Numeral.round_of_close rfl hx hm ?_
    rw [Spelling.size_numeral, hp, hsixteen]
    refine herror.trans_lt (div_lt_div_of_pos_left ?_ (by norm_num) (by norm_num))
    exact mul_pos (by exact_mod_cast hm) (by positivity)
  | some k =>
    have hleast : max 1 k = count + 1 := by
      rwa [leastDigits, hfind, Option.getD_some] at hcount
    have hreads : (Layout.significant k).reads x = true := by
      simpa using List.find?_some hfind
    obtain ⟨r, htext, hr⟩ := exists_spelling_of_digits ((count + 1 : ℕ) : ℤ) hnum hden h
    have hwrite : (Layout.significant k).write x =
        String.ofList ((if negative then ['-'] else []) ++ r.text) := by
      rw [write, hx]
      simp only [datumText, magnitudeText, significantText, hleast, h, hnum.ne', if_false]
      rw [← htext]
    rw [reads, hwrite, String.toList_ofList, r.readNumeral?_text, Option.map_some, beq_iff_eq,
      Option.some.injEq] at hreads
    rw [← hreads]
    refine Numeral.round_congr rfl rfl rfl ?_
    rw [Spelling.size_numeral, hp, ← hr]
    rfl

/-- A short text is a sign and a text that looks real. -/
theorem toList_shortest {x : Binary64} {negative : Bool} {m : ℕ} {q : ℤ}
    (hx : x.datum = .finite negative m q) {t : List Char}
    (ht : shortText (max 1 (leastDigits x)) (scaled m 1 (-q)).1 (scaled m 1 (-q)).2 = t) :
    (shortest x).toList = (if negative then ['-'] else []) ++
      if looksReal t then t else t ++ ['.', '0'] := by
  unfold shortest
  rw [hx]
  simp only [ht, String.toList_ofList]
  cases negative <;> rfl

/-- Zero keeps its sign. -/
theorem exists_spelling_zero {x : Binary64} {negative : Bool} {q : ℤ}
    (hx : x.datum = .finite negative 0 q) :
    ∃ p : Spelling, p.text = ['0', '.', '0'] ∧ p.isReal = true ∧
      (p.numeral negative).round = x := by
  obtain ⟨bits, hbits, hdatum, hpattern⟩ := Binary64.exists_pattern hx
  have hnearest : FloatFormat.binary64.nearest 0 1 = bits :=
    FloatFormat.binary64.nearest_of_datum hbits hdatum one_ne_zero (by simp)
  have hdigit : ∀ c ∈ ['0'], c.isDigit = true := fun _ => isDigit_of_mem_zeros (z := 1)
  have hnone : ofDigits 10 digitValue ['0', '0'] = 0 := rfl
  refine ⟨⟨['0'], ['0'], none, hdigit, hdigit, .inl rfl⟩, rfl, rfl, ?_⟩
  rw [hpattern, ← hnearest, Numeral.round, if_pos (.inl hnone)]
  rfl

/-- **A number is read back from its short text.** -/
theorem exists_spelling_shortest {x : Binary64} {negative : Bool} {m : ℕ} {q : ℤ}
    (hx : x.datum = .finite negative m q) :
    ∃ p : Spelling, (shortest x).toList = (if negative then ['-'] else []) ++ p.text ∧
      p.isReal = true ∧ (p.numeral negative).round = x := by
  rcases Nat.eq_zero_or_pos m with rfl | hm
  · have hzero : (scaled 0 1 (-q)).1 = 0 := by
      unfold scaled
      split <;> simp
    obtain ⟨p, htext, hreal, hround⟩ := exists_spelling_zero hx
    refine ⟨p, ?_, hreal, hround⟩
    rw [toList_shortest hx (if_pos hzero), htext]
    rfl
  · have hden : 0 < (scaled m 1 (-q)).2 := scaled_den_pos m Nat.one_pos (-q)
    have hnum : 0 < (scaled m 1 (-q)).1 := scaled_num_pos hm 1 (-q)
    obtain ⟨count, hcount⟩ : ∃ count, max 1 (leastDigits x) = count + 1 :=
      Nat.exists_eq_succ_of_ne_zero (by omega)
    rcases h : significantDigits (count + 1) (scaled m 1 (-q)).1 (scaled m 1 (-q)).2 with ⟨n, e⟩
    obtain ⟨p, htext, hvalue⟩ := exists_spelling_of_digits shortLimit hnum hden h
    obtain ⟨r, hreal, hsame, hisReal⟩ := exists_spelling_real p
    refine ⟨r, ?_, hisReal, round_of_leastDigits hx hm hcount h (hsame.trans hvalue)⟩
    have htaken : shortText (max 1 (leastDigits x)) (scaled m 1 (-q)).1 (scaled m 1 (-q)).2 =
        p.text := by
      rw [shortText, if_neg hnum.ne', hcount, h]
      exact htext
    rw [toList_shortest hx htaken, hreal]

end Layout

end IqTape
