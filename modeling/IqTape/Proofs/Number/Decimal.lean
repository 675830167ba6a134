import Mathlib.Data.List.TakeWhile
import IqTape.Number.Layout
import IqTape.Number.Numeral
import IqTape.Proofs.Number.Arithmetic

/-!
# Numbers in decimal digits

A text of decimal digits has no blanks to drop, no capital letters and no NUL, so reading it comes
down to the number that its digits spell, zeros in front or not.  Read as a whole number it is that
number, if that is a word.  Read as a real number it is rounded to double precision once, if that
is not past the largest number: it is never so small that digits are lost.

## Main results

* `trim_eq_self` — a text whose ends are no blanks.
* `readNat?_of_digits`, `readNat?_digits` — **digits read as a whole number**.
* `readReal?_of_digits` — **digits read as a real number**.
-/

namespace IqTape

variable {s : List Char} {c d : Char} {n : ℕ}

/-! ### Digits as characters -/

theorem ne_of_isDigit (hc : c.isDigit = true) (hd : d.isDigit = false) : c ≠ d := by
  rintro rfl
  rw [hc] at hd
  cases hd

theorem isBlank_of_isDigit (h : c.isDigit = true) : isBlank c = false := by
  simp [isBlank, ne_of_isDigit h (d := ' ') rfl, ne_of_isDigit h (d := '\t') rfl,
    ne_of_isDigit h (d := '\r') rfl, ne_of_isDigit h (d := '\n') rfl]

theorem isSpace_of_isDigit (h : c.isDigit = true) : isSpace c = false := by
  simp [isSpace, isBlank_of_isDigit h, ne_of_isDigit h (d := '\x0b') rfl,
    ne_of_isDigit h (d := '\x0c') rfl]

theorem toLower_of_isDigit (h : c.isDigit = true) : c.toLower = c := by
  have hle : c.val ≤ '9'.val := (Bool.and_eq_true_iff.1 h).2 |> of_decide_eq_true
  exact dif_neg fun hupper => absurd (UInt32.le_trans hupper.1 hle) (by decide)

theorem lower_of_digits (h : ∀ c ∈ s, c.isDigit = true) : lower s = s :=
  (List.map_congr_left fun c hc => toLower_of_isDigit (h c hc)).trans (List.map_id s)

/-! ### Blanks at the ends -/

/-- A text whose ends are no blanks is trimmed already. -/
theorem trim_eq_self (hfirst : ∀ c ∈ s.head?, isBlank c = false)
    (hlast : ∀ c ∈ s.getLast?, isBlank c = false) : trim s = s := by
  have hdrop {t : List Char} (h : ∀ c ∈ t.head?, isBlank c = false) : t.dropWhile isBlank = t := by
    cases t with
    | nil => rfl
    | cons c t => exact List.dropWhile_cons_of_neg (by simp [h c rfl])
  rw [trim, hdrop hfirst, hdrop (by rwa [List.head?_reverse]), List.reverse_reverse]

theorem trim_of_digits (h : ∀ c ∈ s, c.isDigit = true) : trim s = s :=
  trim_eq_self (fun c hc => isBlank_of_isDigit (h c (List.mem_of_mem_head? hc)))
    fun c hc => isBlank_of_isDigit (h c (List.mem_of_mem_getLast? hc))

theorem untilNul_of_digits (h : ∀ c ∈ s, c.isDigit = true) : untilNul s = s :=
  List.takeWhile_eq_self_iff.2 fun c hc => bne_iff_ne.2 (ne_of_isDigit (h c hc) rfl)

/-! ### Whole numbers -/

/-- **Digits read as a whole number** are the number that they spell, if that is a word. -/
theorem readNat?_of_digits (h : ∀ c ∈ s, c.isDigit = true) :
    readNat? s = if s = [] ∨ 2 ^ 64 ≤ ofDigits 10 digitValue s then none
      else some (ofDigits 10 digitValue s).toUInt64 := by
  have hall : s.all Char.isDigit = true := List.all_eq_true.2 h
  rw [readNat?, trim_of_digits h, untilNul_of_digits h]
  by_cases hnil : s = []
  · simp [hnil]
  · simp only [hall, List.isEmpty_iff, hnil, Bool.not_true, Bool.or_false, false_or, if_false]
    split
    · next hlt => rw [if_neg (not_le.2 hlt)]
    · next hge => rw [if_pos (not_lt.1 hge)]

theorem isDigit_of_mem_digits (h : c ∈ digits n) : c.isDigit = true :=
  Nat.isDigit_of_mem_toDigits (by decide) (by decide) h

theorem digits_ne_nil (n : ℕ) : digits n ≠ [] := Nat.toDigits_ne_nil

/-- The digits of a number spell it. -/
theorem ofDigits_digits (n : ℕ) : ofDigits 10 digitValue (digits n) = n := by
  have hfold : ofDigits 10 digitValue (digits n) = Nat.ofDigitChars 10 (digits n) 0 := by
    rw [Nat.ofDigitChars_eq_foldl]
    exact List.foldl_ext _ _ _ fun m c _ => by rw [Nat.mul_comm]; rfl
  rw [hfold]
  exact Nat.ofDigitChars_ten_toDigits

/-- The digits of a word are read as that word. -/
theorem readNat?_digits (h : n < 2 ^ 64) : readNat? (digits n) = some n.toUInt64 := by
  rw [readNat?_of_digits fun c => isDigit_of_mem_digits, ofDigits_digits,
    if_neg (not_or.2 ⟨digits_ne_nil n, not_le.2 h⟩)]

/-! ### Real numbers -/

/-- Digits alone are a numeral without a point and without an exponent. -/
theorem readNumeral?_of_digits (h : ∀ c ∈ s, c.isDigit = true) (hne : s ≠ []) :
    readNumeral? s = some ⟨false, ofDigits 10 digitValue s, 10, 0⟩ := by
  have hall : s.takeWhile Char.isDigit = s := List.takeWhile_eq_self_iff.2 h
  have hnone : s.dropWhile Char.isDigit = [] := List.dropWhile_eq_nil_iff.2 h
  have hdecimal : readDecimal? false s = some ⟨false, ofDigits 10 digitValue s, 10, 0⟩ := by
    simp [readDecimal?, splitPoint, hall, hnone, hne, readExponent?]
  have hspace : s.dropWhile isSpace = s := by
    cases s with
    | nil => rfl
    | cons c s =>
      exact List.dropWhile_cons_of_neg (by simp [isSpace_of_isDigit (h c List.mem_cons_self)])
  have hsign : splitSign s = (false, s) := by
    unfold splitSign
    split
    · exact absurd (h '-' List.mem_cons_self) (by decide)
    · exact absurd (h '+' List.mem_cons_self) (by decide)
    · rfl
  rw [readNumeral?, hspace, hsign]
  simp only
  split
  · exact absurd (h 'x' (List.mem_cons_of_mem _ List.mem_cons_self)) (by decide)
  · exact absurd (h 'X' (List.mem_cons_of_mem _ List.mem_cons_self)) (by decide)
  · exact hdecimal

namespace Numeral

/-- A whole number without an exponent. -/
abbrev whole (n : ℕ) : Numeral := ⟨false, n, 10, 0⟩

theorem top_whole (n : ℕ) : (whole n).top = (digits n).length := zero_add _

theorem not_top_whole_lt (n : ℕ) : ¬(whole n).top < -reach := by
  rw [top_whole, reach]
  omega

theorem ratio_whole (n : ℕ) : (whole n).ratio = (n, 1) := by simp [ratio]

/-- No whole number is so small that digits are lost. -/
theorem vanishes_whole (n : ℕ) : (whole n).vanishes = false := by
  rcases Nat.eq_zero_or_pos n with rfl | hpos
  · rfl
  · have hmagnitude : 0 ≤ magnitude n 1 := by
      rw [magnitude_eq hpos.ne' one_ne_zero, Nat.cast_one, div_one]
      refine (Int.zpow_le_iff_le_log (R := ℚ) one_lt_two (by exact_mod_cast hpos)).1 ?_
      rw [zpow_zero]
      exact_mod_cast hpos
    have hnormal : FloatFormat.binary64.leastQuantum + (FloatFormat.binary64.fractionBits : ℤ) =
        -1022 := by decide
    have hkeeps (cut : Bool) : losesDigits cut n 1 = false := by
      have hlarge : ¬magnitude n 1 < -1022 := by omega
      simp [losesDigits, hnormal, hlarge]
    simp [vanishes, not_top_whole_lt, ratio_whole, hkeeps]

/-- A whole number is rounded, unless it has too many digits. -/
theorem round_whole (n : ℕ) :
    (whole n).round =
      if 1300 < (digits n).length then Binary64.infinite false else Binary64.ofNat n := by
  by_cases hzero : n = 0
  · subst hzero
    rfl
  · rw [round, if_neg (not_or.2 ⟨hzero, not_top_whole_lt n⟩), ratio_whole, top_whole, reach]
    simp only [Nat.ofNat_lt_cast]
    rfl

/-- **A whole number in double precision** is rounded or refused. -/
theorem holds_of_toBinary64?_whole {x : Binary64} (h : (whole n).toBinary64? = some x) :
    x.Holds (double n) := by
  rw [toBinary64?, vanishes_whole, Bool.false_or, round_whole] at h
  split at h
  · next hlong =>
    rw [Binary64.isFinite, Binary64.datum_infinite] at h
    cases h
  · rcases Binary64.ofRatio_cases n one_ne_zero with hheld | hinfinite
    · rw [show (Binary64.ofNat n).isFinite = true from hheld.isFinite] at h
      cases h
      rwa [Nat.cast_one, div_one] at hheld
    · rw [Binary64.isFinite, Binary64.ofNat, hinfinite] at h
      cases h

/-- A word is rounded. -/
theorem toBinary64?_whole_of_lt (h : n < 2 ^ 64) :
    (whole n).toBinary64? = some (Binary64.ofNat n) := by
  have hshort : (digits n).length ≤ 20 :=
    (Nat.length_toDigits_le_iff (by decide) (by decide)).2 (h.trans (by decide))
  have hround : (whole n).round = Binary64.ofNat n := by
    rw [round_whole, if_neg (by omega)]
  rw [toBinary64?, vanishes_whole, Bool.false_or, hround, (Binary64.ofNat_holds h).isFinite]
  rfl

end Numeral

/-- **Digits read as a real number** are the number that they spell, rounded or refused. -/
theorem readReal?_of_digits (h : ∀ c ∈ s, c.isDigit = true) :
    readReal? s =
      if s = [] then none else (Numeral.whole (ofDigits 10 digitValue s)).toBinary64? := by
  rw [readReal?, trim_of_digits h, untilNul_of_digits h]
  by_cases hnil : s = []
  · simp [hnil]
  · simp only [List.isEmpty_iff, hnil, if_false]
    rw [readNumeral?_of_digits h hnil]
    rfl

end IqTape
