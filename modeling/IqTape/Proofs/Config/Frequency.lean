import IqTape.Config.Value
import IqTape.Proofs.Number.Decimal
import IqTape.Proofs.Number.Exact

/-!
# Frequencies with and without a unit

A whole number of hertz can be written with its unit or without.  Without it the digits are read
as a word.  With it they are read as a real number, as for every unit, so that they are rounded to
double precision once: the two readings agree on the numbers that double precision holds, of which
there are all up to `2 ^ 53` and fewer and fewer beyond.  Near the largest word the rounded number
is `2 ^ 64`, which is not a word; nothing is said here about those.

## Main results

* `readFrequency?_bare`, `readFrequency?_hertz` — which reader takes which text.
* `wholeHertz?_eq_some`, `wholeHertz?_eq_none` — a number of some unit in whole hertz.
* `frequency_of_digits` — **the two readings of a whole number of hertz**.
* `unit_changes_frequency` — a number on which they do not agree.
-/

namespace IqTape

variable {s ds ending : List Char} {hertz k n : ℕ}

/-! ### Units -/

theorem splitUnit?_of_not_suffix (h : ¬ending <:+ s) (rest : List (List Char × ℕ)) :
    splitUnit? s ((ending, hertz) :: rest) = splitUnit? s rest := by
  rw [splitUnit?, if_neg (by rwa [List.isSuffixOf_iff_suffix])]

theorem splitUnit?_append (rest : List (List Char × ℕ)) :
    splitUnit? (s ++ ending) ((ending, hertz) :: rest) = some (s, hertz) := by
  rw [splitUnit?, if_pos (List.isSuffixOf_iff_suffix.2 (List.suffix_append s ending))]
  simp

/-- Digits have no unit behind them. -/
theorem splitUnit?_of_digits (h : ∀ c ∈ ds, c.isDigit = true) :
    splitUnit? ds frequencyUnits = none := by
  have hnot {ending : List Char} (hz : 'z' ∈ ending) : ¬ending <:+ ds := fun hsuffix =>
    absurd (h 'z' (hsuffix.subset hz)) (by decide)
  rw [frequencyUnits, splitUnit?_of_not_suffix (hnot (by decide)),
    splitUnit?_of_not_suffix (hnot (by decide)), splitUnit?_of_not_suffix (hnot (by decide)),
    splitUnit?_of_not_suffix (hnot (by decide))]
  rfl

/-- Behind digits, hertz are no larger unit. -/
theorem splitUnit?_hertz (h : ∀ c ∈ ds, c.isDigit = true) :
    splitUnit? (ds ++ ['h', 'z']) frequencyUnits = some (ds, 1) := by
  have hnot {c : Char} (hc : c.isDigit = false) : ¬[c, 'h', 'z'] <:+ ds ++ ['h', 'z'] := by
    rintro ⟨front, hfront⟩
    have hcancel : front ++ [c] = ds := by
      have happend : front ++ [c] ++ ['h', 'z'] = ds ++ ['h', 'z'] := by
        rw [← hfront, List.append_assoc]
        rfl
      exact List.append_cancel_right happend
    exact ne_of_isDigit (h c (by simp [← hcancel])) hc rfl
  rw [frequencyUnits, splitUnit?_of_not_suffix (hnot rfl), splitUnit?_of_not_suffix (hnot rfl),
    splitUnit?_of_not_suffix (hnot rfl)]
  exact splitUnit?_append []

/-- Digits alone are read as a word. -/
theorem readFrequency?_bare (h : ∀ c ∈ ds, c.isDigit = true) :
    readFrequency? (String.ofList ds) = readNat? ds := by
  rw [readFrequency?, String.toList_ofList, trim_of_digits h, lower_of_digits h]
  simp only [splitUnit?_of_digits h]

/-- Digits with the unit are read as a real number. -/
theorem readFrequency?_hertz (h : ∀ c ∈ ds, c.isDigit = true) :
    readFrequency? (String.ofList (ds ++ ['H', 'z'])) =
      (readReal? ds).bind fun x => wholeHertz? x 1 := by
  have htrim : trim (ds ++ ['H', 'z']) = ds ++ ['H', 'z'] := by
    refine trim_eq_self (fun c hc => ?_) fun c hc => ?_
    · cases ds with
      | nil =>
        cases hc
        rfl
      | cons d ds =>
        cases hc
        exact isBlank_of_isDigit (h _ List.mem_cons_self)
    · rw [List.getLast?_append_of_ne_nil _ (List.cons_ne_nil _ _)] at hc
      cases hc
      rfl
  have hlower : lower (ds ++ ['H', 'z']) = ds ++ ['h', 'z'] := by
    rw [lower, List.map_append]
    exact congrArg (· ++ ['h', 'z']) (lower_of_digits h)
  rw [readFrequency?, String.toList_ofList, htrim, hlower]
  simp only [splitUnit?_hertz h]

/-! ### Whole hertz -/

variable {x : Binary64} {v w : ℚ}

/-- A number without a sign is not below zero. -/
theorem not_lt_zero_of_holds (hx : x.Holds v) : x.lt .zero = false := by
  rw [Bool.eq_false_iff, Ne, hx.lt_iff Binary64.zero_holds]
  exact not_lt.2 hx.nonneg

/-- **A number of some unit** whose hertz, rounded, are a word. -/
theorem wholeHertz?_eq_some (hx : x.Holds v) (hy : (Binary64.ofNat hertz).Holds w)
    (hsmall : v * w < 2 ^ (65 : ℤ)) (hk : double (v * w) = k) (hlt : k < 2 ^ 64) :
    wholeHertz? x hertz = some k.toUInt64 := by
  obtain ⟨m, q, hdatum, hvalue⟩ := hx.mul hy (by decide) hsmall
  have hnearest : Binary64.nearestWhole m q = k := by
    rw [Binary64.nearestWhole_eq, hvalue, hk, Nat.floor_eq_iff (by positivity)]
    constructor <;> linarith
  rw [wholeHertz?, not_lt_zero_of_holds hx]
  simp only [hdatum, hnearest, Bool.false_eq_true, if_false, if_neg (not_lt.2 hlt.le)]

/-- **A number of some unit** whose hertz, rounded, are too many. -/
theorem wholeHertz?_eq_none (hx : x.Holds v) (hy : (Binary64.ofNat hertz).Holds w)
    (hk : double (v * w) = k) (hlt : 2 ^ 64 < k) : wholeHertz? x hertz = none := by
  rw [wholeHertz?, not_lt_zero_of_holds hx]
  rcases hx.mul_cases hy with ⟨m, q, hdatum, hvalue⟩ | hinfinite
  · have hnearest : Binary64.nearestWhole m q = k := by
      rw [Binary64.nearestWhole_eq, hvalue, hk, Nat.floor_eq_iff (by positivity)]
      constructor <;> linarith
    simp only [hdatum, hnearest, Bool.false_eq_true, if_false, if_pos hlt]
  · simp only [hinfinite, Bool.false_eq_true, if_false]

/-! ### Whole numbers of hertz -/

/-- Once rounded, a number is not changed by counting it in hertz. -/
theorem double_mul_one (n : ℕ) : double (double n * 1) = double n := by
  rw [mul_one]
  exact FloatFormat.binary64.round_round (Nat.cast_nonneg n)

theorem one_holds : (Binary64.ofNat 1).Holds 1 := by
  have hround := Binary64.ofNat_holds (n := 1) (by decide)
  have hone : double (1 : ℕ) = 1 := by
    rw [Nat.cast_one]
    exact FloatFormat.binary64.round_two_zpow (k := 0) (by decide)
  rwa [hone] at hround

/-- What is rounded to a word. -/
theorem double_lt_word (h : n < 2 ^ 64 - 1024) : double n < 2 ^ 64 := by
  have hn : (n : ℚ) < 2 ^ (64 : ℤ) - 2 ^ (10 : ℤ) := by
    have : (n : ℚ) < ((2 ^ 64 - 1024 : ℕ) : ℚ) := by exact_mod_cast h
    norm_num at this ⊢
    exact this
  have hround := (FloatFormat.binary64.round_lt_two_zpow_iff (k := 64) (by decide)
    (Nat.cast_nonneg n)).2 hn
  exact_mod_cast hround

/-- What is rounded to more than a word, and more than the number after the last one. -/
theorem word_lt_double (h : 2 ^ 64 + 2048 < n) : 2 ^ 64 < double n := by
  have hn : (2 : ℚ) ^ (64 : ℤ) + 2 ^ (11 : ℤ) < n := by
    have : ((2 ^ 64 + 2048 : ℕ) : ℚ) < n := by exact_mod_cast h
    norm_num at this ⊢
    exact this
  have hround := FloatFormat.binary64.two_zpow_lt_round (k := 64) (by decide) hn
  exact_mod_cast hround

/-- With its unit, a number that is rounded to a word is that word. -/
theorem readFrequency?_hertz_of_lt (h : ∀ c ∈ ds, c.isDigit = true) (hne : ds ≠ [])
    (hn : ofDigits 10 digitValue ds < 2 ^ 64 - 1024) :
    ∃ k : ℕ, k < 2 ^ 64 ∧ double (ofDigits 10 digitValue ds) = k ∧
      readFrequency? (String.ofList (ds ++ ['H', 'z'])) = some k.toUInt64 := by
  obtain ⟨k, hk⟩ := FloatFormat.binary64.exists_round_natCast (ofDigits 10 digitValue ds)
  have hlt := double_lt_word hn
  have hword : k < 2 ^ 64 := by
    rw [double, hk] at hlt
    exact_mod_cast hlt
  refine ⟨k, hword, hk, ?_⟩
  have hheld := Binary64.ofNat_holds (n := ofDigits 10 digitValue ds) (by omega)
  rw [readFrequency?_hertz h, readReal?_of_digits h, if_neg hne,
    Numeral.toBinary64?_whole_of_lt (by omega), Option.bind_some]
  refine wholeHertz?_eq_some hheld one_holds ?_ ((double_mul_one _).trans hk) hword
  rw [mul_one]
  exact hlt.trans (by norm_num)

/-- With its unit, a number that is rounded to more than a word is refused. -/
theorem readFrequency?_hertz_of_gt (h : ∀ c ∈ ds, c.isDigit = true)
    (hn : 2 ^ 64 + 2048 < ofDigits 10 digitValue ds) :
    readFrequency? (String.ofList (ds ++ ['H', 'z'])) = none := by
  obtain ⟨k, hk⟩ := FloatFormat.binary64.exists_round_natCast (ofDigits 10 digitValue ds)
  have hlt := word_lt_double hn
  have hword : 2 ^ 64 < k := by
    rw [double, hk] at hlt
    exact_mod_cast hlt
  rw [readFrequency?_hertz h, readReal?_of_digits h]
  split
  · rfl
  · rw [Option.bind_eq_none_iff]
    intro x hx
    exact wholeHertz?_eq_none (Numeral.holds_of_toBinary64?_whole hx) one_holds
      ((double_mul_one _).trans hk) hword

/-- **The two readings of a whole number of hertz.**  Without its unit it is read exactly if it is a
word, and refused if not.  With its unit it is rounded to double precision, if it stays clear of
`2 ^ 64` from below, and refused if it does so from above.  So below `2 ^ 64` the two agree on the
numbers of at most 53 bits up to the last one that is set. -/
theorem frequency_of_digits (ds : List Char) (h : ds.all Char.isDigit = true) :
    let n := ofDigits 10 digitValue ds
    let bare := readFrequency? (String.ofList ds)
    let named := readFrequency? (String.ofList (ds ++ ['H', 'z']))
    bare = (if ds = [] ∨ 2 ^ 64 ≤ n then none else some n.toUInt64) ∧
      (ds = [] → named = none) ∧
      (ds ≠ [] → n < 2 ^ 64 - 1024 →
        ∃ hz : UInt64, named = some hz ∧ (hz.toNat : ℚ) = double n) ∧
      (2 ^ 64 + 2048 < n → named = none) ∧
      (n < 2 ^ 64 - 1024 → (named = bare ↔ ∃ m k : ℕ, m < 2 ^ 53 ∧ n = m * 2 ^ k)) := by
  intro n bare named
  have hdigits : ∀ c ∈ ds, c.isDigit = true := List.all_eq_true.1 h
  have hbare : bare = if ds = [] ∨ 2 ^ 64 ≤ n then none else some n.toUInt64 :=
    (readFrequency?_bare hdigits).trans (readNat?_of_digits hdigits)
  have hempty : ds = [] → named = none := by
    rintro rfl
    exact (readFrequency?_hertz hdigits).trans (by rw [readReal?_of_digits hdigits]; rfl)
  refine ⟨hbare, hempty, fun hne hn => ?_, readFrequency?_hertz_of_gt hdigits, fun hn => ?_⟩
  · obtain ⟨k, hword, hk, hnamed⟩ := readFrequency?_hertz_of_lt hdigits hne hn
    refine ⟨k.toUInt64, hnamed, ?_⟩
    rw [hk]
    exact congrArg Nat.cast (UInt64.toNat_ofNat_of_lt' hword)
  · have hheld := (FloatFormat.binary64.round_eq_self_iff (Nat.cast_nonneg n)).trans
      (FloatFormat.binary64.isHeld_natCast_iff (by decide))
    refine Iff.trans ?_ hheld
    by_cases hne : ds = []
    · subst hne
      rw [hempty rfl, hbare, if_pos (.inl rfl)]
      exact iff_of_true rfl (by rw [show n = 0 from rfl]; simp)
    · obtain ⟨k, hword, hk, hnamed⟩ := readFrequency?_hertz_of_lt hdigits hne hn
      have hn64 : n < 2 ^ 64 := by omega
      rw [hbare, if_neg (not_or.2 ⟨hne, not_le.2 hn64⟩), show named = _ from hnamed,
        Option.some_inj, ← UInt64.toNat_inj, UInt64.toNat_ofNat_of_lt' hword,
        UInt64.toNat_ofNat_of_lt' hn64, show FloatFormat.binary64.round n = k from hk, Nat.cast_inj]

/-- The first even number above `2 ^ 53` is the same with its unit. -/
theorem frequency_of_digits_of_even_number :
    "9007199254740994".toList.all Char.isDigit = true ∧
      readFrequency? "9007199254740994" = some 9007199254740994 ∧
      readFrequency? "9007199254740994Hz" = some 9007199254740994 := by
  have hdigits : "9007199254740994".toList.all Char.isDigit = true := by decide +kernel
  have hn : ofDigits 10 digitValue "9007199254740994".toList = 9007199254740994 := by
    decide +kernel
  obtain ⟨hbare, -, -, -, hagree⟩ := frequency_of_digits "9007199254740994".toList hdigits
  rw [hn] at hbare hagree
  have hread : readFrequency? "9007199254740994" = some 9007199254740994 := hbare
  refine ⟨hdigits, hread, ?_⟩
  exact ((hagree (by decide)).2 ⟨4503599627370497, 1, by decide, by decide⟩).trans hread

/-- **A unit changes a frequency** that double precision does not hold: the first odd number above
`2 ^ 53` is rounded. -/
theorem unit_changes_frequency :
    "9007199254740993".toList.all Char.isDigit = true ∧
      readFrequency? "9007199254740993" = some 9007199254740993 ∧
      readFrequency? "9007199254740993Hz" = some 9007199254740992 := by
  decide +kernel

end IqTape
