import IqTape.Proofs.Number.Decimal

/-!
# Texts of decimal fractions

A layout writes a number as a whole part, digits behind a point and an exponent, the last two only
where there is something to write.  Wherever the point is put among some digits, and whatever zeros
are left out at the end of them, the number stays the same, and a reader of numerals finds it.

## Main definitions

* `Spelling` — the parts of a text of a decimal fraction.
* `Spelling.text`, `Spelling.value` — the text, and the number that it is a text of.
* `Spelling.scientific`, `Spelling.belowOne`, `Spelling.positional` — the places of the point.

## Main results

* `ofDigits_append` — the number that digits spell, part by part.
* `Layout.exists_spelling_placed` — **digits keep their value wherever the point is put**.
* `Spelling.readNumeral?_text` — **the numeral that is read**.
-/

namespace IqTape

open Layout

variable {s t : List Char} {c : Char} {n : ℕ}

/-! ### Digits, part by part -/

/-- The number that digits spell, part by part. -/
theorem ofDigits_append (s t : List Char) :
    ofDigits 10 digitValue (s ++ t) =
      ofDigits 10 digitValue s * 10 ^ t.length + ofDigits 10 digitValue t := by
  have hfold (m : ℕ) : t.foldl (fun n c => n * 10 + digitValue c) m =
      m * 10 ^ t.length + ofDigits 10 digitValue t := by
    unfold ofDigits
    induction t using List.reverseRecOn with
    | nil => simp
    | append_singleton t c ih =>
      rw [List.foldl_append, List.foldl_append, ih, List.length_append, Nat.pow_add]
      simp only [List.foldl_cons, List.foldl_nil, List.length_singleton, pow_one]
      ring
  rw [ofDigits, List.foldl_append]
  exact hfold _

theorem ofDigits_replicate_zero (z : ℕ) : ofDigits 10 digitValue (List.replicate z '0') = 0 := by
  induction z with
  | zero => rfl
  | succ z ih =>
    rw [List.replicate_succ']
    rw [ofDigits_append, ih]
    rfl

/-- Zeros in front of digits change nothing. -/
theorem ofDigits_zeros_append (z : ℕ) (s : List Char) :
    ofDigits 10 digitValue (List.replicate z '0' ++ s) = ofDigits 10 digitValue s := by
  rw [ofDigits_append, ofDigits_replicate_zero, zero_mul, zero_add]

/-- Each zero behind digits is a factor of ten. -/
theorem ofDigits_append_zeros (s : List Char) (z : ℕ) :
    ofDigits 10 digitValue (s ++ List.replicate z '0') = ofDigits 10 digitValue s * 10 ^ z := by
  rw [ofDigits_append, ofDigits_replicate_zero, List.length_replicate, add_zero]

/-- What is dropped at the end are zeros. -/
theorem exists_dropTrailingZeros (s : List Char) :
    ∃ z, dropTrailingZeros s ++ List.replicate z '0' = s := by
  have hzeros : ∀ c ∈ s.reverse.takeWhile (· == '0'), c = '0' := by
    intro c hc
    have hzero := List.mem_takeWhile_imp (p := (· == '0')) hc
    exact eq_of_beq hzero
  refine ⟨(s.reverse.takeWhile (· == '0')).length, ?_⟩
  have hsplit := congrArg List.reverse
    (List.takeWhile_append_dropWhile (p := (· == '0')) (l := s.reverse))
  rw [List.reverse_append, List.reverse_reverse, List.eq_replicate_of_mem hzeros,
    List.reverse_replicate] at hsplit
  exact hsplit

theorem digitValue_lt (h : c.isDigit = true) : digitValue c < 10 := by
  have hle : c.val ≤ '9'.val := of_decide_eq_true (Bool.and_eq_true_iff.1 h).2
  have hnine : c.toNat ≤ 57 := UInt32.le_iff_toNat_le.1 hle
  rw [digitValue]
  change c.toNat - 48 < 10
  omega

theorem ofDigits_lt_pow (h : ∀ c ∈ s, c.isDigit = true) :
    ofDigits 10 digitValue s < 10 ^ s.length := by
  induction s using List.reverseRecOn with
  | nil => exact Nat.one_pos
  | append_singleton s c ih =>
    have hs := ih fun d hd => h d (List.mem_append_left _ hd)
    have hc := digitValue_lt (h c (by simp))
    have hlast : ofDigits 10 digitValue [c] = digitValue c := zero_add _
    rw [ofDigits_append, hlast, List.length_append, List.length_singleton, pow_one, pow_succ]
    omega

/-- A positive number has no zero in front of its digits. -/
theorem exists_digits_eq_cons (hn : 0 < n) : ∃ c rest, digits n = c :: rest ∧ c ≠ '0' := by
  obtain ⟨c, rest, hdigits⟩ := List.exists_cons_of_ne_nil (digits_ne_nil n)
  refine ⟨c, rest, hdigits, ?_⟩
  rintro rfl
  have hrest : ofDigits 10 digitValue rest = n := by
    rw [← ofDigits_digits n, hdigits]
    rfl
  have hlength : (digits n).length = rest.length + 1 := by rw [hdigits, List.length_cons]
  rcases Nat.eq_zero_or_pos rest.length with hnil | hpos
  · rw [List.length_eq_zero_iff.1 hnil] at hrest
    exact hn.ne hrest
  · -- The other digits alone do not reach so far.
    have hshort : n < 10 ^ rest.length := by
      rw [← hrest]
      exact ofDigits_lt_pow fun c hc => isDigit_of_mem_digits (hdigits ▸ List.mem_cons_of_mem _ hc)
    have hle := (Nat.length_toDigits_le_iff (by decide) hpos).2 hshort
    change (digits n).length ≤ rest.length at hle
    omega

/-! ### The parts of a text -/

/-- A decimal fraction as it is written: digits of which none is left out in front, digits behind
the point, and an exponent. -/
structure Spelling where
  whole : List Char
  fraction : List Char
  exponent : Option ℤ
  isDigit_whole : ∀ c ∈ whole, c.isDigit = true
  isDigit_fraction : ∀ c ∈ fraction, c.isDigit = true
  /-- No zero stands in front of other digits. -/
  leading : whole = ['0'] ∨ ∃ c rest, whole = c :: rest ∧ c ≠ '0'

namespace Spelling

variable (p : Spelling)

/-- The text of the exponent, if there is one. -/
def exponentPart : List Char := (p.exponent.map exponentText).getD []

/-- What stands behind the whole part. -/
def tail : List Char := pointed p.fraction ++ p.exponentPart

def text : List Char := p.whole ++ p.tail

/-- All digits as one number. -/
def significand : ℕ := ofDigits 10 digitValue (p.whole ++ p.fraction)

/-- The exponent of the last digit. -/
def scale : ℤ := p.exponent.getD 0 - p.fraction.length

/-- The number that is meant. -/
def value : ℚ := p.significand * 10 ^ p.scale

/-- Whether there is a point or an exponent. -/
def isReal : Bool := !p.fraction.isEmpty || p.exponent.isSome

theorem whole_ne_nil : p.whole ≠ [] := by
  rcases p.leading with h | ⟨c, rest, h, -⟩ <;> simp [h]

end Spelling

namespace Layout

/-- Zeros that are left out at the end of a fraction do not count. -/
theorem value_dropTrailingZeros (s t : List Char) (k : ℤ) :
    (ofDigits 10 digitValue (s ++ dropTrailingZeros t) : ℚ) *
        10 ^ (k - (dropTrailingZeros t).length) =
      ofDigits 10 digitValue (s ++ t) * 10 ^ (k - t.length) := by
  obtain ⟨z, hz⟩ := exists_dropTrailingZeros t
  obtain ⟨u, hu⟩ : ∃ u, u = dropTrailingZeros t := ⟨_, rfl⟩
  rw [← hu] at hz ⊢
  rw [← hz, ← List.append_assoc, ofDigits_append_zeros, List.length_append, List.length_replicate]
  push_cast
  rw [mul_assoc, ← zpow_natCast, ← zpow_add₀ (by norm_num)]
  congr 2
  omega

theorem isDigit_of_mem_zeros {z : ℕ} (h : c ∈ List.replicate z '0') : c.isDigit = true := by
  rw [List.eq_of_mem_replicate h]
  rfl

theorem isDigit_of_mem_dropTrailingZeros (ht : ∀ c ∈ t, c ∈ digits n)
    (h : c ∈ dropTrailingZeros t) : c.isDigit = true := by
  obtain ⟨z, hz⟩ := exists_dropTrailingZeros t
  exact isDigit_of_mem_digits (ht c (hz ▸ List.mem_append_left _ h))

end Layout

namespace Spelling

/-! ### Where the point is put -/

/-- The point stands behind the first digit, and an exponent behind the others. -/
def scientific (hn : 0 < n) (e : ℤ) : Spelling where
  whole := (digits n).take 1
  fraction := dropTrailingZeros ((digits n).drop 1)
  exponent := some e
  isDigit_whole := fun _ hc => isDigit_of_mem_digits (List.mem_of_mem_take hc)
  isDigit_fraction := fun _ => isDigit_of_mem_dropTrailingZeros fun _ => List.mem_of_mem_drop
  leading := by
    obtain ⟨first, rest, hdigits, hfirst⟩ := exists_digits_eq_cons hn
    exact .inr ⟨first, [], by rw [hdigits]; rfl, hfirst⟩

/-- The point and some zeros stand in front of the digits. -/
def belowOne (n z : ℕ) : Spelling where
  whole := ['0']
  fraction := List.replicate z '0' ++ dropTrailingZeros (digits n)
  exponent := none
  isDigit_whole := fun _ => isDigit_of_mem_zeros (z := 1)
  isDigit_fraction := fun _ hc => (List.mem_append.1 hc).elim isDigit_of_mem_zeros
    (isDigit_of_mem_dropTrailingZeros fun _ hc => hc)
  leading := .inl rfl

/-- The point stands behind some of the digits, or behind all of them and some zeros. -/
def positional (hn : 0 < n) (w : ℕ) : Spelling where
  whole := (digits n).take (w + 1) ++ List.replicate (w + 1 - (digits n).length) '0'
  fraction := dropTrailingZeros ((digits n).drop (w + 1))
  exponent := none
  isDigit_whole := fun _ hc => (List.mem_append.1 hc).elim
    (fun hc => isDigit_of_mem_digits (List.mem_of_mem_take hc)) isDigit_of_mem_zeros
  isDigit_fraction := fun _ => isDigit_of_mem_dropTrailingZeros fun _ => List.mem_of_mem_drop
  leading := by
    obtain ⟨first, rest, hdigits, hfirst⟩ := exists_digits_eq_cons hn
    exact .inr ⟨first, _, by rw [hdigits]; rfl, hfirst⟩

theorem value_scientific (hn : 0 < n) (e : ℤ) :
    (scientific hn e).value = n * 10 ^ (e + 1 - (digits n).length) := by
  have hvalue := value_dropTrailingZeros ((digits n).take 1) ((digits n).drop 1) e
  rw [List.take_append_drop, ofDigits_digits, List.length_drop] at hvalue
  refine hvalue.trans ?_
  have hlength : 0 < (digits n).length := List.length_pos_iff.2 (digits_ne_nil n)
  congr 2
  omega

theorem value_belowOne (n z : ℕ) :
    (belowOne n z).value = n * 10 ^ (-(z : ℤ) - (digits n).length) := by
  have hvalue := value_dropTrailingZeros [] (digits n) (-z)
  rw [List.nil_append, List.nil_append, ofDigits_digits] at hvalue
  have hzeros : (belowOne n z).significand =
      ofDigits 10 digitValue (dropTrailingZeros (digits n)) :=
    (ofDigits_zeros_append 1 _).trans (ofDigits_zeros_append _ _)
  have hscale : (belowOne n z).scale = -(z : ℤ) - (dropTrailingZeros (digits n)).length := by
    rw [scale, belowOne, List.length_append, List.length_replicate, Option.getD_none]
    push_cast
    omega
  rw [value, hzeros, hscale, hvalue]

theorem value_positional (hn : 0 < n) (w : ℕ) :
    (positional hn w).value = n * 10 ^ ((w : ℤ) + 1 - (digits n).length) := by
  refine (value_dropTrailingZeros ((digits n).take (w + 1) ++
    List.replicate (w + 1 - (digits n).length) '0') ((digits n).drop (w + 1)) 0).trans ?_
  rcases Nat.le_total (w + 1) (digits n).length with hle | hge
  · rw [Nat.sub_eq_zero_of_le hle, List.replicate_zero, List.append_nil, List.take_append_drop,
      ofDigits_digits, List.length_drop]
    congr 2
    omega
  · rw [List.take_of_length_le hge, List.drop_of_length_le hge, List.append_nil,
      ofDigits_append_zeros, ofDigits_digits, List.length_nil]
    push_cast
    rw [mul_one, ← zpow_natCast]
    congr 2
    omega

end Spelling

/-- **Digits keep their value wherever the point is put**, with an exponent or without one. -/
theorem Layout.exists_spelling_placed (limit : ℤ) (hn : 0 < n) (e : ℤ) :
    ∃ p : Spelling, placed limit (digits n) e = p.text ∧
      p.value = n * 10 ^ (e + 1 - (digits n).length) := by
  unfold placed
  split
  · exact ⟨.scientific hn e, List.append_assoc _ _ _, Spelling.value_scientific hn e⟩
  split
  · refine ⟨.belowOne n (e.natAbs - 1), ?_, (Spelling.value_belowOne n _).trans ?_⟩
    · rw [Spelling.text, Spelling.tail, Spelling.exponentPart, Spelling.belowOne]
      simp
    · congr 2
      omega
  · refine ⟨.positional hn e.toNat, ?_, (Spelling.value_positional hn _).trans ?_⟩
    · rw [Spelling.text, Spelling.tail, Spelling.exponentPart, Spelling.positional]
      simp
    · congr 2
      omega

/-! ### Reading them -/

theorem isDigit_of_mem_paddedDigits {width : ℕ} (h : c ∈ paddedDigits width n) :
    c.isDigit = true := by
  rcases List.mem_append.1 h with hzero | hdigit
  · rw [List.eq_of_mem_replicate hzero]
    rfl
  · exact isDigit_of_mem_digits hdigit

theorem paddedDigits_ne_nil (width n : ℕ) : paddedDigits width n ≠ [] :=
  List.append_ne_nil_of_right_ne_nil _ (digits_ne_nil n)

/-- Zeros in front of the digits of a number leave it as it is. -/
theorem ofDigits_paddedDigits (width n : ℕ) :
    ofDigits 10 digitValue (paddedDigits width n) = n := by
  rw [paddedDigits, ofDigits_zeros_append, ofDigits_digits]

/-- An exponent is a mark, a sign and digits. -/
theorem splitSign_exponentText (e : ℤ) :
    exponentText e = 'e' :: (exponentText e).drop 1 ∧
      splitSign ((exponentText e).drop 1) = (decide (e < 0), paddedDigits 2 e.natAbs) := by
  refine ⟨rfl, ?_⟩
  by_cases h : e < 0 <;> simp [exponentText, splitSign, h]

theorem readExponent?_exponentText {isMark : Char → Bool} (hmark : isMark 'e' = true) (e : ℤ) :
    readExponent? isMark (exponentText e) = some e := by
  have hall : (paddedDigits 2 e.natAbs).all Char.isDigit = true :=
    List.all_eq_true.2 fun c => isDigit_of_mem_paddedDigits
  have hsome : (paddedDigits 2 e.natAbs).isEmpty = false :=
    Bool.eq_false_iff.2 fun h => paddedDigits_ne_nil _ _ (List.isEmpty_iff.1 h)
  obtain ⟨hcons, hsplit⟩ := splitSign_exponentText e
  rw [hcons, readExponent?, hsplit]
  simp only [hmark, hall, hsome, ofDigits_paddedDigits, Bool.not_false, Bool.and_true, if_true,
    decide_eq_true_eq]
  congr 1
  split <;> omega

namespace Spelling

variable (p : Spelling)

theorem exponentPart_eq : p.exponentPart = [] ∧ p.exponent = none ∨
    ∃ e, p.exponentPart = exponentText e ∧ p.exponent = some e := by
  unfold exponentPart
  cases p.exponent with
  | none => exact .inl ⟨rfl, rfl⟩
  | some e => exact .inr ⟨e, rfl, rfl⟩

/-- Digits end where something else begins. -/
theorem takeWhile_isDigit (hs : ∀ c ∈ s, c.isDigit = true)
    (ht : ∀ c ∈ t.head?, c.isDigit = false) :
    (s ++ t).takeWhile Char.isDigit = s ∧ (s ++ t).dropWhile Char.isDigit = t := by
  have hnone : t.takeWhile Char.isDigit = [] ∧ t.dropWhile Char.isDigit = t := by
    cases t with
    | nil => exact ⟨rfl, rfl⟩
    | cons c t =>
      have hc : ¬c.isDigit = true := Bool.not_eq_true _ ▸ ht c rfl
      exact ⟨List.takeWhile_cons_of_neg hc, List.dropWhile_cons_of_neg hc⟩
  rw [List.takeWhile_append_of_pos hs, List.dropWhile_append_of_pos hs, hnone.1, hnone.2,
    List.append_nil]
  exact ⟨rfl, rfl⟩

theorem head_exponentPart : ∀ c ∈ p.exponentPart.head?, c.isDigit = false := by
  rcases p.exponentPart_eq with ⟨h, -⟩ | ⟨e, h, -⟩
  · rw [h]
    exact fun c hc => by cases hc
  · rw [h]
    rintro c ⟨⟩
    rfl

theorem head_tail : ∀ c ∈ p.tail.head?, c.isDigit = false := by
  rw [tail, pointed]
  split
  · exact p.head_exponentPart
  · rintro c ⟨⟩
    rfl

theorem splitPoint_text :
    splitPoint Char.isDigit p.text = (p.whole, p.fraction, p.exponentPart) := by
  obtain ⟨hwhole, htail⟩ := takeWhile_isDigit p.isDigit_whole p.head_tail
  rw [splitPoint, text, hwhole, htail, tail, pointed]
  by_cases hnone : p.fraction = []
  · rw [hnone, List.isEmpty_nil, if_pos rfl, List.nil_append]
    rcases p.exponentPart_eq with ⟨h, -⟩ | ⟨e, h, -⟩ <;> rw [h]
    rfl
  · have hsome : ¬p.fraction.isEmpty = true := fun h => hnone (List.isEmpty_iff.1 h)
    obtain ⟨hfraction, hexponent⟩ := takeWhile_isDigit p.isDigit_fraction p.head_exponentPart
    rw [if_neg hsome, List.cons_append]
    simp only [hfraction, hexponent]

/-- Nothing but digits, a point, a mark and signs stands in a text. -/
theorem mem_text (h : c ∈ p.text) : c.isDigit = true ∨ c ∈ ['.', 'e', '-', '+'] := by
  rcases List.mem_append.1 h with hwhole | htail
  · exact .inl (p.isDigit_whole c hwhole)
  rcases List.mem_append.1 htail with hfraction | hexponent
  · unfold pointed at hfraction
    split at hfraction
    · cases hfraction
    · rcases List.mem_cons.1 hfraction with rfl | hdigit
      · exact .inr (by decide)
      · exact .inl (p.isDigit_fraction c hdigit)
  · rcases p.exponentPart_eq with ⟨hnone, -⟩ | ⟨e, hsome, -⟩
    · rw [hnone] at hexponent
      cases hexponent
    · rw [hsome, exponentText] at hexponent
      rcases List.mem_cons.1 hexponent with rfl | hsigned
      · exact .inr (by decide)
      · rcases List.mem_cons.1 hsigned with rfl | hdigit
        · right
          split <;> decide
        · exact .inl (isDigit_of_mem_paddedDigits hdigit)

theorem exists_text_eq_cons : ∃ c rest, p.text = c :: rest ∧ c.isDigit = true := by
  obtain ⟨c, rest, hwhole⟩ := List.exists_cons_of_ne_nil p.whole_ne_nil
  refine ⟨c, rest ++ p.tail, by rw [text, hwhole, List.cons_append], ?_⟩
  exact p.isDigit_whole c (hwhole ▸ List.mem_cons_self)

theorem readDecimal?_text (negative : Bool) :
    readDecimal? negative p.text = some ⟨negative, p.significand, 10, p.scale⟩ := by
  have hsome : p.whole.isEmpty = false :=
    Bool.eq_false_iff.2 fun h => p.whole_ne_nil (List.isEmpty_iff.1 h)
  have hexponent : readExponent? (fun c => c == 'e' || c == 'E') p.exponentPart =
      some (p.exponent.getD 0) := by
    rcases p.exponentPart_eq with ⟨hpart, hnone⟩ | ⟨e, hpart, hsome⟩
    · rw [hpart, hnone]
      rfl
    · rw [hpart, hsome]
      exact readExponent?_exponentText (by decide) e
  simp only [readDecimal?, p.splitPoint_text, hsome, Bool.false_and, Bool.false_eq_true, if_false,
    hexponent]
  rfl

/-- **The numeral that is read** of a text has its value. -/
theorem readNumeral?_text (negative : Bool) :
    readNumeral? ((if negative then ['-'] else []) ++ p.text) =
      some ⟨negative, p.significand, 10, p.scale⟩ := by
  obtain ⟨c, rest, htext, hdigit⟩ := p.exists_text_eq_cons
  have hsplit : splitSign (((if negative then ['-'] else []) ++ p.text).dropWhile isSpace) =
      (negative, p.text) := by
    cases negative with
    | true => rfl
    | false =>
      have hspace : ¬isSpace c = true := by rw [isSpace_of_isDigit hdigit]; exact Bool.false_ne_true
      rw [if_neg Bool.false_ne_true, List.nil_append, htext, List.dropWhile_cons_of_neg hspace,
        splitSign.eq_def]
      split
      · next h => exact absurd ((List.cons.inj h).1 ▸ hdigit) (by decide)
      · next h => exact absurd ((List.cons.inj h).1 ▸ hdigit) (by decide)
      · rfl
  rw [readNumeral?, hsplit]
  simp only
  split
  · next h => exact absurd (p.mem_text (c := 'x') (by simp [h])) (by decide)
  · next h => exact absurd (p.mem_text (c := 'X') (by simp [h])) (by decide)
  · exact p.readDecimal?_text negative

end Spelling

end IqTape
