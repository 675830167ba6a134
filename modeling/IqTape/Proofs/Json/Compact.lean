import IqTape.Json.Text
import IqTape.Proofs.Number.Decimal

/-!
# Values on one line

The text of a value on one line is a line: a text in quotes has its control characters escaped,
and whatever else is written is digits, points, signs, brackets and names.  So there is no line
break in it, nor any other control character, whatever the texts and names inside the value hold.

## Main definitions

* `IsPrinted` — a text without control characters.

## Main results

* `isPrinted_escape`, `isPrinted_quoted` — what stands in quotes.
* `isPrinted_shortest` — what stands for a number.
* `Json.isPrinted_compact` — **a value on one line is one line**.
-/

namespace IqTape

/-- No character is a control character. -/
def IsPrinted (s : List Char) : Prop := ∀ c ∈ s, 32 ≤ c.toNat

instance (s : List Char) : Decidable (IsPrinted s) :=
  List.decidableBAll (fun c : Char => 32 ≤ c.toNat) s

variable {s t : List Char} {c : Char}

theorem isPrinted_nil : IsPrinted [] := List.forall_mem_nil _

theorem isPrinted_cons : IsPrinted (c :: s) ↔ 32 ≤ c.toNat ∧ IsPrinted s := List.forall_mem_cons

theorem isPrinted_append : IsPrinted (s ++ t) ↔ IsPrinted s ∧ IsPrinted t :=
  List.forall_mem_append

theorem IsPrinted.append (hs : IsPrinted s) (ht : IsPrinted t) : IsPrinted (s ++ t) :=
  isPrinted_append.2 ⟨hs, ht⟩

/-- Leaving characters out leaves no control character in. -/
theorem IsPrinted.sublist (ht : IsPrinted t) (h : s.Sublist t) : IsPrinted s :=
  fun c hc => ht c (h.subset hc)

theorem isPrinted_replicate (n : ℕ) (hc : 32 ≤ c.toNat) : IsPrinted (List.replicate n c) := by
  intro d hd
  rw [List.eq_of_mem_replicate hd]
  exact hc

/-- There is no line break in what is printed. -/
theorem IsPrinted.newline_notMem (hs : IsPrinted s) : '\n' ∉ s :=
  fun h => absurd (hs _ h) (by decide)

/-! ### Numbers -/

theorem isPrinted_of_digits (h : ∀ c ∈ s, c.isDigit = true) : IsPrinted s := by
  intro c hc
  have hzero : '0'.val ≤ c.val := of_decide_eq_true (Bool.and_eq_true_iff.1 (h c hc)).1
  exact Nat.le_trans (by decide) (UInt32.le_iff_toNat_le.1 hzero)

theorem isPrinted_digits (n : ℕ) : IsPrinted (digits n) :=
  isPrinted_of_digits fun _ => isDigit_of_mem_digits

namespace Layout

theorem isPrinted_paddedDigits (width n : ℕ) : IsPrinted (paddedDigits width n) :=
  (isPrinted_replicate _ (by decide)).append (isPrinted_digits n)

theorem isPrinted_pointed (hs : IsPrinted s) : IsPrinted (pointed s) := by
  unfold pointed
  split
  · exact isPrinted_nil
  · exact isPrinted_cons.2 ⟨by decide, hs⟩

theorem isPrinted_dropTrailingZeros (hs : IsPrinted s) : IsPrinted (dropTrailingZeros s) := by
  refine hs.sublist ?_
  have hdropped := (List.dropWhile_sublist (· == '0') (l := s.reverse)).reverse
  rwa [List.reverse_reverse] at hdropped

theorem isPrinted_exponentText (e : ℤ) : IsPrinted (exponentText e) := by
  unfold exponentText
  refine isPrinted_cons.2 ⟨by decide, isPrinted_cons.2 ⟨?_, isPrinted_paddedDigits 2 _⟩⟩
  split <;> decide

/-- Digits stay digits wherever the point is put between them. -/
theorem isPrinted_placed (limit : ℤ) (hs : IsPrinted s) (e : ℤ) :
    IsPrinted (placed limit s e) := by
  unfold placed
  split
  · exact ((hs.sublist (List.take_sublist 1 s)).append (isPrinted_pointed
      (isPrinted_dropTrailingZeros (hs.sublist (List.drop_sublist 1 s))))).append
      (isPrinted_exponentText e)
  · split
    · exact isPrinted_cons.2 ⟨by decide, isPrinted_pointed
        ((isPrinted_replicate _ (by decide)).append (isPrinted_dropTrailingZeros hs))⟩
    · simp only
      exact ((hs.sublist (List.take_sublist _ s)).append
        (isPrinted_replicate _ (by decide))).append
        (isPrinted_pointed (isPrinted_dropTrailingZeros (hs.sublist (List.drop_sublist _ s))))

theorem isPrinted_shortText (count num den : ℕ) : IsPrinted (shortText count num den) := by
  unfold shortText
  split
  · exact isPrinted_cons.2 ⟨by decide, isPrinted_nil⟩
  · exact isPrinted_placed shortLimit (isPrinted_digits _) _

/-- So is a number that is to be read again. -/
theorem isPrinted_shortest (x : Binary64) : IsPrinted (shortest x).toList := by
  have hminus {negative : Bool} : IsPrinted (if negative then ['-'] else []) := by
    cases negative <;> decide
  have hreal {text : List Char} (htext : IsPrinted text) :
      IsPrinted (if looksReal text then text else text ++ ['.', '0']) := by
    split
    · exact htext
    · exact htext.append (by decide)
  unfold shortest
  cases hx : x.datum with
  | finite negative m q =>
    have htext := hreal (isPrinted_shortText (max 1 (leastDigits x)) (scaled m 1 (-q)).1
      (scaled m 1 (-q)).2)
    simp only [String.toList_ofList]
    split
    · exact isPrinted_cons.2 ⟨by decide, htext⟩
    · exact htext
  | infinite negative =>
    simp only [write, hx, datumText, String.toList_ofList]
    exact hminus.append (by decide)
  | nan negative payload =>
    simp only [write, hx, datumText, String.toList_ofList]
    exact hminus.append (by decide)

end Layout

namespace Json

/-! ### Texts in quotes -/

/-- Every control character has a code of printed characters. -/
theorem isPrinted_controlCode (hc : c.toNat < 32) : IsPrinted (controlCode c) := by
  have hcodes : ∀ n < 32, IsPrinted
      (List.replicate (4 - (Nat.toDigits 16 n).length) '0' ++ Nat.toDigits 16 n) := by
    decide
  exact hcodes c.toNat hc

/-- **Control characters are escaped.** -/
theorem isPrinted_escape (c : Char) : IsPrinted (escape c) := by
  unfold escape
  iterate 7
    split
    · decide
  split
  · next hc => exact isPrinted_cons.2 ⟨by decide, isPrinted_cons.2 ⟨by decide,
      isPrinted_controlCode hc⟩⟩
  · next hc => exact isPrinted_cons.2 ⟨Nat.not_lt.1 hc, isPrinted_nil⟩

theorem isPrinted_quoted (s : String) : IsPrinted (quoted s).toList := by
  have hinside : IsPrinted (s.toList.flatMap escape) := by
    intro d hd
    obtain ⟨c, -, hc⟩ := List.mem_flatMap.1 hd
    exact isPrinted_escape c d hc
  rw [quoted, String.toList_ofList]
  exact isPrinted_cons.2 ⟨by decide, hinside.append (by decide)⟩

/-! ### Values -/

theorem isPrinted_realText (x : Binary64) : IsPrinted (realText x).toList := by
  unfold realText
  split
  · exact Layout.isPrinted_shortest x
  · decide

theorem isPrinted_decimal (n : ℕ) : IsPrinted (decimal n).toList := by
  rw [decimal, String.toList_ofList]
  exact isPrinted_digits n

mutual

/-- What is written of a value on one line is printed. -/
theorem isPrinted_text : ∀ j : Json, IsPrinted (text none j).toList
  | .null => by
    rw [text]
    decide
  | .bool b => by
    rw [text]
    cases b <;> decide
  | .integer n => by
    rw [text]
    split
    · rw [String.toList_append]
      exact IsPrinted.append (by decide) (isPrinted_decimal _)
    · exact isPrinted_decimal _
  | .real x => by
    rw [text]
    exact isPrinted_realText x
  | .string s => by
    rw [text]
    exact isPrinted_quoted s
  | .array values => by
    rw [text]
    split
    · decide
    · simp only [String.toList_append]
      exact ((IsPrinted.append (by decide) (isPrinted_textValues values)).append
        (by decide)).append (by decide)
  | .object members => by
    rw [text]
    split
    · decide
    · simp only [String.toList_append]
      exact ((IsPrinted.append (by decide) (isPrinted_textMembers members)).append
        (by decide)).append (by decide)

theorem isPrinted_textValues : ∀ values : List Json, IsPrinted (textValues none values).toList
  | [] => by
    rw [textValues]
    decide
  | [v] => by
    rw [textValues, String.toList_append]
    exact IsPrinted.append (by decide) (isPrinted_text v)
  | v :: w :: rest => by
    simp only [textValues, String.toList_append]
    exact ((IsPrinted.append (by decide) (isPrinted_text v)).append (by decide)).append
      (isPrinted_textValues (w :: rest))

theorem isPrinted_textMembers :
    ∀ members : List (String × Json), IsPrinted (textMembers none members).toList
  | [] => by
    rw [textMembers]
    decide
  | [(k, v)] => by
    simp only [textMembers, String.toList_append]
    exact ((IsPrinted.append (by decide) (isPrinted_quoted k)).append (by decide)).append
      (isPrinted_text v)
  | (k, v) :: m :: rest => by
    simp only [textMembers, String.toList_append]
    exact ((((IsPrinted.append (by decide) (isPrinted_quoted k)).append (by decide)).append
      (isPrinted_text v)).append (by decide)).append (isPrinted_textMembers (m :: rest))

end

/-- **A value on one line is one line**, whatever its texts and names hold. -/
theorem isPrinted_compact (j : Json) : IsPrinted j.compact.toList := isPrinted_text j.ordered

end Json

end IqTape
