import IqTape.Json.Reader
import IqTape.Json.Text
import IqTape.Proofs.Number.Shortest

/-!
# Values that are read back

What is written of a value on one line is read as that value again, with the members of its objects
in the order of their names, and with nothing in the place of a number that is not finite.  This
takes whole numbers that fit a word and objects whose members have different names, since of two
members with one name only one comes back.

## Main definitions

* `Json.IsProper` — whole numbers are words, and no name stands twice in an object.
* `Json.reread` — a value with nothing in the place of numbers that are not finite.

## Main results

* `Json.Reading.string_escaped` — a text in quotes.
* `Json.Reading.number_text` — a number.
* `Json.Reading.value_text` — **a value in front of a text**.
* `Json.read_compact` — **what is written on one line is read back**.
-/

namespace IqTape

namespace Json

/-! ### Texts in quotes -/

namespace Reading

/-- Hexadecimal digits are read as the number that they spell. -/
theorem hexCode_append {ds : List Char} (hds : ∀ c ∈ ds, isHexDigit c = true) (n : ℕ)
    (rest : List Char) :
    hexCode ds.length n (ds ++ rest) =
      .ok (ds.foldl (fun n c => n * 16 + hexDigitValue c) n, rest) := by
  induction ds generalizing n with
  | nil => rfl
  | cons c ds ih =>
    rw [List.length_cons, List.cons_append, hexCode, if_pos (hds c List.mem_cons_self)]
    exact ih (fun d hd => hds d (List.mem_cons_of_mem _ hd)) _

/-- The code of a control character is read as the character. -/
theorem unicode_controlCode {c : Char} (hc : c.toNat < 32) (rest : List Char) :
    unicode (controlCode c ++ rest) = .ok (c, rest) := by
  have hcodes : ∀ n < 32,
      let ds := List.replicate (4 - (Nat.toDigits 16 n).length) '0' ++ Nat.toDigits 16 n
      ds.length = 4 ∧ ds.all isHexDigit = true ∧
        ds.foldl (fun n c => n * 16 + hexDigitValue c) 0 = n := by decide
  obtain ⟨hlength, hhex, hvalue⟩ := hcodes c.toNat hc
  have hcode : hexCode 4 0 (controlCode c ++ rest) = .ok (c.toNat, rest) := by
    have h := hexCode_append (List.all_eq_true.1 hhex) 0 rest
    rwa [hlength, hvalue] at h
  rw [unicode, hcode]
  have hhigh : ¬(0xD800 ≤ c.toNat ∧ c.toNat < 0xDC00) := by omega
  have hlow : ¬(0xDC00 ≤ c.toNat ∧ c.toNat < 0xE000) := by omega
  simp only [if_neg hhigh, if_neg hlow, Char.ofNat_toNat]

/-- **A character comes back from quotes.** -/
theorem string_escape (fuel : ℕ) (found : List Char) (c : Char) (rest : List Char) :
    string (fuel + 1) found (escape c ++ rest) = string fuel (c :: found) rest := by
  unfold escape
  split_ifs with h1 h2 h3 h4 h5 h6 h7 h8
  iterate 7
    · subst_vars
      rfl
  · rw [List.cons_append, List.cons_append, string, escaped, unicode_controlCode h8]
  · rw [List.singleton_append, string, if_neg h8]
    · exact h1
    · exact h2

/-- **A text comes back from quotes.** -/
theorem string_escaped {fuel : ℕ} {s : List Char} (hfuel : s.length < fuel) (found : List Char)
    (rest : List Char) :
    string fuel found (s.flatMap escape ++ '"' :: rest) =
      .ok (String.ofList (found.reverse ++ s), rest) := by
  induction s generalizing fuel found with
  | nil =>
    obtain ⟨fuel, rfl⟩ := Nat.exists_eq_succ_of_ne_zero hfuel.ne'
    rw [List.append_nil]
    rfl
  | cons c s ih =>
    obtain ⟨fuel, rfl⟩ := Nat.exists_eq_succ_of_ne_zero (Nat.zero_lt_of_lt hfuel).ne'
    rw [List.flatMap_cons, List.append_assoc, string_escape,
      ih (Nat.lt_of_succ_lt_succ hfuel) (c :: found), List.reverse_cons, List.append_assoc]
    rfl

theorem escape_ne_nil (c : Char) : escape c ≠ [] := by
  unfold escape
  split_ifs <;> simp

/-- Quotes make a text no shorter. -/
theorem length_le_flatMap_escape (s : List Char) : s.length ≤ (s.flatMap escape).length := by
  induction s with
  | nil => exact Nat.le_refl 0
  | cons c s ih =>
    have hone : 0 < (escape c).length := List.length_pos_iff.2 (escape_ne_nil c)
    rw [List.flatMap_cons, List.length_append, List.length_cons]
    omega

/-- A text in quotes, behind its opening quote. -/
theorem string_quoted (s : String) (rest : List Char) :
    string ((s.toList.flatMap escape ++ '"' :: rest).length + 1) []
      (s.toList.flatMap escape ++ '"' :: rest) = .ok (s, rest) := by
  have hlength := length_le_flatMap_escape s.toList
  rw [string_escaped (by rw [List.length_append]; omega), List.reverse_nil, List.nil_append,
    String.ofList_toList]

/-! ### Numbers -/

variable {s t rest : List Char}

/-- A number ends where no digit, no point and no mark of an exponent follows. -/
def EndsNumber (rest : List Char) : Prop :=
  ∀ c ∈ rest.head?, c.isDigit = false ∧ c ≠ '.' ∧ c ≠ 'e' ∧ c ≠ 'E'

theorem someDigits_append (hs : ∀ c ∈ s, c.isDigit = true) (hne : s ≠ [])
    (ht : ∀ c ∈ t.head?, c.isDigit = false) : someDigits (s ++ t) = .ok (s, t) := by
  obtain ⟨htake, hdrop⟩ := Spelling.takeWhile_isDigit hs ht
  have hsome : s.isEmpty = false := Bool.eq_false_iff.2 fun h => hne (List.isEmpty_iff.1 h)
  rw [someDigits, htake, hdrop]
  simp only [hsome, Bool.false_eq_true, if_false]

theorem wholePart_append (p : Spelling) (ht : ∀ c ∈ t.head?, c.isDigit = false) :
    wholePart (p.whole ++ t) = .ok (p.whole, t) := by
  have hdigits := someDigits_append p.isDigit_whole p.whole_ne_nil ht
  rcases p.leading with hzero | ⟨c, s, hwhole, hc⟩
  · rw [hzero]
    rfl
  · rw [hwhole] at hdigits ⊢
    rw [List.cons_append] at hdigits ⊢
    rw [wholePart.eq_def]
    split
    · next h => exact absurd (List.cons.inj h).1 hc
    · exact hdigits

theorem fraction_append (p : Spelling) (ht : ∀ c ∈ t.head?, c.isDigit = false ∧ c ≠ '.') :
    fraction (Layout.pointed p.fraction ++ t) = .ok (p.fraction, t) := by
  unfold Layout.pointed
  split
  · next hnone =>
    rw [List.isEmpty_iff.1 hnone, List.nil_append, fraction.eq_def]
    split
    · exact absurd rfl (ht '.' rfl).2
    · rfl
  · next hsome =>
    exact someDigits_append p.isDigit_fraction (fun h => hsome (List.isEmpty_iff.2 h))
      fun c hc => (ht c hc).1

theorem exponent_append (p : Spelling) (hrest : EndsNumber rest) :
    exponent (p.exponentPart ++ rest) = .ok (p.exponent, rest) := by
  rcases p.exponentPart_eq with ⟨hpart, hnone⟩ | ⟨e, hpart, hsome⟩
  · rw [hpart, hnone, List.nil_append]
    cases rest with
    | nil => rfl
    | cons c rest =>
      obtain ⟨-, -, he, hE⟩ := hrest c rfl
      rw [exponent, if_neg (not_or.2 ⟨he, hE⟩)]
  · have hdigits := someDigits_append (fun c => isDigit_of_mem_paddedDigits (n := e.natAbs))
      (paddedDigits_ne_nil 2 e.natAbs) fun c hc => (hrest c hc).1
    have hsign : splitSign ((if e < 0 then '-' else '+') ::
        (paddedDigits 2 e.natAbs ++ rest)) = (decide (e < 0), paddedDigits 2 e.natAbs ++ rest) := by
      by_cases h : e < 0 <;> simp [splitSign, h]
    rw [hpart, hsome, Layout.exponentText, List.cons_append, List.cons_append, exponent,
      if_pos (.inl rfl), hsign]
    simp only [hdigits, Step.map, ofDigits_paddedDigits, decide_eq_true_eq]
    congr 3
    split <;> omega

/-- **A number in front of a text**, by its parts. -/
theorem number_text (p : Spelling) {negative : Bool} {v : Json}
    (hv : numberValue? negative p.whole p.fraction p.exponent = some v) (hrest : EndsNumber rest) :
    number ((if negative then ['-'] else []) ++ (p.text ++ rest)) = .ok (v, rest) := by
  have hexponent : ∀ c ∈ (p.exponentPart ++ rest).head?, c.isDigit = false ∧ c ≠ '.' := by
    rcases p.exponentPart_eq with ⟨hpart, -⟩ | ⟨e, hpart, -⟩
    · rw [hpart]
      exact fun c hc => ⟨(hrest c hc).1, (hrest c hc).2.1⟩
    · rw [hpart]
      rintro c ⟨⟩
      decide
  have htail : ∀ c ∈ (p.tail ++ rest).head?, c.isDigit = false := by
    rw [Spelling.tail, List.append_assoc, Layout.pointed]
    split
    · exact fun c hc => (hexponent c hc).1
    · rintro c ⟨⟩
      rfl
  have hwhole : wholePart (p.text ++ rest) = .ok (p.whole, p.tail ++ rest) := by
    rw [Spelling.text, List.append_assoc]
    exact wholePart_append p htail
  have hfraction : fraction (p.tail ++ rest) = .ok (p.fraction, p.exponentPart ++ rest) := by
    rw [Spelling.tail, List.append_assoc]
    exact fraction_append p hexponent
  unfold number
  cases negative with
  | true =>
    simp only [if_true, List.singleton_append, hwhole, hfraction, exponent_append p hrest, hv]
  | false =>
    obtain ⟨c, s, htext, hdigit⟩ := p.exists_text_eq_cons
    have hminus : c ≠ '-' := ne_of_isDigit hdigit rfl
    rw [if_neg Bool.false_ne_true, List.nil_append]
    split
    next negative t hsign =>
    split at hsign
    · next h =>
      rw [htext] at h
      exact absurd (List.cons.inj h).1 hminus
    · cases hsign
      simp only [hwhole, hfraction, exponent_append p hrest, hv]

/-- A number with a point or an exponent is read in double precision. -/
theorem numberValue?_of_isReal {p : Spelling} (hp : p.isReal = true) (negative : Bool)
    (hfinite : (p.numeral negative).round.isFinite = true) :
    numberValue? negative p.whole p.fraction p.exponent =
      some (.real (p.numeral negative).round) := by
  have hshape : (p.fraction.isEmpty && p.exponent.isNone) = false := by
    cases hfraction : p.fraction.isEmpty <;> cases hexponent : p.exponent <;>
      simp_all [Spelling.isReal]
  have hnumeral : (⟨negative, ofDigits 10 digitValue (p.whole ++ p.fraction), 10,
      p.exponent.getD 0 - p.fraction.length⟩ : Numeral) = p.numeral negative := rfl
  simp only [numberValue?, hshape, Bool.false_and, Bool.false_eq_true, if_false, hnumeral, hfinite,
    if_true]

/-- The digits of a number as parts of a text. -/
def digitParts (n : ℕ) : Spelling where
  whole := digits n
  fraction := []
  exponent := none
  isDigit_whole _ := isDigit_of_mem_digits
  isDigit_fraction := List.forall_mem_nil _
  leading := by
    rcases Nat.eq_zero_or_pos n with rfl | hpos
    · exact .inl rfl
    · exact .inr (exists_digits_eq_cons hpos)

theorem text_digitParts (n : ℕ) : (digitParts n).text = digits n := List.append_nil _

/-- A whole number that fits a word is read as it is. -/
theorem numberValue?_digitParts (n : ℕ) {negative : Bool} {k : ℤ}
    (hk : k = if negative then -(n : ℤ) else n) (hleast : -2 ^ 63 ≤ k) (hmost : k < 2 ^ 64) :
    numberValue? negative (digitParts n).whole (digitParts n).fraction (digitParts n).exponent =
      some (.integer k) := by
  simp only [numberValue?, digitParts, ofDigits_digits, ← hk, List.isEmpty_nil, Option.isNone_none,
    Bool.true_and, decide_eq_true hleast, decide_eq_true hmost, if_true]

end Reading

/-! ### Values -/

mutual

/-- Whole numbers fit a word, and the members of an object have different names. -/
def IsProper : Json → Prop
  | .integer n => -2 ^ 63 ≤ n ∧ n < 2 ^ 64
  | .array values => AreProper values
  | .object members => (members.map Prod.fst).Nodup ∧ MembersAreProper members
  | _ => True

def AreProper : List Json → Prop
  | [] => True
  | v :: rest => IsProper v ∧ AreProper rest

def MembersAreProper : List (String × Json) → Prop
  | [] => True
  | (_, v) :: rest => IsProper v ∧ MembersAreProper rest

end

mutual

/-- A value with nothing in the place of numbers that are not finite. -/
def reread : Json → Json
  | .real x => if x.isFinite then .real x else .null
  | .array values => .array (rereadValues values)
  | .object members => .object (rereadMembers members)
  | j => j

def rereadValues : List Json → List Json
  | [] => []
  | v :: rest => reread v :: rereadValues rest

def rereadMembers : List (String × Json) → List (String × Json)
  | [] => []
  | (k, v) :: rest => (k, reread v) :: rereadMembers rest

end

/-- A member with a new name is put at the end. -/
theorem put_of_notMem {name : String} {v : Json} {ms : List (String × Json)}
    (h : name ∉ ms.map Prod.fst) : put name v ms = ms ++ [(name, v)] := by
  induction ms with
  | nil => rfl
  | cons m ms ih =>
    obtain ⟨k, w⟩ := m
    rw [List.map_cons, List.mem_cons, not_or] at h
    rw [put, if_neg (Ne.symm h.1), ih h.2]
    rfl

namespace Reading

/-- A value ends where the list or the object around it goes on or ends, or at the end of all. -/
def EndsValue (rest : List Char) : Prop := ∀ c ∈ rest.head?, c ∈ [',', ']', '\x7d']

theorem EndsValue.endsNumber {rest : List Char} (h : EndsValue rest) : EndsNumber rest := by
  have hchars : ∀ c ∈ [',', ']', '\x7d'],
      c.isDigit = false ∧ c ≠ '.' ∧ c ≠ 'e' ∧ c ≠ 'E' := by
    simp only [List.forall_mem_cons]
    exact ⟨by decide, by decide, by decide, List.forall_mem_nil _⟩
  exact fun c hc => hchars c (h c hc)

/-- What is neither a list nor an object. -/
theorem value_eq_scalar (fuel : ℕ) {c : Char} (s : List Char) (hblank : isBlank c = false)
    (hlist : c ≠ '[') (hobject : c ≠ '\x7b') : value (fuel + 1) (c :: s) = scalar (c :: s) := by
  have hskip : skipBlanks (c :: s) = c :: s :=
    List.dropWhile_cons_of_neg (by rw [hblank]; exact Bool.false_ne_true)
  rw [value, hskip]
  split
  · next h => exact absurd (List.cons.inj h).1 hlist
  · next h => exact absurd (List.cons.inj h).1 hobject
  · rfl

theorem value_eq_number (fuel : ℕ) {c : Char} (s : List Char) (hc : c.isDigit = true ∨ c = '-') :
    value (fuel + 1) (c :: s) = number (c :: s) := by
  have hne {d : Char} (hd : d.isDigit = false) (hminus : d ≠ '-') : c ≠ d := by
    rintro rfl
    rcases hc with hdigit | rfl
    · rw [hd] at hdigit
      cases hdigit
    · exact hminus rfl
  have hblank : isBlank c = false := by
    rcases hc with hdigit | rfl
    · exact isBlank_of_isDigit hdigit
    · rfl
  rw [value_eq_scalar fuel s hblank (hne rfl (by decide)) (hne rfl (by decide)), scalar.eq_def]
  split
  · next h => exact absurd (List.cons.inj h).1 (hne rfl (by decide))
  · next h => exact absurd (List.cons.inj h).1 (hne rfl (by decide))
  · next h => exact absurd (List.cons.inj h).1 (hne rfl (by decide))
  · next h => exact absurd (List.cons.inj h).1 (hne rfl (by decide))
  · rfl

/-- A number in front of a text is a value. -/
theorem value_number (fuel : ℕ) (p : Spelling) {negative : Bool} {v : Json}
    (hv : numberValue? negative p.whole p.fraction p.exponent = some v) (hrest : EndsNumber rest) :
    value (fuel + 1) ((if negative then ['-'] else []) ++ (p.text ++ rest)) = .ok (v, rest) := by
  refine Eq.trans ?_ (number_text p hv hrest)
  cases negative with
  | true => exact value_eq_number fuel _ (.inr rfl)
  | false =>
    obtain ⟨c, s, htext, hdigit⟩ := p.exists_text_eq_cons
    rw [htext]
    exact value_eq_number fuel _ (.inl hdigit)

/-! ### Texts on one line -/

theorem toList_quoted (s : String) :
    (quoted s).toList = '"' :: (s.toList.flatMap escape ++ ['"']) := String.toList_ofList

theorem toList_text_array (v : Json) (vs : List Json) :
    (text none (.array (v :: vs))).toList =
      '[' :: ((textValues none (v :: vs)).toList ++ [']']) := by
  simp [text, inside, newLine]

theorem toList_text_object (m : String × Json) (ms : List (String × Json)) :
    (text none (.object (m :: ms))).toList =
      '\x7b' :: ((textMembers none (m :: ms)).toList ++ ['\x7d']) := by
  simp [text, inside, newLine]

theorem toList_textValues (v w : Json) (vs : List Json) :
    (textValues none (v :: w :: vs)).toList =
      (text none v).toList ++ ',' :: (textValues none (w :: vs)).toList := by
  simp [textValues, newLine]

theorem toList_textMembers_singleton (k : String) (v : Json) :
    (textMembers none [(k, v)]).toList = (quoted k).toList ++ ':' :: (text none v).toList := by
  simp [textMembers, newLine, colon]

theorem toList_textMembers (k : String) (v : Json) (m : String × Json)
    (ms : List (String × Json)) :
    (textMembers none ((k, v) :: m :: ms)).toList =
      (quoted k).toList ++ ':' :: ((text none v).toList ++
        ',' :: (textMembers none (m :: ms)).toList) := by
  simp [textMembers, newLine, colon]

/-- The name of a member, with the colon behind it. -/
theorem memberName_quoted (k : String) (rest : List Char) :
    memberName ((quoted k).toList ++ ':' :: rest) = .ok (k, rest) := by
  have hquote : skipBlanks ((quoted k).toList ++ ':' :: rest) =
      '"' :: (k.toList.flatMap escape ++ '"' :: ':' :: rest) := by
    rw [toList_quoted, List.cons_append, List.append_assoc]
    rfl
  have hcolon : skipBlanks (':' :: rest) = ':' :: rest := rfl
  rw [memberName, hquote]
  simp only [string_quoted k (':' :: rest), hcolon]

/-- Where values can be read the list does not end at once. -/
theorem skipBlanks_ne_bracket {fuel : ℕ} {found vs : List Json} {s rest : List Char}
    (h : values fuel found s = .ok (vs, rest)) (t : List Char) : skipBlanks s ≠ ']' :: t := by
  intro hskip
  cases fuel with
  | zero => cases h
  | succ fuel =>
    rw [values] at h
    cases fuel with
    | zero => cases h
    | succ fuel =>
      rw [value, hskip] at h
      cases h

/-- Where members can be read the object does not end at once. -/
theorem skipBlanks_ne_brace {fuel : ℕ} {found ms : List (String × Json)} {s rest : List Char}
    (h : members fuel found s = .ok (ms, rest)) (t : List Char) : skipBlanks s ≠ '\x7d' :: t := by
  intro hskip
  cases fuel with
  | zero => cases h
  | succ fuel =>
    rw [members, memberName, hskip] at h
    cases h

/-- One value more, if others follow. -/
theorem values_cons {fuel : ℕ} {s rest : List Char} {v : Json}
    (h : value fuel s = .ok (v, ',' :: rest)) (found : List Json) :
    values (fuel + 1) found s = values fuel (v :: found) rest := by
  rw [values, h]
  rfl

/-- The last value. -/
theorem values_last {fuel : ℕ} {s rest : List Char} {v : Json}
    (h : value fuel s = .ok (v, ']' :: rest)) (found : List Json) :
    values (fuel + 1) found s = .ok (found.reverse ++ [v], rest) := by
  rw [values, h, ← List.reverse_cons]
  rfl

/-- One member more, if others follow. -/
theorem members_cons {fuel : ℕ} {k : String} {s rest : List Char} {v : Json}
    (h : value fuel s = .ok (v, ',' :: rest)) (found : List (String × Json)) :
    members (fuel + 1) found ((quoted k).toList ++ ':' :: s) =
      members fuel (put k v found) rest := by
  rw [members, memberName_quoted]
  simp only [h]
  rfl

/-- The last member. -/
theorem members_last {fuel : ℕ} {k : String} {s rest : List Char} {v : Json}
    (h : value fuel s = .ok (v, '\x7d' :: rest)) (found : List (String × Json)) :
    members (fuel + 1) found ((quoted k).toList ++ ':' :: s) = .ok (put k v found, rest) := by
  rw [members, memberName_quoted]
  simp only [h]
  rfl

theorem endsValue_cons {c : Char} (hc : c ∈ [',', ']', '\x7d']) (rest : List Char) :
    EndsValue (c :: rest) := by
  rintro d ⟨⟩
  exact hc

/-- What is written on one line is read back with so much fuel: values, the values of lists, and the
members of objects. -/
structure ReadsBack (fuel : ℕ) : Prop where
  value (j : Json) (rest : List Char) : j.IsProper → (text none j).toList.length < fuel →
    EndsValue rest → value fuel ((text none j).toList ++ rest) = .ok (j.reread, rest)
  values (found : List Json) (v : Json) (vs : List Json) (rest : List Char) :
    AreProper (v :: vs) → (textValues none (v :: vs)).toList.length + 1 < fuel →
      values fuel found ((textValues none (v :: vs)).toList ++ ']' :: rest) =
        .ok (found.reverse ++ rereadValues (v :: vs), rest)
  members (found : List (String × Json)) (m : String × Json) (ms : List (String × Json))
    (rest : List Char) : ((found ++ m :: ms).map Prod.fst).Nodup → MembersAreProper (m :: ms) →
    (textMembers none (m :: ms)).toList.length + 1 < fuel →
      members fuel found ((textMembers none (m :: ms)).toList ++ '\x7d' :: rest) =
        .ok (found ++ rereadMembers (m :: ms), rest)

/-- A whole number in front of a text. -/
theorem value_integer (fuel : ℕ) {n : ℤ} (hn : (Json.integer n).IsProper) (hrest : EndsValue rest) :
    value (fuel + 1) ((text none (.integer n)).toList ++ rest) = .ok (.integer n, rest) := by
  rw [IsProper] at hn
  have hsigned : n = if decide (n < 0) then -(n.natAbs : ℤ) else n.natAbs := by
    simp only [decide_eq_true_eq]
    split <;> omega
  have hparts := numberValue?_digitParts n.natAbs hsigned hn.1 hn.2
  have hvalue := value_number fuel (digitParts n.natAbs) hparts hrest.endsNumber
  rw [text_digitParts] at hvalue
  refine Eq.trans ?_ hvalue
  by_cases hneg : n < 0 <;> simp [text, hneg, decimal]

/-- A number with a fraction in front of a text. -/
theorem value_real (fuel : ℕ) (x : Binary64) (hrest : EndsValue rest) :
    value (fuel + 1) ((text none (.real x)).toList ++ rest) = .ok ((Json.real x).reread, rest) := by
  rw [text, realText, reread]
  by_cases hfinite : x.isFinite = true
  · rw [if_pos hfinite, if_pos hfinite]
    cases hx : x.datum with
    | finite negative m q =>
      obtain ⟨p, htext, hreal, hround⟩ := Layout.exists_spelling_shortest hx
      have hvalue := numberValue?_of_isReal hreal negative (by rwa [hround])
      rw [htext, List.append_assoc, value_number fuel p hvalue hrest.endsNumber, hround]
    | infinite negative =>
      rw [Binary64.isFinite, hx] at hfinite
      cases hfinite
    | nan negative fraction =>
      rw [Binary64.isFinite, hx] at hfinite
      cases hfinite
  · rw [if_neg hfinite, if_neg hfinite]
    rfl

/-- A text in quotes in front of a text. -/
theorem value_string (fuel : ℕ) (s : String) (rest : List Char) :
    value (fuel + 1) ((text none (.string s)).toList ++ rest) = .ok (.string s, rest) := by
  rw [text, toList_quoted, List.cons_append, List.append_assoc, List.singleton_append,
    value_eq_scalar fuel _ rfl (by decide) (by decide), scalar, string_quoted]
  rfl

namespace ReadsBack

variable {fuel : ℕ}

theorem value_succ (h : ReadsBack fuel) (j : Json) (rest : List Char) (hj : j.IsProper)
    (hfuel : (text none j).toList.length < fuel + 1) (hrest : EndsValue rest) :
    Reading.value (fuel + 1) ((text none j).toList ++ rest) = .ok (j.reread, rest) := by
  cases j with
  | null => rw [text]; rfl
  | bool b => rw [text]; cases b <;> rfl
  | integer n => exact value_integer fuel hj hrest
  | real x => exact value_real fuel x hrest
  | string s => exact value_string fuel s rest
  | array vs =>
    cases vs with
    | nil => rw [text]; rfl
    | cons v vs =>
      rw [toList_text_array, List.length_cons, List.length_append, List.length_singleton] at hfuel
      have hvalues := h.values [] v vs rest hj (by omega)
      have hopen : skipBlanks ('[' :: ((textValues none (v :: vs)).toList ++ ']' :: rest)) =
          '[' :: ((textValues none (v :: vs)).toList ++ ']' :: rest) := rfl
      rw [toList_text_array, List.cons_append, List.append_assoc, List.singleton_append,
        Reading.value, hopen]
      simp only
      split
      · next t hend => exact absurd hend (skipBlanks_ne_bracket hvalues t)
      · rw [hvalues]
        rfl
  | object ms =>
    cases ms with
    | nil => rw [text]; rfl
    | cons m ms =>
      rw [toList_text_object, List.length_cons, List.length_append, List.length_singleton] at hfuel
      rw [IsProper] at hj
      have hmembers := h.members [] m ms rest hj.1 hj.2 (by omega)
      have hopen : skipBlanks ('\x7b' :: ((textMembers none (m :: ms)).toList ++ '\x7d' :: rest)) =
          '\x7b' :: ((textMembers none (m :: ms)).toList ++ '\x7d' :: rest) := rfl
      rw [toList_text_object, List.cons_append, List.append_assoc, List.singleton_append,
        Reading.value, hopen]
      simp only
      split
      · next t hend => exact absurd hend (skipBlanks_ne_brace hmembers t)
      · rw [hmembers]
        rfl

theorem values_succ (h : ReadsBack fuel) (found : List Json) (v : Json) (vs : List Json)
    (rest : List Char) (hvs : AreProper (v :: vs))
    (hfuel : (textValues none (v :: vs)).toList.length + 1 < fuel + 1) :
    Reading.values (fuel + 1) found ((textValues none (v :: vs)).toList ++ ']' :: rest) =
      .ok (found.reverse ++ rereadValues (v :: vs), rest) := by
  rw [AreProper] at hvs
  cases vs with
  | nil =>
    have htext : (textValues none [v]).toList = (text none v).toList := by
      simp [textValues, newLine]
    rw [htext] at hfuel ⊢
    exact values_last (h.value v _ hvs.1 (by omega) (endsValue_cons (by decide) rest)) found
  | cons w vs =>
    rw [toList_textValues, List.length_append, List.length_cons] at hfuel
    rw [toList_textValues, List.append_assoc, List.cons_append,
      values_cons (h.value v _ hvs.1 (by omega) (endsValue_cons (by decide) _)) found,
      h.values (v.reread :: found) w vs rest hvs.2 (by omega), List.reverse_cons,
      List.append_assoc]
    rfl

theorem members_succ (h : ReadsBack fuel) (found : List (String × Json)) (m : String × Json)
    (ms : List (String × Json)) (rest : List Char)
    (hnames : ((found ++ m :: ms).map Prod.fst).Nodup) (hms : MembersAreProper (m :: ms))
    (hfuel : (textMembers none (m :: ms)).toList.length + 1 < fuel + 1) :
    Reading.members (fuel + 1) found ((textMembers none (m :: ms)).toList ++ '\x7d' :: rest) =
      .ok (found ++ rereadMembers (m :: ms), rest) := by
  obtain ⟨k, v⟩ := m
  rw [MembersAreProper] at hms
  have hnew : k ∉ found.map Prod.fst := by
    rw [List.map_append, List.map_cons] at hnames
    exact fun hk => (List.nodup_append.1 hnames).2.2 k hk k List.mem_cons_self rfl
  cases ms with
  | nil =>
    rw [toList_textMembers_singleton, List.length_append, List.length_cons] at hfuel
    rw [toList_textMembers_singleton, List.append_assoc, List.cons_append,
      members_last (h.value v _ hms.1 (by omega) (endsValue_cons (by decide) rest)) found,
      put_of_notMem hnew]
    rfl
  | cons m ms =>
    have hnames' : (((found ++ [(k, v.reread)]) ++ m :: ms).map Prod.fst).Nodup := by
      simpa using hnames
    rw [toList_textMembers, List.length_append, List.length_cons, List.length_append,
      List.length_cons] at hfuel
    rw [toList_textMembers, List.append_assoc, List.cons_append, List.append_assoc,
      List.cons_append,
      members_cons (h.value v _ hms.1 (by omega) (endsValue_cons (by decide) _)) found,
      put_of_notMem hnew, h.members _ m ms rest hnames' hms.2 (by omega), List.append_assoc]
    rfl

end ReadsBack

/-- **What is written on one line is read back**, by induction on the fuel. -/
theorem readsBack (fuel : ℕ) : ReadsBack fuel := by
  induction fuel with
  | zero =>
    exact ⟨fun _ _ _ hfuel _ => absurd hfuel (Nat.not_lt_zero _),
      fun _ _ _ _ _ hfuel => absurd hfuel (Nat.not_lt_zero _),
      fun _ _ _ _ _ _ hfuel => absurd hfuel (Nat.not_lt_zero _)⟩
  | succ fuel ih => exact ⟨ih.value_succ, ih.values_succ, ih.members_succ⟩

end Reading

/-! ### Whole texts -/

/-- Members with one more in its place have the same names as with it in front. -/
theorem perm_insertMember (k : String) (v : Json) (ms : List (String × Json)) :
    (insertMember k v ms).Perm ((k, v) :: ms) := by
  induction ms with
  | nil => exact .refl _
  | cons m ms ih =>
    obtain ⟨l, w⟩ := m
    rw [insertMember]
    split
    · exact .refl _
    · exact (ih.cons (l, w)).trans (.swap (k, v) (l, w) ms)

theorem membersAreProper_insertMember {k : String} {v : Json} {ms : List (String × Json)}
    (hv : v.IsProper) (hms : MembersAreProper ms) : MembersAreProper (insertMember k v ms) := by
  induction ms with
  | nil => exact ⟨hv, trivial⟩
  | cons m ms ih =>
    obtain ⟨l, w⟩ := m
    rw [insertMember]
    split
    · exact ⟨hv, hms⟩
    · exact ⟨hms.1, ih hms.2⟩

/-- Putting members in order changes nothing about their names. -/
theorem perm_names_orderedMembers (ms : List (String × Json)) :
    ((orderedMembers ms).map Prod.fst).Perm (ms.map Prod.fst) := by
  induction ms with
  | nil => exact .refl _
  | cons m ms ih =>
    obtain ⟨k, v⟩ := m
    exact ((perm_insertMember k v.ordered (orderedMembers ms)).map Prod.fst).trans (ih.cons k)

mutual

/-- Nor does it about what is written of the values. -/
theorem isProper_ordered : ∀ {j : Json}, j.IsProper → j.ordered.IsProper
  | .null, h | .bool _, h | .integer _, h | .real _, h | .string _, h => h
  | .array vs, h => @areProper_orderedValues vs h
  | .object ms, h => ⟨(perm_names_orderedMembers ms).nodup_iff.2 h.1,
      @membersAreProper_orderedMembers ms h.2⟩

theorem areProper_orderedValues : ∀ {vs : List Json}, AreProper vs → AreProper (orderedValues vs)
  | [], _ => trivial
  | _ :: _, h => ⟨isProper_ordered h.1, areProper_orderedValues h.2⟩

theorem membersAreProper_orderedMembers :
    ∀ {ms : List (String × Json)}, MembersAreProper ms → MembersAreProper (orderedMembers ms)
  | [], _ => trivial
  | (_, _) :: _, h => membersAreProper_insertMember (isProper_ordered h.1)
      (membersAreProper_orderedMembers h.2)

end

/-- **What is written on one line is read back**, with the members of objects in order. -/
theorem read_compact {j : Json} (hj : j.IsProper) :
    read j.compact.toList = .ok j.ordered.reread := by
  have hends : Reading.EndsValue [] := by
    intro c hc
    cases hc
  have hvalue := (Reading.readsBack (2 * j.compact.toList.length + 2)).value j.ordered []
    (isProper_ordered hj) (by rw [← compact]; omega) hends
  rw [List.append_nil] at hvalue
  change Reading.value _ j.compact.toList = _ at hvalue
  rw [read, Reading.whole, hvalue]
  rfl

/-! ### Members -/

/-- A member is found wherever it stands among members with other names. -/
theorem lookup_insertMember {k : String} {v : Json} {ms : List (String × Json)}
    (hk : k ∉ ms.map Prod.fst) (name : String) :
    lookup name (insertMember k v ms) = lookup name ((k, v) :: ms) := by
  induction ms with
  | nil => rfl
  | cons m ms ih =>
    obtain ⟨l, w⟩ := m
    rw [List.map_cons, List.mem_cons, not_or] at hk
    rw [insertMember]
    split
    · rfl
    · rw [lookup, ih hk.2, lookup, lookup, lookup]
      by_cases hl : l = name
      · rw [if_pos hl, if_pos hl, if_neg fun h => hk.1 (h.trans hl.symm)]
      · rw [if_neg hl, if_neg hl]

/-- **What is found under a name is read back.** -/
theorem lookup_reread_orderedMembers {ms : List (String × Json)}
    (hms : (ms.map Prod.fst).Nodup) (name : String) :
    lookup name (rereadMembers (orderedMembers ms)) =
      (lookup name ms).map fun v => v.ordered.reread := by
  have hreread (ms : List (String × Json)) :
      lookup name (rereadMembers ms) = (lookup name ms).map reread := by
    induction ms with
    | nil => rfl
    | cons m ms ih =>
      obtain ⟨k, v⟩ := m
      rw [rereadMembers, lookup, lookup, ih]
      split <;> rfl
  rw [hreread]
  induction ms with
  | nil => rfl
  | cons m ms ih =>
    obtain ⟨k, v⟩ := m
    rw [List.map_cons, List.nodup_cons] at hms
    have hk : k ∉ (orderedMembers ms).map Prod.fst := fun h =>
      hms.1 ((perm_names_orderedMembers ms).mem_iff.1 h)
    rw [orderedMembers, lookup_insertMember hk, lookup, lookup]
    split
    · rfl
    · exact ih hms.2

end Json

end IqTape
