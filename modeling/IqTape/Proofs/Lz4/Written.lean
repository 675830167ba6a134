import IqTape.Lz4.Decode

/-!
# Packed blocks and the plans they say

A packed block is the written form of a plan.  Whatever the reader takes for a block is
written so, and it rebuilds what the plan says.  The other way round, the format has rules
about where a copy may stand: it reaches back into what has been rebuilt, it starts
`matchMargin` bytes and ends `lastLiterals` bytes before the end.  A plan that keeps them is
read back from its written form, whoever has made it.

## Main definitions

* `Sequence.Allowed`, `Sequence.AllAllowed`, `Plan.IsValid` — the rules of the format.
* `Plan.size` — how many bytes a plan rebuilds.
* `Plan.IsSaidBy` — the written form of a plan; half a byte of it means nothing.
* `Lz4.bound` — the most bytes that a packed block takes.

## Main results

* `Lz4.decodeBlock_of_isSaidBy` — **a valid plan is read back**.
* `Lz4.exists_plan_of_decodeBlock` — **what is read is a plan**, of the right size.
* `Lz4.length_le_of_decodeBlock` — a packed block is hardly longer than what it rebuilds.
-/

namespace IqTape
namespace Lz4

/-! ### Sizes -/

/-- How many bytes a sequence rebuilds. -/
def Sequence.size (s : Sequence) : Nat := s.literals.length + s.length

/-- How many bytes some sequences rebuild. -/
def Sequence.sizes (ss : List Sequence) : Nat := (ss.map size).sum

/-- How many bytes a plan rebuilds. -/
def Plan.size (p : Plan) : Nat := Sequence.sizes p.sequences + p.final.length

@[simp] theorem Sequence.sizes_cons (s : Sequence) (ss : List Sequence) :
    sizes (s :: ss) = s.size + sizes ss := List.sum_cons

theorem Sequence.size_foldl_extend (ss : List Sequence) (out : Array UInt8) :
    (ss.foldl extend out).size = out.size + sizes ss := by
  induction ss generalizing out with
  | nil => rfl
  | cons s ss ih =>
    rw [List.foldl_cons, ih, size_extend, sizes_cons, Sequence.size]
    omega

@[simp] theorem Plan.length_expand (p : Plan) : p.expand.length = p.size := by
  rw [expand, appendAll_eq, Array.length_toList, Array.size_append,
    Sequence.size_foldl_extend, Array.size_empty, Nat.zero_add, List.size_toArray, size]

/-! ### Lengths -/

/-- The bytes of a long length, one after the other: a byte of 255 stands for as much, and any
other byte is the last. -/
theorem lengthTail_cases (m : Nat) :
    (∃ k, m = k + 255 ∧ lengthTail (15 + m) = 255 :: lengthTail (15 + k)) ∨
      ∃ b : UInt8, b ≠ 255 ∧ m = b.toNat ∧ lengthTail (15 + m) = [b] := by
  have htail (n : Nat) :
      lengthTail (15 + n) = List.replicate (n / 255) 255 ++ [UInt8.ofNat (n % 255)] := by
    rw [lengthTail, if_neg (by omega), Nat.add_sub_cancel_left]
  by_cases hm : 255 ≤ m
  · obtain ⟨k, rfl⟩ := Nat.exists_eq_add_of_le' hm
    have hdiv : (k + 255) / 255 = k / 255 + 1 := by omega
    have hmod : (k + 255) % 255 = k % 255 := by omega
    exact .inl ⟨k, rfl, by rw [htail, htail, hdiv, hmod, List.replicate_succ, List.cons_append]⟩
  · have hbyte : (UInt8.ofNat m).toNat = m := UInt8.toNat_ofNat_of_lt' (by
      simp only [UInt8.size]; omega)
    refine .inr ⟨UInt8.ofNat m, ?_, hbyte.symm, ?_⟩
    · intro heq
      rw [heq] at hbyte
      have h255 : (255 : UInt8).toNat = 255 := rfl
      omega
    · rw [htail, Nat.div_eq_of_lt (by omega), Nat.mod_eq_of_lt (by omega)]
      rfl

/-- The last byte of a long length is its whole tail. -/
theorem lengthTail_of_ne {b : UInt8} (h : b ≠ 255) : lengthTail (15 + b.toNat) = [b] := by
  rcases lengthTail_cases b.toNat with ⟨k, hk, -⟩ | ⟨b', -, hb, htail⟩
  · have hb := b.toNat_lt
    refine absurd (UInt8.toNat_inj.1 ?_) h
    have h255 : (255 : UInt8).toNat = 255 := rfl
    omega
  · rw [htail, UInt8.toNat_inj.1 hb]

/-- A longer tail starts with a byte of 255. -/
theorem lengthTail_add (m : Nat) : lengthTail (15 + (m + 255)) = 255 :: lengthTail (15 + m) := by
  rcases lengthTail_cases (m + 255) with ⟨k, hk, htail⟩ | ⟨b, hne, hb, -⟩
  · rw [htail, Nat.add_right_cancel hk]
  · have hlt := b.toNat_lt
    refine absurd (UInt8.toNat_inj.1 ?_) hne
    have h255 : (255 : UInt8).toNat = 255 := rfl
    omega

theorem lengthTail_of_lt {n : Nat} (h : n < 15) : lengthTail n = [] := if_pos h

/-- A tail has a byte for every 255, and never more bytes than its length says. -/
theorem length_lengthTail_le (n : Nat) :
    255 * (lengthTail n).length ≤ n + 240 ∧ (lengthTail n).length ≤ n := by
  unfold lengthTail
  split
  · exact ⟨Nat.zero_le _, Nat.zero_le _⟩
  · rw [List.length_append, List.length_replicate, List.length_singleton]
    omega

/-- **A long length is read as it is written**, if enough bytes are left behind it. -/
theorem readLength_lengthTail {keep total left m : Nat} {rest : Bytes}
    (hkeep : keep + (lengthTail (15 + m)).length ≤ left) :
    readLength keep total left (lengthTail (15 + m) ++ rest) =
      some (total + m, left - (lengthTail (15 + m)).length, rest) := by
  induction m using Nat.strongRecOn generalizing total left with
  | ind m ih =>
    rcases lengthTail_cases m with ⟨k, rfl, htail⟩ | ⟨b, hne, rfl, htail⟩
    · rw [htail, List.length_cons] at hkeep
      rw [htail, List.cons_append, readLength, if_neg (by omega), if_pos rfl,
        ih k (by omega) (by omega), List.length_cons, Nat.add_assoc, Nat.add_comm 255 k,
        Nat.sub_sub, Nat.add_comm 1]
    · rw [htail, List.length_singleton] at hkeep
      rw [htail, List.singleton_append, readLength, if_neg (by omega), if_neg hne,
        List.length_singleton]

/-- What is read as a long length is one. -/
theorem of_readLength {keep total left n left' : Nat} {src rest : Bytes}
    (h : readLength keep total left src = some (n, left', rest)) :
    ∃ m, n = total + m ∧ src = lengthTail (15 + m) ++ rest ∧
      left' = left - (lengthTail (15 + m)).length := by
  induction src generalizing total left with
  | nil => rw [readLength] at h; cases h
  | cons b src ih =>
    rw [readLength] at h
    split at h
    · cases h
    · split at h
      · next hb =>
        obtain ⟨m, rfl, rfl, rfl⟩ := ih h
        subst hb
        refine ⟨m + 255, by omega, ?_, ?_⟩
        · rw [lengthTail_add, List.cons_append]
        · rw [lengthTail_add, List.length_cons]
          omega
      · next hb =>
        cases h
        refine ⟨b.toNat, rfl, ?_, ?_⟩
        · rw [lengthTail_of_ne hb]
          rfl
        · rw [lengthTail_of_ne hb, List.length_singleton]

/-- **A length is read as it is written.** -/
theorem readTail_lengthTail {keep n left : Nat} {rest : Bytes}
    (hkeep : 15 ≤ n → keep + (lengthTail n).length ≤ left) :
    readTail keep (nibble n) left (lengthTail n ++ rest) =
      some (n, left - (lengthTail n).length, rest) := by
  unfold readTail nibble
  by_cases hn : 15 ≤ n
  · obtain ⟨m, rfl⟩ := Nat.exists_eq_add_of_le hn
    rw [if_pos (Nat.min_eq_right hn)]
    exact readLength_lengthTail (hkeep hn)
  · rw [if_neg (by omega), lengthTail_of_lt (by omega), Nat.min_eq_left (by omega)]
    rfl

/-- What is read as a length is one. -/
theorem of_readTail {keep half left n left' : Nat} {src rest : Bytes} (hhalf : half ≤ 15)
    (h : readTail keep half left src = some (n, left', rest)) :
    half = nibble n ∧ src = lengthTail n ++ rest ∧ left' = left - (lengthTail n).length := by
  unfold readTail at h
  split at h
  · next hlong =>
    obtain ⟨m, rfl, hsrc, hleft⟩ := of_readLength h
    refine ⟨?_, hsrc, hleft⟩
    rw [hlong, nibble, Nat.min_eq_right (by omega)]
  · cases h
    rw [lengthTail_of_lt (by omega), nibble, Nat.min_eq_left (by omega)]
    exact ⟨rfl, rfl, rfl⟩

/-! ### Tokens -/

theorem nibble_le (n : Nat) : nibble n ≤ 15 := Nat.min_le_right _ _

theorem toNat_token (literals extra : Nat) :
    (token literals extra).toNat = 16 * nibble literals + nibble extra := by
  have h1 := nibble_le literals
  have h2 := nibble_le extra
  refine UInt8.toNat_ofNat_of_lt' ?_
  simp only [UInt8.size]
  omega

/-- The two halves of a token. -/
theorem token_div (literals extra : Nat) : (token literals extra).toNat / 16 = nibble literals := by
  have h := nibble_le extra
  rw [toNat_token]
  omega

theorem token_mod (literals extra : Nat) : (token literals extra).toNat % 16 = nibble extra := by
  have h := nibble_le extra
  rw [toNat_token]
  omega

/-- A byte is the token of its halves. -/
theorem eq_token {t : UInt8} {literals extra : Nat} (h1 : t.toNat / 16 = nibble literals)
    (h2 : t.toNat % 16 = nibble extra) : t = token literals extra := by
  refine UInt8.toNat_inj.1 ?_
  rw [toNat_token, ← h1, ← h2]
  omega

theorem nibble_of_lt {n : Nat} (h : n < 15) : nibble n = n := Nat.min_eq_left (Nat.le_of_lt h)

/-! ### The rules of the format -/

/-- Whether a sequence may stand where `made` of `size` bytes have been rebuilt. -/
structure Sequence.Allowed (size made : Nat) (s : Sequence) : Prop where
  /-- The copy is not too short to be written. -/
  long : minMatch ≤ s.length
  /-- It copies what has been rebuilt. -/
  behind : 0 < s.distance ∧ s.distance ≤ made + s.literals.length
  /-- Its distance can be written. -/
  near : s.distance ≤ maxDistance
  /-- It starts far enough from the end. -/
  starts : made + s.literals.length + matchMargin ≤ size
  /-- The last bytes are left to literals. -/
  ends : made + s.size + lastLiterals ≤ size

/-- Whether each of some sequences may stand where it does. -/
def Sequence.AllAllowed (size : Nat) : Nat → List Sequence → Prop
  | _, [] => True
  | made, s :: ss => s.Allowed size made ∧ AllAllowed size (made + s.size) ss

/-- Whether a plan keeps the rules of the format. -/
def Plan.IsValid (p : Plan) : Prop := Sequence.AllAllowed p.size 0 p.sequences

instance (size made : Nat) (s : Sequence) : Decidable (s.Allowed size made) :=
  decidable_of_iff
    (minMatch ≤ s.length ∧ (0 < s.distance ∧ s.distance ≤ made + s.literals.length) ∧
      s.distance ≤ maxDistance ∧ made + s.literals.length + matchMargin ≤ size ∧
      made + s.size + lastLiterals ≤ size)
    ⟨fun h => ⟨h.1, h.2.1, h.2.2.1, h.2.2.2.1, h.2.2.2.2⟩,
      fun h => ⟨h.long, h.behind, h.near, h.starts, h.ends⟩⟩

instance Sequence.decidableAllAllowed (size : Nat) :
    (made : Nat) → (ss : List Sequence) → Decidable (AllAllowed size made ss)
  | _, [] => inferInstanceAs (Decidable True)
  | made, s :: ss =>
    have := decidableAllAllowed size (made + s.size) ss
    inferInstanceAs (Decidable (_ ∧ _))

instance (p : Plan) : Decidable p.IsValid := Sequence.decidableAllAllowed p.size 0 p.sequences

/-! ### Reading what is written -/

variable {size made left : Nat} {s : Sequence} {rest : Bytes}

theorem readCopy_written {roomy : Bool} (hlong : minMatch ≤ s.length) (hbehind : s.distance ≤ made)
    (hnear : s.distance ≤ maxDistance) (hends : made + s.length + lastLiterals ≤ size)
    (hleft : left = 2 + ((lengthTail (s.length - minMatch)).length + rest.length))
    (hrest : copyReserve ≤ rest.length) :
    readCopy size made (nibble (s.length - minMatch)) roomy s.literals left
        (ByteOrder.little.encode 2 s.distance ++ (lengthTail (s.length - minMatch) ++ rest)) =
      some (.sequence s rest.length rest) := by
  have htwo : (ByteOrder.little.encode 2 s.distance).length = 2 := ByteOrder.length_encode _ _ _
  have hdistance : ByteOrder.little.decode (ByteOrder.little.encode 2 s.distance) = s.distance := by
    rw [ByteOrder.decode_encode]
    refine Nat.mod_eq_of_lt ?_
    simp only [maxDistance] at hnear
    omega
  have hafter : left - 2 - (lengthTail (s.length - minMatch)).length = rest.length := by omega
  unfold readCopy
  simp only
  rw [List.take_left' htwo, List.drop_left' htwo, hdistance,
    readTail_lengthTail (by omega), hafter]
  simp only
  rw [Nat.sub_add_cancel hlong, if_neg (by omega)]
  split
  · rfl
  · rw [if_neg (by omega)]

/-- **A sequence is read as it is written**, where it may stand and something follows it. -/
theorem readStep_encode (hs : s.Allowed size made) (hrest : lastLiterals < rest.length)
    (hleft : left = (s.encode ++ rest).length) :
    readStep size made left (s.encode ++ rest) = some (.sequence s rest.length rest) := by
  obtain ⟨hlong, ⟨-, hbehind⟩, hnear, hstarts, hends⟩ := hs
  have htwo : (ByteOrder.little.encode 2 s.distance).length = 2 := ByteOrder.length_encode _ _ _
  simp only [Sequence.encode, List.cons_append, List.append_assoc, List.length_cons,
    List.length_append, htwo] at hleft ⊢
  simp only [Sequence.size] at hends
  simp only [lastLiterals, matchMargin] at hrest hends hstarts
  have hcopy (roomy : Bool) :
      readCopy size (made + s.literals.length) (nibble (s.length - minMatch)) roomy s.literals
          (left - 1 - (lengthTail s.literals.length).length - s.literals.length)
          (ByteOrder.little.encode 2 s.distance ++ (lengthTail (s.length - minMatch) ++ rest)) =
        some (.sequence s rest.length rest) :=
    readCopy_written hlong hbehind hnear (by simp only [lastLiterals]; omega) (by omega)
      (by simp only [copyReserve]; omega)
  rw [readStep]
  simp only [token_div, token_mod]
  split
  · next hroomy =>
    -- A short run has no tail.
    have hshort : s.literals.length < 15 := by
      have hrun := hroomy.1
      unfold nibble at hrun
      omega
    have htail := lengthTail_of_lt hshort
    rw [htail, List.length_nil, Nat.sub_zero] at hcopy
    rw [nibble_of_lt hshort, htail, List.nil_append, List.take_left' rfl, List.drop_left' rfl]
    exact hcopy true
  · rw [readTail_lengthTail (by simp only [literalReserve]; omega)]
    simp only
    rw [if_neg (by simp only [matchMargin]; omega), List.take_left' rfl, List.drop_left' rfl]
    exact hcopy false

/-- The last literals are read as they are written, whatever the other half of the token says. -/
theorem readStep_final {t : UInt8} {bs : Bytes} (ht : t.toNat / 16 = nibble bs.length)
    (hsize : made + bs.length ≤ size)
    (hleft : left = (t :: (lengthTail bs.length ++ bs)).length) :
    readStep size made left (t :: (lengthTail bs.length ++ bs)) = some (.final bs) := by
  rw [List.length_cons, List.length_append] at hleft
  rw [readStep]
  simp only [ht]
  rw [if_neg ?_, readTail_lengthTail (by simp only [literalReserve]; omega)]
  · simp only
    rw [if_pos (by omega), if_pos (by omega)]
  · -- Too few bytes are left for a roomy sequence.
    rintro ⟨hrun, hroom, -⟩
    unfold nibble at hrun
    rw [lengthTail_of_lt (by omega), List.length_nil] at hleft
    omega

/-- What is read as a copy is written so. -/
theorem of_readCopy {half : Nat} {roomy : Bool} {literals src : Bytes} {step : Step}
    (hhalf : half ≤ 15) (hleft : left = src.length) (htwo : 2 ≤ src.length)
    (h : readCopy size made half roomy literals left src = some step) :
    ∃ s rest, step = .sequence s rest.length rest ∧ s.literals = literals ∧ minMatch ≤ s.length ∧
      half = nibble (s.length - minMatch) ∧
      src = ByteOrder.little.encode 2 s.distance ++ (lengthTail (s.length - minMatch) ++ rest) := by
  unfold readCopy at h
  simp only at h
  split at h
  · cases h
  · next extra left' rest htail =>
    obtain ⟨hnibble, hdrop, hrest⟩ := of_readTail hhalf htail
    have hstep : step = .sequence ⟨literals, ByteOrder.little.decode (src.take 2),
        extra + minMatch⟩ left' rest := by
      split at h
      · cases h
      · split at h
        · cases h; rfl
        · split at h
          · cases h
          · cases h; rfl
    have hlength : left' = rest.length := by
      have hlen := congrArg List.length hdrop
      rw [List.length_drop, List.length_append] at hlen
      omega
    have hdistance : ByteOrder.little.encode 2 (ByteOrder.little.decode (src.take 2)) =
        src.take 2 := by
      have hback := ByteOrder.encode_decode .little (src.take 2)
      rwa [List.length_take, Nat.min_eq_left htwo] at hback
    refine ⟨_, rest, by rw [hstep, hlength], rfl, Nat.le_add_left _ _, ?_, ?_⟩
    · rw [Nat.add_sub_cancel]
      exact hnibble
    · rw [hdistance, Nat.add_sub_cancel, ← hdrop, List.take_append_drop]

/-- **What is read as a step is written so**, but for half of the token of the last literals. -/
theorem of_readStep {src : Bytes} {step : Step} (hleft : left = src.length)
    (h : readStep size made left src = some step) :
    (∃ s rest, step = .sequence s rest.length rest ∧ minMatch ≤ s.length ∧
      src = s.encode ++ rest) ∨
    ∃ t bs, step = .final bs ∧ t.toNat / 16 = nibble bs.length ∧
      src = t :: (lengthTail bs.length ++ bs) := by
  cases src with
  | nil => rw [readStep] at h; cases h
  | cons t src =>
    have ht := t.toNat_lt
    rw [List.length_cons] at hleft
    rw [readStep] at h
    -- Behind a run of literals both branches read a copy in the same way.
    have hcopied {run : Nat} {src' : Bytes} {roomy : Bool} (hrun : t.toNat / 16 = nibble run)
        (htail : src = lengthTail run ++ src') (hlong : run + 2 ≤ src'.length)
        (h : readCopy size (made + run) (t.toNat % 16) roomy (src'.take run)
          (src'.length - run) (src'.drop run) = some step) :
        ∃ s rest, step = .sequence s rest.length rest ∧ minMatch ≤ s.length ∧
          t :: src = s.encode ++ rest := by
      obtain ⟨s, rest, hstep, hliterals, hmin, hnibble, hsrc⟩ :=
        of_readCopy (by omega) (List.length_drop).symm (by rw [List.length_drop]; omega) h
      have hlength : s.literals.length = run := by
        rw [hliterals, List.length_take, Nat.min_eq_left (by omega)]
      refine ⟨s, rest, hstep, hmin, ?_⟩
      rw [Sequence.encode, hlength, eq_token hrun hnibble, List.cons_append, List.append_assoc,
        List.append_assoc, List.append_assoc, ← hsrc, hliterals, List.take_append_drop, ← htail]
    split at h
    · next hroomy =>
      have hshort : t.toNat / 16 < 15 := hroomy.1
      rw [hleft, Nat.add_sub_cancel] at h
      refine .inl (hcopied (nibble_of_lt hshort).symm ?_ (by omega) h)
      rw [lengthTail_of_lt hshort, List.nil_append]
    · split at h
      · cases h
      · next run left' src' htail =>
        obtain ⟨hnibble, hsrc, hleft'⟩ := of_readTail (by omega) htail
        have hlength : left' = src'.length := by
          rw [hleft', hleft, hsrc, List.length_append]
          omega
        rw [hlength] at h
        split at h
        · split at h
          · next hend =>
            cases h
            rw [← hend.1] at hnibble hsrc
            exact .inr ⟨t, src', rfl, hnibble, by rw [hsrc]⟩
          · cases h
        · exact .inl (hcopied hnibble hsrc (by omega) h)

/-! ### Blocks -/

/-- Whether a block says a plan: it is the plan's written form, except that one half of the last
token means nothing. -/
def Plan.IsSaidBy (p : Plan) (block : Bytes) : Prop :=
  ∃ t : UInt8, t.toNat / 16 = nibble p.final.length ∧
    block = p.sequences.flatMap Sequence.encode ++ t :: (lengthTail p.final.length ++ p.final)

theorem Plan.isSaidBy_encode (p : Plan) : p.IsSaidBy p.encode :=
  ⟨token p.final.length 0, token_div _ _, rfl⟩

/-- Behind a copy that ends early enough there are enough bytes left to read. -/
theorem Sequence.AllAllowed.length_lt {ss : List Sequence} {n : Nat}
    (h : AllAllowed size made ss) (hsize : made + sizes ss + n = size)
    (hmade : made + lastLiterals ≤ size) :
    lastLiterals < (ss.flatMap encode).length + (1 + n) := by
  induction ss generalizing made with
  | nil =>
    have hzero : sizes [] = 0 := rfl
    rw [List.flatMap_nil, List.length_nil]
    omega
  | cons s ss ih =>
    rw [sizes_cons] at hsize
    have hrest := ih h.2 (by omega) h.1.ends
    rw [List.flatMap_cons, List.length_append]
    omega

theorem readSteps_said {ss found : List Sequence} {t : UInt8} {bs : Bytes} {fuel : Nat}
    (hs : Sequence.AllAllowed size made ss) (ht : t.toNat / 16 = nibble bs.length)
    (hsize : made + Sequence.sizes ss + bs.length = size) (hfuel : ss.length < fuel)
    (hleft : left = (ss.flatMap Sequence.encode ++ t :: (lengthTail bs.length ++ bs)).length) :
    readSteps size fuel made left
        (ss.flatMap Sequence.encode ++ t :: (lengthTail bs.length ++ bs)) found =
      some (size, ⟨found.reverse ++ ss, bs⟩) := by
  induction ss generalizing made left found fuel with
  | nil =>
    obtain ⟨fuel, rfl⟩ := Nat.exists_eq_add_of_lt hfuel
    have hzero : Sequence.sizes [] = 0 := rfl
    rw [readSteps, List.flatMap_nil, List.nil_append,
      readStep_final ht (by omega) (by rw [hleft]; rfl), List.append_nil]
    simp only
    rw [← hsize, hzero, Nat.add_zero]
  | cons s ss ih =>
    obtain ⟨fuel, rfl⟩ := Nat.exists_eq_add_of_lt hfuel
    rw [Sequence.sizes_cons] at hsize
    have hrest : lastLiterals <
        (ss.flatMap Sequence.encode ++ t :: (lengthTail bs.length ++ bs)).length := by
      have henough := hs.2.length_lt (n := bs.length) (by omega) hs.1.ends
      rw [List.length_append, List.length_cons, List.length_append]
      omega
    rw [List.flatMap_cons, List.append_assoc] at hleft ⊢
    rw [readSteps, readStep_encode hs.1 hrest hleft]
    simp only
    rw [Nat.add_assoc made, ← Sequence.size,
      ih hs.2 (by omega) (by rw [List.length_cons]; omega) rfl, List.reverse_cons,
      List.append_assoc, List.singleton_append]

/-- **A block that says a valid plan is read**, and rebuilds what the plan says. -/
theorem decodeBlock_of_isSaidBy {p : Plan} {block : Bytes} (hp : p.IsValid)
    (hsaid : p.IsSaidBy block) : decodeBlock p.size block = some p.expand := by
  obtain ⟨t, ht, rfl⟩ := hsaid
  have hfuel : p.sequences.length < (p.sequences.flatMap Sequence.encode ++
      t :: (lengthTail p.final.length ++ p.final)).length := by
    -- Each sequence is written with a token.
    have hone (ss : List Sequence) : ss.length ≤ (ss.flatMap Sequence.encode).length := by
      induction ss with
      | nil => exact Nat.le_refl _
      | cons s ss ih =>
        rw [List.flatMap_cons, List.length_append, List.length_cons, Sequence.encode,
          List.length_cons]
        omega
    have hsequences := hone p.sequences
    rw [List.length_append, List.length_cons]
    omega
  have hsize : 0 + Sequence.sizes p.sequences + p.final.length = p.size := by
    rw [Nat.zero_add, Plan.size]
  unfold decodeBlock Plan.ofBlock?
  rw [readSteps_said hp ht hsize hfuel rfl]
  exact congrArg (Option.map Plan.expand) (if_pos rfl)

/-- **What is read step by step is a plan.** -/
theorem of_readSteps {fuel made' : Nat} {src : Bytes} {found : List Sequence} {p : Plan}
    (hleft : left = src.length)
    (h : readSteps size fuel made left src found = some (made', p)) :
    ∃ ss t, p.sequences = found.reverse ++ ss ∧ (∀ s ∈ ss, minMatch ≤ s.length) ∧
      made' = made + Sequence.sizes ss + p.final.length ∧
      t.toNat / 16 = nibble p.final.length ∧
      src = ss.flatMap Sequence.encode ++ t :: (lengthTail p.final.length ++ p.final) := by
  induction fuel generalizing made left src found with
  | zero => rw [readSteps] at h; cases h
  | succ fuel ih =>
    rw [readSteps] at h
    split at h
    · cases h
    · next literals hstep =>
      cases h
      rcases of_readStep hleft hstep with ⟨_, _, hother, -, -⟩ | ⟨t, bs, hfinal, ht, hsrc⟩
      · cases hother
      · cases hfinal
        exact ⟨[], t, (List.append_nil _).symm, List.forall_mem_nil _, rfl, ht, hsrc⟩
    · next s left' rest hstep =>
      rcases of_readStep hleft hstep with ⟨_, _, hsame, hmin, hsrc⟩ | ⟨_, _, hother, -, -⟩
      · cases hsame
        obtain ⟨ss, t, hsequences, hlong, hmade, ht, hrest⟩ := ih rfl h
        refine ⟨s :: ss, t, ?_, List.forall_mem_cons.2 ⟨hmin, hlong⟩, ?_, ht, ?_⟩
        · rw [hsequences, List.reverse_cons, List.append_assoc]
          rfl
        · rw [hmade, Sequence.sizes_cons, Sequence.size]
          omega
        · rw [hsrc, hrest, List.flatMap_cons, List.append_assoc]
      · cases hother

/-- **What is read is a plan**, and rebuilds as many bytes as it should. -/
theorem exists_plan_of_decodeBlock {block raw : Bytes} (h : decodeBlock size block = some raw) :
    ∃ p : Plan, p.IsSaidBy block ∧ (∀ s ∈ p.sequences, minMatch ≤ s.length) ∧
      p.size = size ∧ p.expand = raw := by
  unfold decodeBlock Plan.ofBlock? at h
  split at h
  · next made p hsteps =>
    obtain ⟨ss, t, hsequences, hlong, hmade, ht, hblock⟩ := of_readSteps rfl hsteps
    rw [List.reverse_nil, List.nil_append] at hsequences
    subst hsequences
    split at h
    · next hsize =>
      cases h
      refine ⟨p, ⟨t, ht, hblock⟩, hlong, ?_, rfl⟩
      rw [← hsize, hmade, Nat.zero_add, Plan.size]
    · cases h
  · cases h

theorem length_of_decodeBlock {block raw : Bytes} (h : decodeBlock size block = some raw) :
    raw.length = size := by
  obtain ⟨p, -, -, hsize, rfl⟩ := exists_plan_of_decodeBlock h
  rw [Plan.length_expand, hsize]

/-! ### How long a block is -/

/-- So many bytes are enough for a packed block that rebuilds `n` bytes. -/
def bound (n : Nat) : Nat := n + n / 255 + 16

theorem Sequence.length_encode_le (hlong : minMatch ≤ s.length) :
    255 * s.encode.length ≤ 256 * s.size := by
  obtain ⟨hrun, -⟩ := length_lengthTail_le s.literals.length
  obtain ⟨-, hcopy⟩ := length_lengthTail_le (s.length - minMatch)
  simp only [encode, List.length_cons, List.length_append, ByteOrder.length_encode, size]
  simp only [minMatch] at hlong hcopy ⊢
  omega

/-- **A block is hardly longer than what it rebuilds.** -/
theorem Plan.IsSaidBy.length_le {p : Plan} {block : Bytes} (hsaid : p.IsSaidBy block)
    (hlong : ∀ s ∈ p.sequences, minMatch ≤ s.length) : block.length ≤ bound p.size := by
  obtain ⟨t, -, rfl⟩ := hsaid
  have hsequences (ss : List Sequence) (hlong : ∀ s ∈ ss, minMatch ≤ s.length) :
      255 * (ss.flatMap Sequence.encode).length ≤ 256 * Sequence.sizes ss := by
    induction ss with
    | nil => exact Nat.zero_le _
    | cons s ss ih =>
      have hs := Sequence.length_encode_le (hlong s List.mem_cons_self)
      have hss := ih fun s' hs' => hlong s' (List.mem_cons_of_mem _ hs')
      rw [List.flatMap_cons, List.length_append, Sequence.sizes_cons]
      omega
  have hcopies := hsequences p.sequences hlong
  obtain ⟨htail, -⟩ := length_lengthTail_le p.final.length
  rw [List.length_append, List.length_cons, List.length_append, Plan.size, bound]
  omega

theorem length_le_of_decodeBlock {block raw : Bytes} (h : decodeBlock size block = some raw) :
    block.length ≤ bound size := by
  obtain ⟨p, hsaid, hlong, rfl, -⟩ := exists_plan_of_decodeBlock h
  exact hsaid.length_le hlong

end Lz4
end IqTape
