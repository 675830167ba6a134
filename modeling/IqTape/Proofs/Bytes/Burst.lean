import IqTape.Bytes.Checksum

/-!
# The checksum finds every short burst

A shift of the register can be taken back, so two registers that differ still differ after the
same bytes.  And four bytes are no wider than the register: what they do to it is to feed in, by
exclusive or, the word that they make up.  So two strings of any length that differ only within
four neighbouring bytes have different checksums.

## Main definitions

* `Crc.shifts` — so many places to the right.
* `Bytes.DiffersWithin` — two strings are as long as one another, and differ only in one place.

## Main results

* `Crc.run_injective` — the register before some bytes is known from the one after them.
* `Crc.run_eq_shifts` — up to four bytes are fed in as one word.
* `crc32_ne_of_burst` — **a burst of up to four bytes changes the checksum**.
-/

namespace IqTape

namespace Crc

/-- So many places to the right. -/
def shifts : Nat → UInt32 → UInt32
  | 0, c => c
  | n + 1, c => shifts n (shift c)

theorem absorb_eq (c : UInt32) (b : UInt8) : absorb c b = shifts 8 (c ^^^ b.toUInt32) := rfl

theorem shifts_add (m n : Nat) (c : UInt32) : shifts (m + n) c = shifts n (shifts m c) := by
  induction m generalizing c with
  | zero => rw [Nat.zero_add, shifts]
  | succ m ih => rw [Nat.add_right_comm, shifts, ih, shifts]

theorem shifts_xor (n : Nat) (c d : UInt32) : shifts n (c ^^^ d) = shifts n c ^^^ shifts n d := by
  induction n generalizing c d with
  | zero => rfl
  | succ n ih => rw [shifts, shift_xor, ih, shifts, shifts]

/-! ### A shift can be taken back -/

/-- Only from zero does a shift lead to zero: the polynomial has its top bit, which nothing that
moves to the right has. -/
theorem eq_zero_of_shift {c : UInt32} (h : shift c = 0) : c = 0 := by
  have hhalf : (c >>> 1).toNat = c.toNat / 2 := by
    rw [UInt32.toNat_shiftRight]
    rfl
  have hlt := c.toNat_lt
  rcases Nat.mod_two_eq_zero_or_one c.toNat with heven | hodd
  · rw [shift_of_even heven] at h
    rw [h, UInt32.toNat_zero] at hhalf
    rw [← UInt32.toNat_inj, UInt32.toNat_zero]
    omega
  · rw [shift_of_odd hodd, UInt32.xor_eq_zero_iff] at h
    rw [h] at hhalf
    have htop : polynomial.toNat = 0xEDB88320 := rfl
    omega

theorem shift_injective : Function.Injective shift := by
  intro c d h
  rw [← UInt32.xor_eq_zero_iff] at h ⊢
  rw [← shift_xor] at h
  exact eq_zero_of_shift h

theorem shifts_injective (n : Nat) : Function.Injective (shifts n) := by
  induction n with
  | zero => exact fun _ _ h => h
  | succ n ih => exact fun _ _ h => shift_injective (ih h)

/-- **Two registers that differ still differ after the same bytes.** -/
theorem run_injective (bs : Bytes) : Function.Injective fun c => run c bs := by
  induction bs with
  | nil => exact fun _ _ h => h
  | cons b bs ih =>
    intro c d h
    have habsorb : absorb c b = absorb d b := ih h
    rw [absorb_eq, absorb_eq] at habsorb
    exact (UInt32.xor_left_inj _).1 (shifts_injective 8 habsorb)

/-! ### Four bytes make up a word -/

/-- A word that ends in zeros only moves to the right. -/
theorem shifts_mul (k : Nat) {n : Nat} (h : 2 ^ k * n < 2 ^ 32) :
    shifts k (.ofNat (2 ^ k * n)) = .ofNat n := by
  induction k with
  | zero => rw [Nat.pow_zero, Nat.one_mul, shifts]
  | succ k ih =>
    rw [Nat.pow_succ, Nat.mul_right_comm] at h ⊢
    have hword : (UInt32.ofNat (2 ^ k * n * 2)).toNat = 2 ^ k * n * 2 := Nat.mod_eq_of_lt h
    have hmove : shift (.ofNat (2 ^ k * n * 2)) = .ofNat (2 ^ k * n) := by
      rw [shift_of_even (by rw [hword, Nat.mul_mod_left]), ← UInt32.toNat_inj,
        UInt32.toNat_shiftRight, hword]
      refine (Nat.mul_div_cancel _ (by decide) : 2 ^ k * n * 2 / 2 = _).trans ?_
      exact (Nat.mod_eq_of_lt (by omega)).symm
    rw [shifts, hmove, ih (by omega)]

/-- A byte stands below a word that has been moved up by eight places. -/
theorem ofNat_add_mul (b : UInt8) (n : Nat) :
    UInt32.ofNat (b.toNat + 256 * n) = b.toUInt32 ^^^ .ofNat (256 * n) := by
  have hb : b.toNat < 2 ^ 8 := b.toNat_lt
  have hxor : b.toNat + 256 * n = b.toNat ^^^ 256 * n := by
    refine Nat.eq_of_testBit_eq fun i => ?_
    rw [Nat.add_comm, show 256 * n = 2 ^ 8 * n from rfl, Nat.testBit_two_pow_mul_add n hb,
      Nat.testBit_xor, Nat.testBit_two_pow_mul]
    by_cases hi : i < 8
    · simp [hi, Nat.not_le.2 hi]
    · have hclear : b.toNat.testBit i = false :=
        Nat.testBit_lt_two_pow (Nat.lt_of_lt_of_le hb (Nat.pow_le_pow_right (by decide) (by omega)))
      simp [hi, Nat.not_lt.1 hi, hclear]
  rw [hxor, UInt32.ofNat_xor, UInt32.ofNat_uInt8ToNat]

/-- **Up to four bytes are fed into the register as one word.** -/
theorem run_eq_shifts {bs : Bytes} (h : bs.length ≤ 4) (c : UInt32) :
    run c bs = shifts (8 * bs.length) (c ^^^ .ofNat (ByteOrder.ofLowFirst bs)) := by
  induction bs generalizing c with
  | nil => exact (UInt32.xor_zero (a := c)).symm
  | cons b bs ih =>
    rw [List.length_cons] at h
    have hmove : shifts 8 (.ofNat (256 * ByteOrder.ofLowFirst bs)) =
        .ofNat (ByteOrder.ofLowFirst bs) := by
      have hbound := ByteOrder.ofLowFirst_lt bs
      have hwidth : 256 ^ bs.length ≤ 256 ^ 3 := Nat.pow_le_pow_right (by decide) (by omega)
      exact shifts_mul 8 (by omega)
    calc run c (b :: bs)
        = shifts (8 * bs.length)
            (shifts 8 (c ^^^ b.toUInt32) ^^^ .ofNat (ByteOrder.ofLowFirst bs)) := by
          rw [run_cons, ih (by omega), absorb_eq]
      _ = shifts (8 * bs.length)
            (shifts 8 (c ^^^ b.toUInt32 ^^^ .ofNat (256 * ByteOrder.ofLowFirst bs))) := by
          rw [← hmove, ← shifts_xor 8]
      _ = shifts (8 * (b :: bs).length) (c ^^^ .ofNat (ByteOrder.ofLowFirst (b :: bs))) := by
          rw [← shifts_add, UInt32.xor_assoc, ← ofNat_add_mul, ByteOrder.ofLowFirst,
            List.length_cons, Nat.mul_succ, Nat.add_comm]

/-- Up to four bytes are known from what they do to the register. -/
theorem eq_of_run_eq {as bs : Bytes} (hlen : as.length = bs.length) (hfour : as.length ≤ 4)
    {c : UInt32} (h : run c as = run c bs) : as = bs := by
  rw [run_eq_shifts hfour, run_eq_shifts (hlen ▸ hfour), hlen] at h
  have hwords := (UInt32.xor_right_inj _).1 (shifts_injective _ h)
  -- Neither word is too wide for the register, so the bytes can be read off it.
  have hfits {cs : Bytes} (hcs : cs.length ≤ 4) : ByteOrder.ofLowFirst cs < 2 ^ 32 :=
    Nat.lt_of_lt_of_le (ByteOrder.ofLowFirst_lt cs) (Nat.pow_le_pow_right (by decide) hcs)
  have hnumbers : ByteOrder.ofLowFirst as = ByteOrder.ofLowFirst bs := by
    rw [← UInt32.toNat_inj] at hwords
    simpa [Nat.mod_eq_of_lt (hfits hfour), Nat.mod_eq_of_lt (hfits (hlen ▸ hfour))] using hwords
  rw [← ByteOrder.lowFirst_ofLowFirst as, hlen, hnumbers, ByteOrder.lowFirst_ofLowFirst]

end Crc

/-! ### Bursts -/

namespace Bytes

/-- Two strings are as long as one another and not the same, but all that differs between them
are some of the `width` bytes from `place` on. -/
structure DiffersWithin (as bs : Bytes) (place width : Nat) : Prop where
  length : bs.length = as.length
  ne : bs ≠ as
  same : ∀ i, i < place ∨ place + width ≤ i → bs[i]? = as[i]?

namespace DiffersWithin

variable {as bs : Bytes} {place width k : Nat}

theorem take_eq (h : as.DiffersWithin bs place width) (hk : k ≤ place) : bs.take k = as.take k := by
  refine List.ext_getElem? fun i => ?_
  rw [List.getElem?_take, List.getElem?_take]
  split
  · next hi => exact h.same i (.inl (by omega))
  · rfl

theorem drop_eq (h : as.DiffersWithin bs place width) (hk : place + width ≤ k) :
    bs.drop k = as.drop k := by
  refine List.ext_getElem? fun i => ?_
  rw [List.getElem?_drop, List.getElem?_drop]
  exact h.same _ (.inr (by omega))

/-- A string is what stands in front of a field, the field, and what stands behind it. -/
theorem cut (cs : Bytes) (start n : Nat) :
    cs = cs.take start ++ (slice cs start n ++ cs.drop (start + n)) := by
  rw [slice, ← List.drop_drop, List.take_append_drop, List.take_append_drop]

theorem length_slice_eq (h : as.DiffersWithin bs place width) (start n : Nat) :
    (slice bs start n).length = (slice as start n).length := by
  rw [slice, slice, List.length_take, List.length_take, List.length_drop, List.length_drop,
    h.length]

/-- What differs within a middle part leaves the parts around it as they are. -/
theorem middle {front mid back : Bytes}
    (h : DiffersWithin (front ++ (mid ++ back)) bs place width) (hfrom : front.length ≤ place)
    (hto : place + width ≤ front.length + mid.length) :
    ∃ altered, bs = front ++ (altered ++ back) ∧
      DiffersWithin mid altered (place - front.length) width := by
  have hfront : bs.take front.length = front := by
    rw [h.take_eq hfrom, List.take_left]
  have hback : bs.drop (front.length + mid.length) = back := by
    rw [h.drop_eq hto, ← List.append_assoc, List.drop_left' List.length_append]
  have hbs := cut bs front.length mid.length
  rw [hfront, hback] at hbs
  refine ⟨slice bs front.length mid.length, hbs, ?_, ?_, ?_⟩
  · have hlen := congrArg List.length hbs
    rw [h.length] at hlen
    simp only [List.length_append] at hlen
    omega
  · intro hsame
    rw [hsame] at hbs
    exact h.ne hbs
  · intro i hi
    have hthere := h.same (front.length + i) (by omega)
    rw [← List.getElem?_drop, ← List.getElem?_drop, List.drop_left] at hthere
    rw [slice, List.getElem?_take]
    split
    · next hlt => rw [hthere, List.getElem?_append_left hlt]
    · next hge => exact (List.getElem?_eq_none (Nat.not_lt.1 hge)).symm

end DiffersWithin

end Bytes

/-- **A burst of up to four bytes changes the checksum**, wherever it is. -/
theorem crc32_ne_of_burst {as bs : Bytes} {place : Nat} (h : as.DiffersWithin bs place 4) :
    crc32 bs ≠ crc32 as := by
  have hlen := h.length_slice_eq place 4
  have hfour : (as.slice place 4).length ≤ 4 := List.length_take_le _ _
  have has := Bytes.DiffersWithin.cut as place 4
  have hbs := Bytes.DiffersWithin.cut bs place 4
  rw [h.take_eq (Nat.le_refl _), h.drop_eq (Nat.le_refl _)] at hbs
  intro hcrc
  have hparts : crc32 (as.take place ++ (bs.slice place 4 ++ as.drop (place + 4))) =
      crc32 (as.take place ++ (as.slice place 4 ++ as.drop (place + 4))) := by
    rw [← hbs, ← has, hcrc]
  -- Behind the burst the registers are the same, so they were already when it was over.
  rw [crc32, crc32, UInt32.not_inj, Crc.run_append, Crc.run_append, Crc.run_append,
    Crc.run_append] at hparts
  have hburst := Crc.eq_of_run_eq hlen (hlen ▸ hfour) (Crc.run_injective _ hparts)
  rw [hburst] at hbs
  exact h.ne (hbs.trans has.symm)

end IqTape
