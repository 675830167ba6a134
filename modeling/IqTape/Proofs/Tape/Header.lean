import IqTape.Proofs.Tape.Frame
import IqTape.Tape.Header

/-!
# Headers come back from their bytes

## Main definitions

* `Header.IsListed` — the version is known, and so are the numbers of the radio, the
  sample format and the payload form.
* `Header.checked` — the bytes of a header that are read.

## Main results

* `Header.decode_checked` — what becomes of the bytes of any header.
* `Header.decode_encode` — a listed header comes back, whatever follows its bytes.
-/

namespace IqTape

namespace Header

/-- Whether every number in a header is one that reading knows. -/
structure IsListed (h : Header) : Prop where
  /-- The version. -/
  version : h.version = knownVersion
  /-- The radio. -/
  radio : h.radio.isListed = true
  /-- The sample format. -/
  format : h.format.isListed = true
  /-- The form of the payloads. -/
  form : h.form.isListed = true

/-- A number at the front. -/
theorem number_front {order : ByteOrder} {width n : Nat} (back : Bytes) (hn : n < 256 ^ width) :
    number order (order.encode width n ++ back) 0 width = n := by
  rw [number, Bytes.slice_append_self back (ByteOrder.length_encode order width n),
    ByteOrder.decode_encode, Nat.mod_eq_of_lt hn]

/-- A number behind some bytes. -/
theorem number_behind {front : Bytes} {k : Nat} (hk : front.length = k) (order : ByteOrder)
    (back : Bytes) (place width : Nat) :
    number order (front ++ back) (k + place) width = number order back place width := by
  rw [number, number, Bytes.slice_append_right back hk]

/-- The bytes in front of the numbers. -/
def opening (h : Header) : Bytes :=
  mark ++ [h.version, h.flags] ++ List.replicate 6 0 ++
    [h.radio.code, h.format.code, h.form.code, 0]

/-- The numbers behind the opening. -/
def numbers (h : Header) : Bytes :=
  let order := byteOrder h.flags
  order.encode 4 h.rate.toNat ++ order.encode 8 h.frequency.toNat ++
    order.encode 4 h.gain.bits.toNat ++ order.encode 8 h.start.toNat ++
    order.encode 8 h.finish.toNat ++ order.encode 8 h.total.toNat ++ List.replicate 16 0

theorem fields_eq (h : Header) : h.fields = h.opening ++ h.numbers := by
  simp only [fields, opening, numbers, List.append_assoc]

@[simp] theorem length_opening (h : Header) : h.opening.length = 16 := rfl

/-- The bytes of the opening are read by their place. -/
theorem byteAt_opening (h : Header) (tail : Bytes) :
    (h.opening ++ tail).take 4 = mark ∧ byteAt (h.opening ++ tail) 4 = h.version ∧
      byteAt (h.opening ++ tail) 5 = h.flags ∧ byteAt (h.opening ++ tail) 12 = h.radio.code ∧
      byteAt (h.opening ++ tail) 13 = h.format.code ∧
      byteAt (h.opening ++ tail) 14 = h.form.code := by
  exact ⟨rfl, rfl, rfl, rfl, rfl, rfl⟩

/-- The numbers are read by their place. -/
theorem number_numbers (h : Header) (tail : Bytes) :
    let order := byteOrder h.flags
    let bs := h.opening ++ (h.numbers ++ tail)
    number order bs 16 4 = h.rate.toNat ∧ number order bs 20 8 = h.frequency.toNat ∧
      number order bs 28 4 = h.gain.bits.toNat ∧ number order bs 32 8 = h.start.toNat ∧
      number order bs 40 8 = h.finish.toNat ∧ number order bs 48 8 = h.total.toNat := by
  intro order bs
  have hbs : bs = h.opening ++ (order.encode 4 h.rate.toNat ++
      (order.encode 8 h.frequency.toNat ++ (order.encode 4 h.gain.bits.toNat ++
        (order.encode 8 h.start.toNat ++ (order.encode 8 h.finish.toNat ++
          (order.encode 8 h.total.toNat ++ (List.replicate 16 0 ++ tail))))))) := by
    simp only [bs, numbers, order, List.append_assoc]
  have behind (w n : Nat) := number_behind (ByteOrder.length_encode order w n) order
  have front := number_behind (length_opening h) order
  rw [hbs]
  refine ⟨?_, ?_, ?_, ?_, ?_, ?_⟩
  · exact (front _ 0 4).trans (number_front _ h.rate.toNat_lt)
  · rw [front _ 4 8, behind 4 _ _ 0 8, number_front _ h.frequency.toNat_lt]
  · rw [front _ 12 4, behind 4 _ _ 8 4, behind 8 _ _ 0 4, number_front _ h.gain.bits.toNat_lt]
  · rw [front _ 16 8, behind 4 _ _ 12 8, behind 8 _ _ 4 8, behind 4 _ _ 0 8,
      number_front _ h.start.toNat_lt]
  · rw [front _ 24 8, behind 4 _ _ 20 8, behind 8 _ _ 12 8, behind 4 _ _ 8 8, behind 8 _ _ 0 8,
      number_front _ h.finish.toNat_lt]
  · rw [front _ 32 8, behind 4 _ _ 28 8, behind 8 _ _ 20 8, behind 4 _ _ 16 8, behind 8 _ _ 8 8,
      behind 8 _ _ 0 8, number_front _ h.total.toNat_lt]

/-! ### The checksum -/

/-- The bytes of a header up to its checksum; what stands behind them is not read. -/
def checked (h : Header) : Bytes := h.fields ++ ByteOrder.big.encode 4 (crc32 h.fields).toNat

theorem encode_eq (h : Header) : h.encode = h.checked ++ List.replicate 52 0 := rfl

@[simp] theorem length_checked (h : Header) : h.checked.length = covered + 4 := by
  simp [checked]

theorem take_encode (h : Header) : h.encode.take (covered + 4) = h.checked := by
  rw [encode_eq, List.take_left' (length_checked h)]

/-- The bytes that the checksum covers. -/
theorem take_checked (h : Header) (tail : Bytes) : (h.checked ++ tail).take covered = h.fields := by
  rw [checked, List.append_assoc, List.take_left' (length_fields h)]

/-- The checksum, whatever the flags say of the numbers. -/
theorem number_checked (h : Header) (tail : Bytes) :
    number .big (h.checked ++ tail) covered 4 = (crc32 h.fields).toNat := by
  rw [checked, List.append_assoc]
  exact (number_behind (length_fields h) .big _ 0 4).trans
    (number_front _ (crc32 h.fields).toNat_lt)

/-- Bytes with the mark and the version are refused if the checksum is not that of the fields. -/
theorem decode_of_mismatch {bs : Bytes} (hlen : size ≤ bs.length) (hm : bs.take 4 = mark)
    (hv : byteAt bs 4 = knownVersion)
    (hc : number .big bs covered 4 ≠ (crc32 (bs.take covered)).toNat) :
    decode bs = .error .checksumMismatch := by
  have hcov : bs.covers size = true := (Bytes.covers_iff _ _).2 hlen
  unfold decode
  rw [hcov, crc32First_eq, if_neg (by decide), if_neg (not_not_intro hm),
    if_neg (not_not_intro hv), if_pos hc]

/-! ### Headers -/

/-- **What becomes of the bytes of a header**, whatever follows the checksum: an unlisted radio
becomes an unknown one, and any other unlisted number is a fault. -/
theorem decode_checked (h : Header) {tail : Bytes} (ht : size ≤ covered + 4 + tail.length) :
    decode (h.checked ++ tail) =
      if h.version ≠ knownVersion then .error .unsupportedVersion
      else if h.format.isListed = true ∧ h.form.isListed = true then
        .ok { h with radio := .ofByte h.radio.code }
      else .error .formatViolation := by
  have hcov : Bytes.covers (h.checked ++ tail) size = true := by
    rw [Bytes.covers_iff, List.length_append, length_checked]
    exact ht
  have hcheck : number .big (h.checked ++ tail) covered 4 =
      (crc32First covered (h.checked ++ tail)).toNat := by
    rw [crc32First_eq, take_checked, number_checked]
  have hsplit : h.checked ++ tail = h.opening ++ (h.numbers ++
      (ByteOrder.big.encode 4 (crc32 h.fields).toNat ++ tail)) := by
    simp only [checked, fields_eq, List.append_assoc]
  rw [hsplit] at hcov hcheck ⊢
  -- The checksum has been dealt with; of the rest only the fields matter.
  generalize ByteOrder.big.encode 4 (crc32 h.fields).toNat ++ tail = rest at hcov hcheck ⊢
  obtain ⟨hm, hv, hf, hr, hs, hp⟩ := byteAt_opening h (h.numbers ++ rest)
  obtain ⟨hrate, hfreq, hgain, hstart, hfinish, htotal⟩ := number_numbers h rest
  unfold decode
  rw [hcov, hm, hv, hf, hr, hs, hp, hcheck]
  simp only [Bool.not_true, Bool.false_eq_true, ne_eq, not_true_eq_false, if_false, hrate, hfreq,
    hgain, hstart, hfinish, htotal]
  have hword (x : UInt32) : x.toNat.toUInt32 = x := UInt32.ofNat_toNat
  have hlong (x : UInt64) : x.toNat.toUInt64 = x := UInt64.ofNat_toNat
  simp only [hword, hlong, SampleFormat.ofByte?, PayloadForm.ofByte?]
  by_cases hversion : h.version = knownVersion
  · by_cases hformat : h.format.isListed = true <;> by_cases hform : h.form.isListed = true <;>
      simp [hversion, hformat, hform]
  · rw [if_pos hversion, if_pos hversion]

/-- **A listed header comes back from its bytes**, whatever follows. -/
theorem decode_encode {h : Header} (hl : h.IsListed) (rest : Bytes) :
    decode (h.encode ++ rest) = .ok h := by
  obtain ⟨hversion, hradio, hformat, hform⟩ := hl
  have hradio' : RadioModel.ofByte h.radio.code = h.radio := if_pos hradio
  have hlen : size ≤ covered + 4 + (List.replicate 52 (0 : UInt8) ++ rest).length := by
    rw [List.length_append, List.length_replicate, size, covered]
    omega
  rw [encode_eq, List.append_assoc, decode_checked h hlen, if_neg (not_not_intro hversion),
    if_pos ⟨hformat, hform⟩, hradio']

theorem decode_encode_self {h : Header} (hl : h.IsListed) : decode h.encode = .ok h := by
  have := decode_encode hl []
  rwa [List.append_nil] at this

/-- The header of a session about which nothing is known is listed. -/
theorem isListed_blank : blank.IsListed := ⟨rfl, rfl, rfl, rfl⟩

end Header

end IqTape
