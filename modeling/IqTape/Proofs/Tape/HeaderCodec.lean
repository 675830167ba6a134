import IqTape.Proofs.Tape.Window

/-!
# Which headers come back from their bytes

A header holds its numbers as they are, listed or not, so that it can be written and compared.
Reading knows only the listed ones.  A header therefore comes back exactly if all its numbers are
listed: of the others, those with an unlisted radio come back with an unknown one, and the rest
are refused, which leaves a reader with the header it had.  The flags only choose the order of the
bytes, and neither they nor what stands behind the checksum makes a difference.

## Main results

* `Header.refused_iff` — which headers are refused.
* `Header.comes_back_iff_listed` — **the headers that come back are the listed ones**.
-/

namespace IqTape

namespace Header

variable {h : Header} {tail : Bytes}

theorem ofByte_of_unlisted (hradio : h.radio.isListed = false) :
    RadioModel.ofByte h.radio.code = .unknown :=
  if_neg (by rw [show (⟨h.radio.code⟩ : RadioModel) = h.radio from rfl, hradio]; nofun)

/-- A radio that comes back is listed. -/
theorem isListed_of_ofByte_eq (hradio : RadioModel.ofByte h.radio.code = h.radio) :
    h.radio.isListed = true := by
  cases hlisted : h.radio.isListed with
  | true => rfl
  | false =>
    rw [ofByte_of_unlisted hlisted] at hradio
    rw [← hradio] at hlisted
    cases hlisted

/-- The header of a listed version, sample format and payload form comes back, with the radio
that reading takes its number for. -/
theorem decode_checked_of_listed (ht : size ≤ covered + 4 + tail.length)
    (hversion : h.version = knownVersion) (hformat : h.format.isListed = true)
    (hform : h.form.isListed = true) :
    decode (h.checked ++ tail) = .ok { h with radio := .ofByte h.radio.code } := by
  rw [decode_checked h ht, if_neg (not_not_intro hversion), if_pos ⟨hformat, hform⟩]

/-- **A header is refused exactly if its version, sample format or payload form is unlisted.** -/
theorem refused_iff (ht : size ≤ covered + 4 + tail.length) :
    (∃ f, decode (h.checked ++ tail) = .error f) ↔
      ¬(h.version = knownVersion ∧ h.format.isListed = true ∧ h.form.isListed = true) := by
  constructor
  · rintro ⟨f, hf⟩ ⟨hversion, hformat, hform⟩
    rw [decode_checked_of_listed ht hversion hformat hform] at hf
    cases hf
  · intro hunlisted
    rw [decode_checked h ht]
    by_cases hversion : h.version = knownVersion
    · rw [if_neg (not_not_intro hversion), if_neg fun hlisted => hunlisted ⟨hversion, hlisted⟩]
      exact ⟨_, rfl⟩
    · rw [if_pos hversion]
      exact ⟨_, rfl⟩

/-- A header comes back exactly if every number in it is listed. -/
theorem decode_checked_eq_ok_iff (ht : size ≤ covered + 4 + tail.length) :
    decode (h.checked ++ tail) = .ok h ↔ h.IsListed := by
  constructor
  · intro hback
    obtain ⟨hversion, hformat, hform⟩ :
        h.version = knownVersion ∧ h.format.isListed = true ∧ h.form.isListed = true := by
      refine Decidable.byContradiction fun hunlisted => ?_
      obtain ⟨f, hf⟩ := (refused_iff ht).2 hunlisted
      rw [hback] at hf
      cases hf
    rw [decode_checked_of_listed ht hversion hformat hform, Except.ok.injEq] at hback
    exact ⟨hversion, isListed_of_ofByte_eq (congrArg Header.radio hback), hformat, hform⟩
  · rintro ⟨hversion, hradio, hformat, hform⟩
    rw [decode_checked_of_listed ht hversion hformat hform,
      show RadioModel.ofByte h.radio.code = h.radio from if_pos hradio]

/-- **The headers that come back from their bytes are the listed ones**, whatever stands in the
place behind the checksum and whatever follows.  One with an unlisted radio, and else listed,
comes back with an unknown radio and otherwise as it was.  Any other is refused, and a reader that
is to open such a tape keeps the header it had.  In whatever order the numbers of a header are
stored, its checksum has its most significant byte first. -/
theorem comes_back_iff_listed (h : Header) {tail : Bytes} (htail : tail.length = 52)
    (rest : Bytes) :
    let bs := h.encode.take 76 ++ tail ++ rest
    (decode bs = .ok h ↔ h.IsListed) ∧
      (h.version = knownVersion ∧ h.format.isListed = true ∧ h.form.isListed = true ∧
          h.radio.isListed = false →
        decode bs = .ok { h with radio := .unknown } ∧ { h with radio := .unknown } ≠ h) ∧
      (¬(h.version = knownVersion ∧ h.format.isListed = true ∧ h.form.isListed = true) →
        ∃ f, decode bs = .error f ∧ ∀ r : Reader,
          (r.openSource (.ofBytes bs)).2 = some f ∧
            (r.openSource (.ofBytes bs)).1.header = r.header) ∧
      number .big bs covered 4 = (crc32 (bs.take covered)).toNat := by
  intro bs
  have hbs : bs = h.checked ++ (tail ++ rest) := by
    simp only [bs, ← take_encode, covered, List.append_assoc]
  have ht : size ≤ covered + 4 + tail.length := by rw [htail]; decide
  have hlen : size ≤ covered + 4 + (tail ++ rest).length := by
    rw [List.length_append]
    omega
  rw [hbs]
  refine ⟨decode_checked_eq_ok_iff hlen, ?_, ?_, ?_⟩
  · rintro ⟨hversion, hformat, hform, hradio⟩
    rw [decode_checked_of_listed hlen hversion hformat hform, ofByte_of_unlisted hradio]
    refine ⟨rfl, fun hsame => ?_⟩
    rw [← congrArg Header.radio hsame] at hradio
    cases hradio
  · intro hunlisted
    obtain ⟨f, hf⟩ := (refused_iff hlen).2 hunlisted
    -- A reader looks at the size of a header and no further, and finds the same there.
    have hfront : decode (h.checked ++ tail) = .error f := by
      rw [decode_checked h ht, ← decode_checked h hlen, hf]
    have hsize : (h.checked ++ tail).length = size := by
      rw [List.length_append, length_checked, htail]
      rfl
    refine ⟨f, hf, fun r => ?_⟩
    have hopen := Reader.openSource_of_refused r hsize hfront rest
    rw [List.append_assoc] at hopen
    rw [hopen]
    exact ⟨rfl, rfl⟩
  · rw [take_checked]
    exact number_checked h (tail ++ rest)

/-- A header with its numbers least significant byte first, a gain that is no number, and a radio
that is not listed. -/
def oddHeader : Header :=
  ⟨1, 0xFF, ⟨7⟩, .float32, .lz4, 0x01020304, 0x0102030405060708, ⟨0x7FC00123⟩, 1, 2, 3⟩

/-- It comes back with an unknown radio; with a listed one it comes back as it is, and with
another version it is refused. -/
theorem comes_back_iff_listed_of_oddHeader :
    let tail : Bytes := List.replicate 52 0xAB
    let bytesOf (h : Header) := h.encode.take 76 ++ tail ++ [1, 2, 3]
    tail.length = 52 ∧
      (oddHeader.version = knownVersion ∧ oddHeader.format.isListed = true ∧
        oddHeader.form.isListed = true ∧ oddHeader.radio.isListed = false) ∧
      decode (bytesOf oddHeader) = .ok { oddHeader with radio := .unknown } ∧
      decode (bytesOf { oddHeader with radio := .b200 }) = .ok { oddHeader with radio := .b200 } ∧
      ({ oddHeader with version := 2 } : Header).version ≠ knownVersion ∧
      ∃ f, decode (bytesOf { oddHeader with version := 2 }) = .error f := by
  intro tail bytesOf
  have htail : tail.length = 52 := List.length_replicate
  have hodd : oddHeader.version = knownVersion ∧ oddHeader.format.isListed = true ∧
      oddHeader.form.isListed = true ∧ oddHeader.radio.isListed = false := by decide
  have hnew : ({ oddHeader with version := 2 } : Header).version ≠ knownVersion := by decide
  obtain ⟨-, hunknown, -⟩ := comes_back_iff_listed oddHeader htail [1, 2, 3]
  obtain ⟨hlisted, -⟩ := comes_back_iff_listed { oddHeader with radio := .b200 } htail [1, 2, 3]
  obtain ⟨-, -, hrefused, -⟩ :=
    comes_back_iff_listed { oddHeader with version := 2 } htail [1, 2, 3]
  obtain ⟨f, hf, -⟩ := hrefused fun hknown => hnew hknown.1
  exact ⟨htail, hodd, (hunknown hodd).1, hlisted.2 ⟨rfl, rfl, rfl, rfl⟩, hnew, f, hf⟩

end Header

end IqTape
