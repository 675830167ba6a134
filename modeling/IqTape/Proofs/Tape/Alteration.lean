import IqTape.Proofs.Bytes.Burst
import IqTape.Proofs.Tape.Codec
import IqTape.Proofs.Tape.Sink
import IqTape.Proofs.Tape.Window

/-!
# Altered headers and frames are refused

The checksum of a header or a frame does not fit if a short burst has hit the bytes that it
covers, and just as little if the burst has hit the checksum itself.  What is needed to get as
far as the checksum, the mark and the version of a header and the length of a frame, stands in
front of both.

## Main results

* `Header.decode_of_altered_fields`, `Header.decode_of_altered_checksum` — altered headers.
* `Block.decode_of_altered_content`, `Block.decode_of_altered_checksum` — altered frames.
* `short_bursts_are_found` — **no burst of up to four bytes is missed**.
-/

namespace IqTape

namespace Bytes

/-- Putting other bytes over some is a burst. -/
theorem differsWithin_overwrite {as new : Bytes} {place : Nat}
    (hroom : place + new.length ≤ as.length) (hne : new ≠ as.slice place new.length) :
    as.DiffersWithin (as.overwrite place new) place new.length := by
  have hfront : (as.take place).length = place := List.length_take_of_le (by omega)
  have hparts : as.overwrite place new =
      as.take place ++ (new ++ as.drop (place + new.length)) := List.append_assoc _ _ _
  refine ⟨?_, ?_, ?_⟩
  · rw [length_overwrite new (by omega), Nat.max_eq_left hroom]
  · intro hsame
    have hboth := hparts.symm.trans (hsame.trans (DiffersWithin.cut as place new.length))
    exact hne (List.append_cancel_right (List.append_cancel_left hboth))
  · intro i hi
    rw [hparts]
    rcases hi with hi | hi
    · rw [List.getElem?_append_left (by omega), List.getElem?_take_of_lt hi]
    · rw [List.getElem?_append_right (by omega), hfront, List.getElem?_append_right (by omega),
        List.getElem?_drop]
      congr 1
      omega

end Bytes

/-- Another checksum of the same size is another number. -/
theorem ByteOrder.decode_ne_of_length {o : ByteOrder} {as bs : Bytes}
    (hlen : bs.length = as.length) (hne : bs ≠ as) : o.decode bs ≠ o.decode as := by
  intro h
  apply hne
  rw [← encode_decode o bs, h, hlen, encode_decode]

/-- A stored checksum that has been altered is not the one that was stored. -/
theorem crc32_ne_of_altered {bs altered : Bytes} {place width : Nat}
    (h : (ByteOrder.big.encode 4 (crc32 bs).toNat).DiffersWithin altered place width) :
    ByteOrder.big.decode altered ≠ (crc32 bs).toNat := by
  have hdecode := ByteOrder.decode_ne_of_length (o := .big) h.length h.ne
  have hstored : ByteOrder.big.decode (ByteOrder.big.encode 4 (crc32 bs).toNat) =
      (crc32 bs).toNat := by
    rw [ByteOrder.decode_encode]
    exact Nat.mod_eq_of_lt (crc32 bs).toNat_lt
  rwa [hstored] at hdecode

namespace Header

variable {h : Header} {place : Nat}

/-- The mark and the version stand in the first five bytes. -/
theorem opens_of_take {fields : Bytes} (hv : h.version = knownVersion)
    (hfive : fields.take 5 = h.fields.take 5) (tail : Bytes) (hlen : 5 ≤ fields.length) :
    (fields ++ tail).take 4 = mark ∧ byteAt (fields ++ tail) 4 = knownVersion := by
  have hfour : fields.take 4 = (fields.take 5).take 4 := by rw [List.take_take]; rfl
  have hplace : fields[4]? = (fields.take 5)[4]? := by rw [List.getElem?_take]; rfl
  constructor
  · rw [List.take_append_of_le_length (by omega), hfour, hfive]
    rfl
  · rw [byteAt, List.getD_eq_getElem?_getD, List.getElem?_append_left (by omega), hplace, hfive,
      ← hv]
    rfl

/-- **A burst behind the version, in what the checksum covers, is found.** -/
theorem decode_of_altered_fields {fields : Bytes} (hv : h.version = knownVersion)
    (hplace : 5 ≤ place) (hdiff : h.fields.DiffersWithin fields place 4) {tail : Bytes}
    (htail : 52 ≤ tail.length) :
    decode (fields ++ (ByteOrder.big.encode 4 (crc32 h.fields).toNat ++ tail)) =
      .error .checksumMismatch := by
  have hlen : fields.length = covered := by rw [hdiff.length, length_fields]
  have hfive := hdiff.take_eq hplace
  obtain ⟨hmark, hversion⟩ := opens_of_take hv hfive
    (ByteOrder.big.encode 4 (crc32 h.fields).toNat ++ tail) (by rw [hlen]; decide)
  refine decode_of_mismatch ?_ hmark hversion ?_
  · simp only [List.length_append, ByteOrder.length_encode, hlen, size, covered]
    omega
  · have hnumber := number_behind hlen .big
      (ByteOrder.big.encode 4 (crc32 h.fields).toNat ++ tail) 0 4
    rw [Nat.add_zero, number_front _ (crc32 h.fields).toNat_lt] at hnumber
    rw [hnumber, List.take_left' hlen]
    intro hsame
    exact crc32_ne_of_burst hdiff (UInt32.toNat_inj.1 hsame).symm

/-- **A burst in the checksum of a header is found.** -/
theorem decode_of_altered_checksum {check : Bytes} {width : Nat} (hv : h.version = knownVersion)
    (hdiff : (ByteOrder.big.encode 4 (crc32 h.fields).toNat).DiffersWithin check place width)
    {tail : Bytes} (htail : 52 ≤ tail.length) :
    decode (h.fields ++ (check ++ tail)) = .error .checksumMismatch := by
  have hlen : check.length = 4 := by rw [hdiff.length, ByteOrder.length_encode]
  obtain ⟨hmark, hversion⟩ := opens_of_take hv rfl (check ++ tail) (by rw [length_fields]; decide)
  refine decode_of_mismatch ?_ hmark hversion ?_
  · simp only [List.length_append, length_fields, hlen, size, covered]
    omega
  · have hnumber : number .big (h.fields ++ (check ++ tail)) covered 4 =
        ByteOrder.big.decode check := by
      refine (number_behind (length_fields h) .big (check ++ tail) 0 4).trans ?_
      rw [number, Bytes.slice_append_self tail hlen]
    rw [List.take_left' (length_fields h), hnumber]
    exact crc32_ne_of_altered hdiff

/-- A burst in one of the two is a burst in the header, and the other way round. -/
theorem decode_of_altered {altered : Bytes} (hv : h.version = knownVersion)
    (hplace : (5 ≤ place ∧ place + 4 ≤ covered) ∨ place = covered)
    (hdiff : h.encode.DiffersWithin altered place 4) (rest : Bytes) :
    decode (altered ++ rest) = .error .checksumMismatch := by
  have htail : 52 ≤ (List.replicate 52 (0 : UInt8) ++ rest).length := by
    rw [List.length_append, List.length_replicate]
    omega
  have hfields := length_fields h
  rw [encode_eq, checked, List.append_assoc] at hdiff
  rcases hplace with ⟨hfrom, hto⟩ | hat
  · -- Nothing stands in front of what the checksum covers.
    rw [← List.nil_append (h.fields ++ _)] at hdiff
    obtain ⟨fields, rfl, hpart⟩ := hdiff.middle (Nat.zero_le _)
      (by rw [List.length_nil, Nat.zero_add, hfields]; exact hto)
    rw [List.nil_append, List.append_assoc, List.append_assoc]
    exact decode_of_altered_fields hv hfrom hpart htail
  · obtain ⟨check, rfl, hpart⟩ := hdiff.middle (by omega)
      (by rw [ByteOrder.length_encode]; omega)
    rw [List.append_assoc, List.append_assoc]
    exact decode_of_altered_checksum hv hpart htail

end Header

namespace Block

variable {b : Block} {packed : Bool} {place : Nat}

/-- A content that does not have the checksum behind it is refused. -/
theorem decode_enclosed {content check : Bytes} (hp : Plausible content.length)
    (hcheck : check.length = 4) (hwrong : ByteOrder.big.decode check ≠ (crc32 content).toNat)
    (rest : Bytes) : decode packed (enclosed content check ++ rest) = .error .checksumMismatch := by
  have hfixed := hp.1
  simp only [fixedContent] at hfixed
  have hlen : (enclosed content check ++ rest).length =
      content.length + envelope + rest.length := by
    simp only [enclosed, List.length_append, ByteOrder.length_encode, hcheck, envelope]
    omega
  rw [decode_eq, hlen, declared_enclosed hp, framedContent_enclosed hp,
    framedCheck_enclosed hp hcheck, if_neg (by simp only [overhead, envelope]; omega),
    if_neg (not_not_intro hp), if_neg (by omega), if_pos hwrong]

/-- **A burst in the content of a frame is found.** -/
theorem decode_of_altered_content {content : Bytes} (hs : b.frameSize ≤ maxFrame)
    (hdiff : b.content.DiffersWithin content place 4) (rest : Bytes) :
    decode packed (ByteOrder.big.encode 4 b.content.length ++
        (content ++ ByteOrder.big.encode 4 (crc32 b.content).toNat) ++ rest) =
      .error .checksumMismatch := by
  have hp := plausible_content hs
  rw [← hdiff.length] at hp ⊢
  refine decode_enclosed hp (ByteOrder.length_encode .big 4 _) ?_ rest
  rw [ByteOrder.decode_encode]
  intro hsame
  rw [Nat.mod_eq_of_lt (crc32 b.content).toNat_lt] at hsame
  exact crc32_ne_of_burst hdiff (UInt32.toNat_inj.1 hsame).symm

/-- **A burst in the checksum of a frame is found.** -/
theorem decode_of_altered_checksum {check : Bytes} {width : Nat} (hs : b.frameSize ≤ maxFrame)
    (hdiff : (ByteOrder.big.encode 4 (crc32 b.content).toNat).DiffersWithin check place width)
    (rest : Bytes) :
    decode packed (enclosed b.content check ++ rest) = .error .checksumMismatch := by
  have hlen : check.length = 4 := by rw [hdiff.length, ByteOrder.length_encode]
  exact decode_enclosed (plausible_content hs) hlen (crc32_ne_of_altered hdiff) rest

/-- A burst in one of the two is a burst in the frame behind its length. -/
theorem decode_of_altered {altered : Bytes} (hs : b.frameSize ≤ maxFrame)
    (hplace : (4 ≤ place ∧ place + 4 ≤ 4 + b.content.length) ∨ place = 4 + b.content.length)
    (hdiff : b.frame.DiffersWithin altered place 4) (rest : Bytes) :
    decode packed (altered ++ rest) = .error .checksumMismatch := by
  have hlength := ByteOrder.length_encode .big 4 b.content.length
  rw [frame_eq, enclosed] at hdiff
  rcases hplace with ⟨hfrom, hto⟩ | hat
  · obtain ⟨content, rfl, hpart⟩ := hdiff.middle (by omega) (by omega)
    exact decode_of_altered_content hs hpart rest
  · -- Behind the content comes the checksum, and nothing else.
    rw [← List.append_assoc, ← List.append_nil (ByteOrder.big.encode 4 (crc32 b.content).toNat)]
      at hdiff
    obtain ⟨check, rfl, hpart⟩ := hdiff.middle (by rw [List.length_append]; omega)
      (by simp only [List.length_append, ByteOrder.length_encode]; omega)
    rw [List.append_nil, List.append_assoc (ByteOrder.encode _ _ _)]
    exact decode_of_altered_checksum hs hpart rest

end Block

/-- **No burst of up to four bytes is missed.**  If any bytes of the header of a known version
are altered within four neighbouring places, all of them behind the version in what the checksum
covers or all of them in the checksum, the header is refused for its checksum, and a reader that
is to open the tape keeps the header it had.  If any bytes of a frame are altered within four
neighbouring places, all of them in the content or all of them in the checksum, the frame is
refused for its checksum, whatever follows it. -/
theorem short_bursts_are_found :
    (∀ (h : Header) (altered rest : Bytes) (place : Nat), h.version = Header.knownVersion →
      (5 ≤ place ∧ place + 4 ≤ Header.covered) ∨ place = Header.covered →
      h.encode.DiffersWithin altered place 4 →
      Header.decode (altered ++ rest) = .error .checksumMismatch ∧ ∀ r : Reader,
        (r.openSource (.ofBytes (altered ++ rest))).2 = some .checksumMismatch ∧
          (r.openSource (.ofBytes (altered ++ rest))).1.header = r.header) ∧
      ∀ b : Block, b.frameSize ≤ Block.maxFrame → ∃ frame, b.encode = .ok frame ∧
        ∀ (form : PayloadForm) (altered rest : Bytes) (place : Nat),
          (4 ≤ place ∧ place + 4 ≤ 4 + b.content.length) ∨ place = 4 + b.content.length →
          frame.DiffersWithin altered place 4 →
          Block.decode form.packs (altered ++ rest) = .error .checksumMismatch := by
  constructor
  · intro h altered rest place hv hplace hdiff
    refine ⟨Header.decode_of_altered hv hplace hdiff rest, fun r => ?_⟩
    have hsize : altered.length = Header.size := by rw [hdiff.length, Header.length_encode]
    have halone := Header.decode_of_altered hv hplace hdiff []
    rw [List.append_nil] at halone
    rw [Reader.openSource_of_refused r hsize halone rest]
    exact ⟨rfl, rfl⟩
  · intro b hs
    refine ⟨b.frame, Block.encode_of_le hs, ?_⟩
    intro form altered rest place hplace hdiff
    exact Block.decode_of_altered hs hplace hdiff rest

set_option maxRecDepth 4000 in
/-- Four bytes are written over fields and over the checksum of a header, and over the content
and the checksum of a frame. -/
theorem short_bursts_are_found_of_overwritten :
    let header := Header.blank.encode
    let b : Block := ⟨7, 1, [1, 2, 3, 4], false⟩
    let new : Bytes := [9, 8, 7, 6]
    Header.blank.version = Header.knownVersion ∧ b.frameSize ≤ Block.maxFrame ∧
      (header.DiffersWithin (header.overwrite 12 new) 12 4 ∧
        Header.decode (header.overwrite 12 new ++ [0]) = .error .checksumMismatch) ∧
      (header.DiffersWithin (header.overwrite 72 new) 72 4 ∧
        Header.decode (header.overwrite 72 new ++ [0]) = .error .checksumMismatch) ∧
      ∃ frame, b.encode = .ok frame ∧
        Block.decode PayloadForm.raw.packs (b.frame.overwrite 14 new ++ frame) =
          .error .checksumMismatch ∧
        Block.decode PayloadForm.raw.packs (b.frame.overwrite 20 new ++ frame) =
          .error .checksumMismatch := by
  intro header b new
  have hs : b.frameSize ≤ Block.maxFrame := by decide
  have hroom : 72 + 4 ≤ header.length := by
    rw [Header.length_encode]
    decide
  have hfields : header.DiffersWithin (header.overwrite 12 new) 12 4 :=
    Bytes.differsWithin_overwrite (Nat.le_trans (by decide) hroom) (by decide +kernel)
  have hcheck : header.DiffersWithin (header.overwrite 72 new) 72 4 :=
    Bytes.differsWithin_overwrite hroom (by decide +kernel)
  have hcontent : b.frame.DiffersWithin (b.frame.overwrite 14 new) 14 4 :=
    Bytes.differsWithin_overwrite (by decide) (by decide +kernel)
  have hlast : b.frame.DiffersWithin (b.frame.overwrite 20 new) 20 4 :=
    Bytes.differsWithin_overwrite (by decide) (by decide +kernel)
  obtain ⟨hheader, hframe⟩ := short_bursts_are_found
  obtain ⟨frame, hencode, hfound⟩ := hframe b hs
  obtain rfl : frame = b.frame := (Block.of_encode_eq_ok hencode).2
  exact ⟨rfl, hs, ⟨hfields, (hheader .blank _ [0] 12 rfl (.inl (by decide)) hfields).1⟩,
    ⟨hcheck, (hheader .blank _ [0] 72 rfl (.inr rfl) hcheck).1⟩, b.frame, hencode,
    hfound .raw _ _ 14 (.inl (by decide)) hcontent, hfound .raw _ _ 20 (.inr (by decide)) hlast⟩

end IqTape
