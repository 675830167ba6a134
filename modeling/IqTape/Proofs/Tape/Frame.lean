import IqTape.Tape.Frame

/-!
# Frames at the front of longer strings

A frame says its own length, so what comes out of a string of bytes is decided by
the frame at its front and by nothing behind it.

## Main definitions

* `Block.declared`, `Block.framedContent`, `Block.framedCheck` — what the bytes say
  that should be a frame.
* `Block.ofContent` — the block that the content of a frame says.
* `Block.enclosed` — a content between its length and what should be its checksum.
* `Block.total` — how many samples some blocks have.

## Main results

* `Block.decode_eq` — decoding in terms of these.
* `Block.decode_eq_ok_iff` — what has to be true of bytes that a block comes out of.
* `Block.decode_append` — bytes that follow change nothing, unless some were missing.
* `Block.decode_frame` — the block of a frame comes out, whatever follows.
-/

namespace IqTape

namespace Bytes

/-- A field in the front part does not see what follows. -/
theorem slice_append_left {as : Bytes} {start n : Nat} (bs : Bytes)
    (h : start + n ≤ as.length) : slice (as ++ bs) start n = as.slice start n := by
  rw [slice, slice, List.drop_append_of_le_length (by omega),
    List.take_append_of_le_length (by rw [List.length_drop]; omega)]

/-- A field behind the front part. -/
theorem slice_append_right {as : Bytes} {k : Nat} (bs : Bytes) (hk : as.length = k)
    (start n : Nat) : slice (as ++ bs) (k + start) n = bs.slice start n := by
  subst hk
  rw [slice, slice, List.drop_append, List.drop_of_length_le (by omega), List.nil_append,
    Nat.add_sub_cancel_left]

/-- A field that is the front part. -/
theorem slice_append_self {as : Bytes} {n : Nat} (bs : Bytes) (hn : as.length = n) :
    slice (as ++ bs) 0 n = as := by
  subst hn
  rw [slice, List.drop_zero, List.take_left]

end Bytes

namespace Block

/-! ### What the bytes say -/

/-- The length that a frame at the front of some bytes gives for its content. -/
def declared (bs : Bytes) : Nat := ByteOrder.big.decode (bs.take 4)

/-- The content of a frame at the front of some bytes. -/
def framedContent (bs : Bytes) : Bytes := bs.slice 4 (declared bs)

/-- The checksum of a frame at the front of some bytes. -/
def framedCheck (bs : Bytes) : Nat := ByteOrder.big.decode (bs.slice (4 + declared bs) 4)

/-- The block that the content of a frame says. -/
def ofContent (packed : Bool) (content : Bytes) : Block :=
  ⟨(ByteOrder.big.decode (content.slice 4 8)).toUInt64,
    (ByteOrder.big.decode (content.take 4)).toUInt32, content.drop fixedContent, packed⟩

/-- Whether a frame can have a content of so many bytes. -/
def Plausible (n : Nat) : Prop := fixedContent ≤ n ∧ n + envelope ≤ maxFrame

instance (n : Nat) : Decidable (Plausible n) := inferInstanceAs (Decidable (_ ∧ _))

/-- **Decoding looks at the declared length, then for that many bytes, then at the
checksum.** -/
theorem decode_eq (packed : Bool) (bs : Bytes) :
    decode packed bs =
      if bs.length < overhead then .error .incomplete
      else if ¬Plausible (declared bs) then .error .corrupted
      else if bs.length < declared bs + envelope then .error .incomplete
      else if framedCheck bs ≠ (crc32 (framedContent bs)).toNat then .error .checksumMismatch
      else .ok (ofContent packed (framedContent bs), declared bs + envelope) := by
  have hcov (n : Nat) : (!bs.covers n) = true ↔ bs.length < n := by
    rw [Bool.not_eq_true', Bool.eq_false_iff, ne_eq, Bytes.covers_iff, Nat.not_le]
  have hplaus : (declared bs < fixedContent ∨ maxFrame < declared bs + envelope) ↔
      ¬Plausible (declared bs) := by
    unfold Plausible
    omega
  have hcheck : ByteOrder.big.decode (((bs.drop 4).drop (declared bs)).take 4) =
      framedCheck bs := by
    rw [framedCheck, Bytes.slice, List.drop_drop]
  have hcontent : (bs.drop 4).take (declared bs) = framedContent bs := rfl
  unfold decode
  simp only [hcov, crc32First_eq]
  rw [show ByteOrder.big.decode (bs.take 4) = declared bs from rfl, hcheck, hcontent]
  simp only [hplaus]
  refine ite_congr rfl (fun _ => rfl) fun _ => ?_
  split
  · rfl
  · next hp =>
    have hn : fixedContent ≤ declared bs := (Decidable.not_not.1 hp).1
    have hblock : (⟨(ByteOrder.big.decode (Bytes.slice (bs.drop 4) 4 8)).toUInt64,
        (ByteOrder.big.decode ((bs.drop 4).take 4)).toUInt32,
        Bytes.slice (bs.drop 4) fixedContent (declared bs - fixedContent), packed⟩ : Block) =
        ofContent packed (framedContent bs) := by
      simp only [fixedContent] at hn
      simp only [ofContent, framedContent, Bytes.slice, List.drop_take, List.take_take,
        fixedContent]
      rw [Nat.min_eq_left (by omega), Nat.min_eq_left (by omega)]
    rw [hblock]

/-! ### What follows a frame -/

theorem declared_append {bs : Bytes} (more : Bytes) (h : overhead ≤ bs.length) :
    declared (bs ++ more) = declared bs := by
  simp only [overhead] at h
  rw [declared, declared, List.take_append_of_le_length (by omega)]

theorem framedContent_append {bs : Bytes} (more : Bytes) (h : overhead ≤ bs.length)
    (hn : declared bs + envelope ≤ bs.length) :
    framedContent (bs ++ more) = framedContent bs := by
  simp only [envelope] at hn
  rw [framedContent, framedContent, declared_append more h,
    Bytes.slice_append_left more (by omega)]

theorem framedCheck_append {bs : Bytes} (more : Bytes) (h : overhead ≤ bs.length)
    (hn : declared bs + envelope ≤ bs.length) : framedCheck (bs ++ more) = framedCheck bs := by
  simp only [envelope] at hn
  rw [framedCheck, framedCheck, declared_append more h,
    Bytes.slice_append_left more (by omega)]

/-- **What comes out of some bytes still comes out when more follow**, unless it was
that more are needed. -/
theorem decode_append {packed : Bool} {bs : Bytes} (more : Bytes)
    (h : decode packed bs ≠ .error .incomplete) :
    decode packed (bs ++ more) = decode packed bs := by
  rw [decode_eq] at h
  rw [decode_eq, decode_eq packed bs]
  split at h
  · exact absurd rfl h
  · next hlen =>
    rw [List.length_append, declared_append more (by omega), if_neg (by omega), if_neg hlen]
    split at h
    · next hp => rw [if_pos hp, if_pos hp]
    · next hp =>
      split at h
      · exact absurd rfl h
      · next hn =>
        rw [if_neg hp, if_neg hp, if_neg (by omega), if_neg hn,
          framedContent_append more (by omega) (by omega),
          framedCheck_append more (by omega) (by omega)]

/-- Too few bytes for any frame. -/
theorem decode_of_short {packed : Bool} {bs : Bytes} (h : bs.length < overhead) :
    decode packed bs = .error .incomplete := by
  rw [decode_eq, if_pos h]

/-- **A block comes out of bytes** that are long enough for a plausible length and hold the
checksum of the content. -/
theorem decode_eq_ok_iff {packed : Bool} {bs : Bytes} {b : Block} {n : Nat} :
    decode packed bs = .ok (b, n) ↔
      overhead ≤ bs.length ∧ Plausible (declared bs) ∧ n ≤ bs.length ∧
        framedCheck bs = (crc32 (framedContent bs)).toNat ∧
        b = ofContent packed (framedContent bs) ∧ n = declared bs + envelope := by
  rw [decode_eq]
  constructor
  · intro h
    split at h
    · cases h
    · next hlen =>
      split at h
      · cases h
      · next hp =>
        split at h
        · cases h
        · next hn =>
          split at h
          · cases h
          · next hc =>
            cases h
            exact ⟨by omega, Decidable.not_not.1 hp, by omega, Decidable.not_not.1 hc, rfl, rfl⟩
  · rintro ⟨hlen, hp, hn, hc, rfl, rfl⟩
    rw [if_neg (by omega), if_neg (not_not_intro hp), if_neg (by omega),
      if_neg (not_not_intro hc)]

/-- What a decoded block says about the bytes it came from. -/
theorem of_decode_eq_ok {packed : Bool} {bs : Bytes} {b : Block} {n : Nat}
    (h : decode packed bs = .ok (b, n)) :
    overhead ≤ bs.length ∧ Plausible (declared bs) ∧ n = declared bs + envelope ∧
      n ≤ bs.length ∧ b = ofContent packed (framedContent bs) := by
  obtain ⟨hlen, hp, hn, -, hb, hsize⟩ := decode_eq_ok_iff.1 h
  exact ⟨hlen, hp, hsize, hn, hb⟩

/-- A frame has room for its overhead. -/
theorem overhead_le_of_decode {packed : Bool} {bs : Bytes} {b : Block} {n : Nat}
    (h : decode packed bs = .ok (b, n)) : overhead ≤ n := by
  obtain ⟨-, ⟨hn, -⟩, rfl, -, -⟩ := of_decode_eq_ok h
  simp only [overhead, fixedContent, envelope] at hn ⊢
  omega

/-- Where bytes are long enough for the length they declare, only the checksum can
be wrong. -/
theorem decode_of_covered {packed : Bool} {bs : Bytes} (hlen : overhead ≤ bs.length)
    (hp : Plausible (declared bs)) (hn : declared bs + envelope ≤ bs.length) :
    decode packed bs = .error .checksumMismatch ∨ ∃ r, decode packed bs = .ok r := by
  rw [decode_eq, if_neg (by omega), if_neg (not_not_intro hp), if_neg (by omega)]
  split
  · exact .inl rfl
  · exact .inr ⟨_, rfl⟩

/-! ### The frame of a block -/

/-- A content between its length and what should be its checksum. -/
def enclosed (content check : Bytes) : Bytes :=
  ByteOrder.big.encode 4 content.length ++ (content ++ check)

section

variable {content check : Bytes}

theorem declared_enclosed (hp : Plausible content.length) (rest : Bytes) :
    declared (enclosed content check ++ rest) = content.length := by
  rw [declared, enclosed, List.append_assoc, List.take_left' (ByteOrder.length_encode .big 4 _),
    ByteOrder.decode_encode]
  have hmax := hp.2
  simp only [maxFrame, envelope] at hmax
  exact Nat.mod_eq_of_lt (by omega)

theorem framedContent_enclosed (hp : Plausible content.length) (rest : Bytes) :
    framedContent (enclosed content check ++ rest) = content := by
  rw [framedContent, declared_enclosed hp, enclosed, List.append_assoc, List.append_assoc]
  exact (Bytes.slice_append_right _ (ByteOrder.length_encode .big 4 _) 0 _).trans
    (Bytes.slice_append_self _ rfl)

theorem framedCheck_enclosed (hp : Plausible content.length) (hcheck : check.length = 4)
    (rest : Bytes) : framedCheck (enclosed content check ++ rest) = ByteOrder.big.decode check := by
  rw [framedCheck, declared_enclosed hp, enclosed, List.append_assoc, List.append_assoc,
    Bytes.slice_append_right _ (ByteOrder.length_encode .big 4 _)]
  have hstored := Bytes.slice_append_right (check ++ rest) (rfl : content.length = _) 0 4
  rw [Nat.add_zero] at hstored
  rw [hstored, Bytes.slice_append_self rest hcheck]

end

theorem frame_eq (b : Block) :
    b.frame = enclosed b.content (ByteOrder.big.encode 4 (crc32 b.content).toNat) := by
  rw [frame, enclosed, length_content, List.append_assoc]

/-- The length of a content is plausible if the frame is not too large. -/
theorem plausible_content {b : Block} (h : b.frameSize ≤ maxFrame) :
    Plausible b.content.length := by
  simp only [frameSize, overhead] at h
  rw [length_content]
  simp only [Plausible, fixedContent, envelope]
  omega

theorem declared_frame (b : Block) (rest : Bytes) (h : b.frameSize ≤ maxFrame) :
    declared (b.frame ++ rest) = fixedContent + b.payload.length := by
  rw [frame_eq, declared_enclosed (plausible_content h), length_content]

theorem framedContent_frame (b : Block) (rest : Bytes) (h : b.frameSize ≤ maxFrame) :
    framedContent (b.frame ++ rest) = b.content := by
  rw [frame_eq, framedContent_enclosed (plausible_content h)]

theorem framedCheck_frame (b : Block) (rest : Bytes) (h : b.frameSize ≤ maxFrame) :
    framedCheck (b.frame ++ rest) = (crc32 b.content).toNat := by
  rw [frame_eq, framedCheck_enclosed (plausible_content h) (ByteOrder.length_encode .big 4 _),
    ByteOrder.decode_encode]
  exact Nat.mod_eq_of_lt (crc32 b.content).toNat_lt

/-- The content of a block says that block. -/
theorem ofContent_content (packed : Bool) (b : Block) :
    ofContent packed b.content = { b with packed := packed } := by
  have hc : b.content.take 4 = ByteOrder.big.encode 4 b.count.toNat := by
    rw [content, List.append_assoc]
    exact List.take_left' (ByteOrder.length_encode .big 4 _)
  have ht : b.content.slice 4 8 = ByteOrder.big.encode 8 b.timestamp.toNat := by
    rw [content, List.append_assoc]
    exact (Bytes.slice_append_right _ (ByteOrder.length_encode .big 4 _) 0 8).trans
      (Bytes.slice_append_self _ (ByteOrder.length_encode .big 8 _))
  have hp : b.content.drop fixedContent = b.payload := by
    rw [content]
    exact List.drop_left' (by simp [fixedContent])
  rw [ofContent, hc, ht, hp, ByteOrder.decode_encode, ByteOrder.decode_encode]
  have hcount : (b.count.toNat % 256 ^ 4).toUInt32 = b.count := by
    rw [Nat.mod_eq_of_lt b.count.toNat_lt]
    exact UInt32.ofNat_toNat
  have htime : (b.timestamp.toNat % 256 ^ 8).toUInt64 = b.timestamp := by
    rw [Nat.mod_eq_of_lt b.timestamp.toNat_lt]
    exact UInt64.ofNat_toNat
  rw [hcount, htime]

/-- **The block of a frame comes out of it, whatever follows.** -/
theorem decode_frame (packed : Bool) (b : Block) (rest : Bytes) (h : b.frameSize ≤ maxFrame) :
    decode packed (b.frame ++ rest) = .ok ({ b with packed := packed }, b.frameSize) := by
  have hsize : fixedContent + b.payload.length + envelope = b.frameSize := by
    simp only [fixedContent, envelope, frameSize, overhead]
    omega
  have hplaus : Plausible (fixedContent + b.payload.length) :=
    length_content b ▸ plausible_content h
  have hlen : (b.frame ++ rest).length = b.frameSize + rest.length := by
    rw [List.length_append, length_frame]
  rw [decode_eq, declared_frame b rest h, framedContent_frame b rest h,
    framedCheck_frame b rest h, hlen, hsize, ofContent_content,
    if_neg (by simp only [frameSize]; omega), if_neg (not_not_intro hplaus),
    if_neg (by omega), if_neg (not_not_intro rfl)]

/-! ### Sums over blocks -/

/-- How many samples some blocks have, counted in a word of 64 bits. -/
def total : List Block → UInt64
  | [] => 0
  | b :: bs => b.count.toUInt64 + total bs

@[simp] theorem total_nil : total [] = 0 := rfl

@[simp] theorem total_cons (b : Block) (bs : List Block) :
    total (b :: bs) = b.count.toUInt64 + total bs := rfl

theorem total_append (as bs : List Block) : total (as ++ bs) = total as + total bs := by
  induction as with
  | nil => rw [List.nil_append, total_nil, UInt64.zero_add]
  | cons a as ih => rw [List.cons_append, total_cons, total_cons, ih, UInt64.add_assoc]

end Block

end IqTape
