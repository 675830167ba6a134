import IqTape.Proofs.Tape.Frame

/-!
# Frames and blocks determine each other

A frame holds nothing but its block, and a block has one frame.  So decoding takes back
what encoding has made and the other way round, encoding refuses exactly the blocks that no
frame holds, and a frame that is not there as a whole is never taken for another one.

## Main results

* `Block.frame_of_decode` — the bytes that a block came out of are its frame.
* `Block.decode_of_prefix` — bytes are missing from the front part of a frame.
* `Block.encode_decode_inverse` — **the codec is a bijection**.
-/

namespace IqTape

/-- Three fields, one behind the other, are the front of the bytes. -/
theorem Bytes.take_append_slices (bs : Bytes) (a b c : Nat) :
    bs.take a ++ (bs.slice a b ++ bs.slice (a + b) c) = bs.take (a + b + c) := by
  rw [Nat.add_assoc, List.take_add, List.take_add, List.drop_drop]
  rfl

/-- Bytes of the width of a word come back from the word. -/
theorem ByteOrder.encode_decode_of_length {o : ByteOrder} {bs : Bytes} {w : Nat}
    (h : bs.length = w) : o.encode w (o.decode bs) = bs := by
  subst h
  exact encode_decode o bs

/-- A number of eight bytes loses nothing in a word of sixty-four bits. -/
theorem ByteOrder.toNat_toUInt64_decode {o : ByteOrder} {bs : Bytes} (h : bs.length = 8) :
    (o.decode bs).toUInt64.toNat = o.decode bs := by
  have hlt := decode_lt o bs
  rw [h] at hlt
  exact Nat.mod_eq_of_lt hlt

/-- A number of four bytes loses nothing in a word of thirty-two. -/
theorem ByteOrder.toNat_toUInt32_decode {o : ByteOrder} {bs : Bytes} (h : bs.length = 4) :
    (o.decode bs).toUInt32.toNat = o.decode bs := by
  have hlt := decode_lt o bs
  rw [h] at hlt
  exact Nat.mod_eq_of_lt hlt

namespace Block

variable {packed : Bool} {bs : Bytes} {b : Block} {n : Nat}

/-! ### From bytes to a block and back -/

/-- The block of a content has that content. -/
theorem content_ofContent {c : Bytes} (hc : fixedContent ≤ c.length) :
    (ofContent packed c).content = c := by
  simp only [fixedContent] at hc
  have hcount : (c.take 4).length = 4 := List.length_take_of_le (by omega)
  have htime : (c.slice 4 8).length = 8 :=
    List.length_take_of_le (by rw [List.length_drop]; omega)
  simp only [content, ofContent]
  rw [ByteOrder.toNat_toUInt32_decode hcount, ByteOrder.toNat_toUInt64_decode htime,
    ByteOrder.encode_decode_of_length hcount, ByteOrder.encode_decode_of_length htime,
    List.append_assoc]
  have hrest : c.drop fixedContent = c.slice 12 (c.length - 12) := by
    rw [Bytes.slice, List.take_of_length_le (Nat.le_of_eq List.length_drop)]
    rfl
  rw [hrest, Bytes.take_append_slices]
  exact List.take_of_length_le (by omega)

/-- **The bytes that a block came out of are its frame.** -/
theorem frame_of_decode (h : decode packed bs = .ok (b, n)) :
    b.frame = bs.take n ∧ b.frameSize = n ∧ n ≤ maxFrame ∧ n ≤ bs.length ∧
      b.packed = packed := by
  obtain ⟨hlen, hp, hn, hc, rfl, rfl⟩ := decode_eq_ok_iff.1 h
  obtain ⟨hfixed, hmax⟩ := hp
  simp only [overhead, envelope, fixedContent] at hlen hn hfixed
  have hlength : (framedContent bs).length = declared bs :=
    List.length_take_of_le (by rw [List.length_drop]; omega)
  have hpayload : fixedContent + (ofContent packed (framedContent bs)).payload.length =
      declared bs := by
    simp only [ofContent, List.length_drop, hlength, fixedContent]
    omega
  have hfront : ByteOrder.big.encode 4 (declared bs) = bs.take 4 :=
    ByteOrder.encode_decode_of_length (List.length_take_of_le (by omega))
  have hback : ByteOrder.big.encode 4 (framedCheck bs) = bs.slice (4 + declared bs) 4 :=
    ByteOrder.encode_decode_of_length (List.length_take_of_le (by rw [List.length_drop]; omega))
  have hframe : (ofContent packed (framedContent bs)).frame = bs.take (declared bs + envelope) := by
    rw [frame_eq, content_ofContent (by rw [hlength]; exact hfixed), ← hc, enclosed, hlength,
      hfront, hback]
    rw [framedContent, Bytes.take_append_slices]
    congr 1
    simp only [envelope]
    omega
  have hsize : (ofContent packed (framedContent bs)).frameSize = declared bs + envelope := by
    rw [← hpayload]
    simp only [frameSize, overhead, fixedContent, envelope]
    omega
  exact ⟨hframe, hsize, hmax, hn, rfl⟩

/-! ### Frames that are not there as a whole -/

/-- **From the front part of a frame bytes are missing**, and nothing else is wrong. -/
theorem decode_of_prefix {p : Bytes} (hs : b.frameSize ≤ maxFrame) (hp : p <+: b.frame)
    (hne : p ≠ b.frame) : decode packed p = .error .incomplete := by
  have hlen : p.length < b.frameSize := by
    rw [← length_frame]
    exact Nat.lt_of_le_of_ne hp.length_le fun h => hne (hp.eq_of_length h)
  obtain ⟨more, hmore⟩ := hp
  rcases Nat.lt_or_ge p.length overhead with hshort | hlong
  · exact decode_of_short hshort
  · -- The length of the content is there, and it asks for more than is there.
    have hdeclared : declared p = fixedContent + b.payload.length := by
      rw [← declared_append more hlong, hmore]
      have hframe := declared_frame b [] hs
      rwa [List.append_nil] at hframe
    have hsize : fixedContent + b.payload.length + envelope = b.frameSize := by
      simp only [fixedContent, envelope, frameSize, overhead]
      omega
    have hplaus : Plausible (fixedContent + b.payload.length) :=
      length_content b ▸ plausible_content hs
    rw [decode_eq, hdeclared, hsize, if_neg (by omega), if_neg (not_not_intro hplaus), if_pos hlen]

/-! ### Encoding -/

theorem encode_of_le (h : b.frameSize ≤ maxFrame) : encode b = .ok b.frame :=
  if_neg (by omega)

/-- What has been encoded is a frame that is not too large. -/
theorem of_encode_eq_ok (h : encode b = .ok bs) : b.frameSize ≤ maxFrame ∧ bs = b.frame := by
  unfold encode at h
  split at h
  · cases h
  · cases h
    exact ⟨by omega, rfl⟩

/-- **The codec is a bijection between the blocks and the frames of a tape.**  The frame of a
block that is not too large gives the block back, whatever follows; the bytes that a block
came out of are what it is encoded as; a block is refused exactly if it comes out of no bytes
at all; and of a frame that is not there as a whole more bytes are needed. -/
theorem encode_decode_inverse (form : PayloadForm) :
    (∀ b rest, frameSize b ≤ maxFrame →
      ∃ bs, encode b = .ok bs ∧ decode form.packs (bs ++ rest) =
        .ok ({ b with packed := decide (form = .lz4) }, overhead + b.payload.length)) ∧
      (∀ bs b n, decode form.packs bs = .ok (b, n) →
        n ≤ bs.length ∧ encode b = .ok (bs.take n)) ∧
      (∀ b, encode b = .error .invalidBlockSize ↔
        ∀ bs n, decode form.packs bs ≠ .ok ({ b with packed := decide (form = .lz4) }, n)) ∧
      ∀ b bs p, encode b = .ok bs → p <+: bs → p ≠ bs →
        decode form.packs p = .error .incomplete := by
  refine ⟨?_, ?_, ?_, ?_⟩
  · intro b rest hs
    exact ⟨b.frame, encode_of_le hs, decode_frame form.packs b rest hs⟩
  · intro bs b n hd
    obtain ⟨hframe, hsize, hmax, hn, -⟩ := frame_of_decode hd
    refine ⟨hn, ?_⟩
    rw [encode_of_le (by rw [hsize]; exact hmax), hframe]
  · intro b
    constructor
    · intro hrefused bs n hd
      -- Whether the payload is packed makes no difference to the size of the frame.
      obtain ⟨-, hsize, hmax, -, -⟩ := frame_of_decode hd
      have hs : b.frameSize ≤ maxFrame := by
        rw [← hsize] at hmax
        exact hmax
      rw [encode_of_le hs] at hrefused
      cases hrefused
    · intro hnever
      refine if_pos (Nat.lt_of_not_le fun hs => ?_)
      exact hnever (b.frame ++ []) b.frameSize (decode_frame form.packs b [] hs)
  · intro b bs p hb hp hne
    obtain ⟨hs, rfl⟩ := of_encode_eq_ok hb
    exact decode_of_prefix hs hp hne

/-- A block of one sample, with three bytes behind its frame, and its frame without the last
byte. -/
theorem encode_decode_inverse_of_sample :
    let b : Block := ⟨7, 1, [1, 2, 3, 4], false⟩
    b.frameSize ≤ maxFrame ∧ encode b = .ok b.frame ∧
      decode true (b.frame ++ [9, 9, 9]) = .ok ({ b with packed := true }, 24) ∧
      b.frame.dropLast <+: b.frame ∧ b.frame.dropLast ≠ b.frame ∧
      decode true b.frame.dropLast = .error .incomplete := by
  intro b
  have hs : b.frameSize ≤ maxFrame := by decide
  obtain ⟨hforth, -, -, hpart⟩ := encode_decode_inverse .lz4
  obtain ⟨bs, hb, hd⟩ := hforth b [9, 9, 9] hs
  obtain ⟨-, rfl⟩ := of_encode_eq_ok hb
  have hp : b.frame.dropLast <+: b.frame := List.dropLast_prefix _
  have hne : b.frame.dropLast ≠ b.frame := by
    intro h
    have hlen := congrArg List.length h
    rw [List.length_dropLast, length_frame] at hlen
    cases hlen
  exact ⟨hs, hb, hd, hp, hne, hpart b b.frame b.frame.dropLast hb hp hne⟩

end Block

end IqTape
