import IqTape.Proofs.Replay.Datagram
import IqTape.Proofs.Tape.Codec
import IqTape.Proofs.Tape.Sink

/-!
# Datagrams and blocks determine each other

A datagram is made in a buffer that still holds the one before.  The buffer is given the size of
the new datagram, and the fields are written over whatever is left in it, so that nothing of the
old content remains; of a block that has no datagram nothing is written.  A datagram holds its
block and nothing else: the limits of the payload and of the header add up to the limit of a
datagram, so that every string of bytes that is long enough for the header and not too long for a
datagram is the datagram of the block that is read from it.

## Main definitions

* `Datagram.encodeInto` — the datagram of a block, made in a buffer.
* `Datagram.decodeInto` — the fields of a datagram, read into variables.
* `Datagram.block` — the block that a datagram carries.

## Main results

* `Datagram.encodeInto_eq`, `Datagram.decodeInto_eq` — what was there before makes no difference.
* `Datagram.encode_block_of_decode` — the bytes that fields were read from are their datagram.
* `Datagram.there_and_back` — **the two are inverse to each other on all that can be sent**.
-/

namespace IqTape

/-- A buffer with its size changed: bytes are cut off behind, or there are zeros. -/
def Bytes.resized (bs : Bytes) (n : Nat) : Bytes := bs.take n ++ List.replicate (n - bs.length) 0

namespace Bytes

@[simp] theorem length_resized (bs : Bytes) (n : Nat) : (bs.resized n).length = n := by
  simp only [resized, List.length_append, List.length_take, List.length_replicate]
  omega

/-- Three fields, one behind the other, that have the size of a buffer leave nothing of what was
in it. -/
theorem overwrite_fields {bs a b c : Bytes} (h : bs.length = (a ++ b ++ c).length) :
    ((bs.overwrite 0 a).overwrite a.length b).overwrite (a ++ b).length c = a ++ b ++ c := by
  have hfront := overwrite_append a b (Nat.zero_le bs.length)
  have hall := overwrite_append (a ++ b) c (Nat.zero_le bs.length)
  rw [Nat.zero_add] at hfront hall
  have hwhole := overwrite_front [] h
  rw [List.append_nil, List.append_nil] at hwhole
  rw [hfront, hall, hwhole]

end Bytes

namespace Datagram

/-- Make the datagram of a block in a buffer.  A block that has none leaves the buffer alone. -/
def encodeInto (b : Block) (out : Bytes) : Bytes × Option Fault :=
  if b.packed then (out, some .compression)
  else if maxPayload < b.payload.length ∨ 0xFFFF < b.count.toNat then
    (out, some .invalidBlockSize)
  else
    let room := out.resized (headerSize + b.payload.length)
    let dated := room.overwrite 0 (ByteOrder.big.encode 8 b.timestamp.toNat)
    let counted := dated.overwrite 8 (ByteOrder.big.encode 2 b.count.toNat)
    (counted.overwrite headerSize b.payload, none)

/-- Read the fields of a datagram into variables.  A datagram that is too short for its header
leaves them alone. -/
def decodeInto (bs : Bytes) (fields : Datagram) : Datagram × Option Fault :=
  if bs.length < headerSize then (fields, some .incomplete)
  else
    ({ fields with
        timestamp := (ByteOrder.big.decode (bs.take 8)).toUInt64
        count := (ByteOrder.big.decode (bs.slice 8 2)).toUInt16
        payload := bs.drop headerSize }, none)

/-- The block that a datagram carries. -/
def block (d : Datagram) : Block := ⟨d.timestamp, d.count.toUInt32, d.payload, false⟩

variable {b : Block} {bs : Bytes} {d : Datagram}

/-! ### Buffers -/

/-- **Nothing of what a buffer held remains** behind or between the fields of a datagram. -/
theorem encodeInto_eq (b : Block) (out : Bytes) :
    encodeInto b out = match encode b with
      | .ok bs => (bs, none)
      | .error f => (out, some f) := by
  unfold encodeInto encode
  cases b.packed with
  | true => rfl
  | false =>
    simp only [Bool.false_eq_true, if_false]
    split
    · rfl
    · have hdate := ByteOrder.length_encode .big 8 b.timestamp.toNat
      have hcount := ByteOrder.length_encode .big 2 b.count.toNat
      have hsize : (out.resized (headerSize + b.payload.length)).length =
          (ByteOrder.big.encode 8 b.timestamp.toNat ++ ByteOrder.big.encode 2 b.count.toNat ++
            b.payload).length := by
        simp only [Bytes.length_resized, List.length_append, hdate, hcount, headerSize]
      have hfields := Bytes.overwrite_fields hsize
      rw [List.length_append, hdate, hcount] at hfields
      exact congrArg (·, none) hfields

theorem decodeInto_eq (bs : Bytes) (fields : Datagram) :
    decodeInto bs fields = match decode bs with
      | .ok d => (d, none)
      | .error f => (fields, some f) := by
  unfold decodeInto decode
  by_cases hshort : bs.length < headerSize
  · have hcovers : bs.covers headerSize = false := by
      rw [Bool.eq_false_iff, ne_eq, Bytes.covers_iff]
      omega
    rw [if_pos hshort, hcovers]
    rfl
  · have hcovers : bs.covers headerSize = true := (Bytes.covers_iff _ _).2 (by omega)
    rw [if_neg hshort, hcovers]
    rfl

/-! ### From bytes to fields and back -/

/-- Bytes that are long enough for a header have fields. -/
theorem decode_of_le (h : headerSize ≤ bs.length) :
    decode bs = .ok ⟨(ByteOrder.big.decode (bs.take 8)).toUInt64,
      (ByteOrder.big.decode (bs.slice 8 2)).toUInt16, bs.drop headerSize⟩ := by
  rw [decode, (Bytes.covers_iff _ _).2 h]
  rfl

/-- **The bytes that fields were read from are their datagram**, unless they are too many. -/
theorem encode_block_of_decode (h : decode bs = .ok d) (hmax : bs.length ≤ maxSize) :
    encode d.block = .ok bs := by
  have hlong : headerSize ≤ bs.length := by
    refine Nat.le_of_not_lt fun hshort => ?_
    have hnone := decodeInto_eq bs default
    rw [decodeInto, if_pos hshort, h] at hnone
    cases hnone
  rw [decode_of_le hlong] at h
  cases h
  simp only [headerSize, maxSize] at hlong hmax
  have htime : (bs.take 8).length = 8 := List.length_take_of_le (by omega)
  have hcount : (bs.slice 8 2).length = 2 :=
    List.length_take_of_le (by rw [List.length_drop]; omega)
  have hfits := ByteOrder.decode_lt .big (bs.slice 8 2)
  rw [hcount] at hfits
  -- Two bytes lose nothing on their way through a word of sixteen bits and one of thirty-two.
  have hcount' : (ByteOrder.big.decode (bs.slice 8 2)).toUInt16.toUInt32.toNat =
      ByteOrder.big.decode (bs.slice 8 2) := by
    rw [UInt16.toNat_toUInt32]
    exact Nat.mod_eq_of_lt hfits
  refine encode_eq_ok_iff.2 ⟨rfl, ?_, ?_, ?_⟩
  · simp only [block, List.length_drop, headerSize, maxPayload, maxSize]
    omega
  · rw [block, hcount']
    omega
  · simp only [block]
    rw [ByteOrder.toNat_toUInt64_decode htime, hcount',
      ByteOrder.encode_decode_of_length htime, ByteOrder.encode_decode_of_length hcount,
      List.append_assoc]
    have hrest : bs.drop headerSize = bs.slice 10 (bs.length - 10) := by
      rw [Bytes.slice, List.take_of_length_le (Nat.le_of_eq List.length_drop)]
      rfl
    rw [hrest, Bytes.take_append_slices]
    exact List.take_of_length_le (by omega)

/-! ### Blocks without a datagram -/

/-- Whatever has no datagram is refused, and it is said why. -/
theorem encode_of_not_fits (h : ¬(b.packed = false ∧ b.count.toNat ≤ 65535 ∧
    b.payload.length ≤ 65497)) :
    encode b = .error (if b.packed then .compression else .invalidBlockSize) := by
  unfold encode
  cases hpacked : b.packed with
  | true => rfl
  | false =>
    have hlarge : maxPayload < b.payload.length ∨ 0xFFFF < b.count.toNat := by
      simp only [maxPayload, maxSize, headerSize]
      simp only [hpacked, true_and] at h
      omega
    rw [if_neg Bool.false_ne_true, if_neg Bool.false_ne_true, if_pos hlarge]

/-- **Datagrams and blocks determine each other.**  The datagram of a block that is not packed,
whose count has sixteen bits and whose payload is not too large is made whatever the buffer held,
has the size of the header and the payload, and gives the timestamp, the count and the payload
back; the fields of bytes that are neither too few for a header nor too many for a datagram are
read whatever the variables held, and their datagram is those bytes.  Every other block is refused
and leaves the buffer as it was, and fewer bytes leave the variables as they were. -/
theorem there_and_back :
    (∀ b out bs, encodeInto b out = (bs, none) ↔ encode b = .ok bs) ∧
      (∀ bs fields d, decodeInto bs fields = (d, none) ↔ decode bs = .ok d) ∧
      (∀ b out, b.packed = false → b.count.toNat ≤ 65535 → b.payload.length ≤ 65497 →
        ∃ bs, encodeInto b out = (bs, none) ∧
          bs.length = 10 + b.payload.length ∧ bs.length ≤ 65507 ∧
          ∀ fields, ∃ d, decodeInto bs fields = (d, none) ∧
            d.timestamp = b.timestamp ∧ d.count.toNat = b.count.toNat ∧
            d.payload = b.payload) ∧
      (∀ bs fields out, 10 ≤ bs.length → bs.length ≤ 65507 →
        ∃ d, decodeInto bs fields = (d, none) ∧ encodeInto d.block out = (bs, none)) ∧
      (∀ b out, ¬(b.packed = false ∧ b.count.toNat ≤ 65535 ∧ b.payload.length ≤ 65497) →
        encodeInto b out =
          (out, some (if b.packed then .compression else .invalidBlockSize))) ∧
      ∀ bs fields, bs.length < 10 → decodeInto bs fields = (fields, some .incomplete) := by
  have hmade (b out bs) : encodeInto b out = (bs, none) ↔ encode b = .ok bs := by
    rw [encodeInto_eq]
    cases encode b <;> simp
  have hread (bs fields d) : decodeInto bs fields = (d, none) ↔ decode bs = .ok d := by
    rw [decodeInto_eq]
    cases decode bs <;> simp
  refine ⟨hmade, hread, ?_, ?_, ?_, ?_⟩
  · intro b out hraw hcount hpayload
    obtain ⟨bs, hbs⟩ := (encode_isOk_iff b).2 ⟨hraw, hpayload, hcount⟩
    have hlength := length_of_encode hbs
    obtain ⟨hback, hwhole⟩ := decode_of_encode hbs
    refine ⟨bs, (hmade b out bs).2 hbs, hlength, ?_, fun fields => ?_⟩
    · simp only [headerSize] at hlength
      omega
    · exact ⟨_, (hread bs fields _).2 hback, rfl, hwhole, rfl⟩
  · intro bs fields out hmin hmax
    have hfields := decode_of_le hmin
    exact ⟨_, (hread bs fields _).2 hfields,
      (hmade _ out bs).2 (encode_block_of_decode hfields hmax)⟩
  · intro b out hno
    rw [encodeInto_eq, encode_of_not_fits hno]
  · intro bs fields hshort
    exact if_pos hshort

/-- A block with the largest count, made in a buffer that is too long; the largest datagram but for
one byte of its payload; a block that is one sample too many; and nine bytes. -/
theorem there_and_back_of_crowdedBuffer :
    let b : Block := ⟨0x0102030405060708, 65535, [1, 2, 3], false⟩
    let out : Bytes := List.replicate 20 0xFF
    let long : Bytes := List.replicate 65506 7
    let fields : Datagram := ⟨5, 6, [7]⟩
    (∃ bs, encodeInto b out = (bs, none) ∧ bs.length = 13 ∧
        ∃ d, decodeInto bs fields = (d, none) ∧ d.count.toNat = 65535 ∧ d.payload = [1, 2, 3]) ∧
      (∃ d, decodeInto long fields = (d, none) ∧ encodeInto d.block out = (long, none)) ∧
      encodeInto { b with count := 65536 } out = (out, some .invalidBlockSize) ∧
      decodeInto (long.take 9) fields = (fields, some .incomplete) := by
  intro b out long fields
  obtain ⟨-, -, hforth, hback, hrefused, hshort⟩ := there_and_back
  obtain ⟨bs, hmade, hlength, -, hread⟩ := hforth b out rfl (by decide) (by decide)
  obtain ⟨d, hfields, -, hcount, hpayload⟩ := hread fields
  have hlong : long.length = 65506 := List.length_replicate
  have htake : (long.take 9).length = 9 := List.length_take_of_le (by omega)
  refine ⟨⟨bs, hmade, hlength, d, hfields, hcount, hpayload⟩, ?_, ?_, ?_⟩
  · exact hback long fields out (by omega) (by omega)
  · exact hrefused { b with count := 65536 } out (by decide)
  · exact hshort (long.take 9) fields (by omega)

end Datagram

end IqTape
