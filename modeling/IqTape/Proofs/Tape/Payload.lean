import IqTape.Proofs.Lz4.Reach
import IqTape.Tape.Reader

/-!
# Packed payloads come back

Nothing is asked of a compressor but that the packed block it chooses rebuilds its
input.  The size in front of the block is then never refused.

## Main definitions

* `Lz4.Packer.Rebuilds` — the block that a compressor chooses rebuilds its input.
* `Block.IsWhole` — a raw block has the bytes that its samples take.

## Main results

* `Payload.unpack_pack` — a packed payload comes back.
* `Block.unpack_pack`, `Block.accept_of_unpack` — what a raw block is read back as, once it
  has been packed: itself if it is whole, and nothing if not.
-/

namespace IqTape

/-- Whether the packed block that a compressor chooses rebuilds its input. -/
def Lz4.Packer.Rebuilds (packer : Lz4.Packer) (raw : Bytes) : Prop :=
  Lz4.decodeBlock raw.length (packer.choose raw) = some raw

instance (packer : Lz4.Packer) (raw : Bytes) : Decidable (packer.Rebuilds raw) :=
  inferInstanceAs (Decidable (_ = _))

namespace Payload

/-- **A packed payload comes back**, whatever compressor has packed it. -/
theorem unpack_pack {packer : Lz4.Packer} {raw packed : Bytes}
    (hp : pack raw packer = some packed) (hr : packer.Rebuilds raw) :
    unpack packed = .ok raw := by
  unfold pack at hp
  split at hp
  · cases hp
  · next hmax =>
    rw [Option.some.injEq] at hp
    subst hp
    have hsize := ByteOrder.length_encode .little prefixSize raw.length
    have hcov : (Bytes.covers (ByteOrder.little.encode prefixSize raw.length ++
        packer.choose raw) prefixSize) = true := by
      rw [Bytes.covers_iff, List.length_append, hsize]
      omega
    have hlen : ByteOrder.little.decode ((ByteOrder.little.encode prefixSize raw.length ++
        packer.choose raw).take prefixSize) = raw.length := by
      rw [List.take_left' hsize, ByteOrder.decode_encode]
      refine Nat.mod_eq_of_lt ?_
      simp only [prefixSize, maxRaw] at hmax ⊢
      omega
    have hblock : (ByteOrder.little.encode prefixSize raw.length ++
        packer.choose raw).drop prefixSize = packer.choose raw := List.drop_left' hsize
    have hreach : ¬(maxRaw < raw.length ∨ reach (packer.choose raw).length < raw.length) := by
      have := Lz4.le_of_decodeBlock hr
      unfold reach
      omega
    unfold unpack
    rw [hcov, hlen, hblock]
    simp only [Bool.not_true, Bool.false_eq_true, if_false, if_neg hreach]
    split
    · next hzero => rw [List.eq_nil_of_length_eq_zero hzero]
    · rw [hr]

end Payload

namespace Block

/-- Whether a block is raw and has the bytes that its samples take. -/
structure IsWhole (format : SampleFormat) (b : Block) : Prop where
  /-- The payload is not packed. -/
  raw : b.packed = false
  /-- The payload has the right size. -/
  size : b.count.toNat * format.bytesPerSample = b.payload.length

variable {format : SampleFormat} {b stored : Block}

instance (format : SampleFormat) (b : Block) : Decidable (b.IsWhole format) :=
  decidable_of_iff (b.packed = false ∧ b.count.toNat * format.bytesPerSample = b.payload.length)
    ⟨fun h => ⟨h.1, h.2⟩, fun h => ⟨h.raw, h.size⟩⟩

/-- A block that has been packed is unpacked to what it was. -/
theorem unpack_pack {packer : Lz4.Packer} (hraw : b.packed = false)
    (hp : b.pack packer = .ok stored) (hr : packer.Rebuilds b.payload) :
    stored.packed = true ∧ stored.unpack = .ok b := by
  unfold pack at hp
  rw [hraw] at hp
  simp only [Bool.false_eq_true, if_false] at hp
  split at hp
  · next payload hpack =>
    cases hp
    refine ⟨rfl, ?_⟩
    unfold unpack
    rw [Payload.unpack_pack hpack hr]
    obtain ⟨timestamp, count, raw, packed⟩ := b
    cases hraw
    rfl
  · cases hp

theorem unpack_raw (hraw : b.packed = false) : b.unpack = .ok b := by
  rw [unpack, hraw]
  rfl

/-- Of the raw blocks, the whole ones are accepted as they are. -/
theorem accept_of_unpack (hraw : b.packed = false) (hu : stored.unpack = .ok b) :
    stored.accept format = if b.IsWhole format then .ok b else .error .formatViolation := by
  rw [accept, hu]
  simp only [bind, Except.bind]
  by_cases hw : b.IsWhole format
  · have hvalid : b.validate format = .ok () := if_pos (.inr hw.size)
    rw [hvalid, if_pos hw]
    rfl
  · have hrefused : b.validate format = .error .formatViolation := by
      refine if_neg ?_
      rintro (hpacked | hsize)
      · rw [hraw] at hpacked
        cases hpacked
      · exact hw ⟨hraw, hsize⟩
    rw [hrefused, if_neg hw]

end Block

end IqTape
