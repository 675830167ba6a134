import IqTape.Proofs.Lz4.Written
import IqTape.Proofs.Tape.Payload

/-!
# The size in front of a packed payload

A packed payload whose size could not come from its block is refused before the block is
read.  No block is ever refused so by mistake: one that rebuilds a payload rebuilds at most
255 bytes for each of its own, whoever has packed it.  And a payload that is not refused has
the size that stands in front.

## Main results

* `Payload.unpack_of_decodeBlock` — a block that rebuilds a payload is unpacked.
* `Payload.of_unpack` — what has been unpacked was rebuilt by the block.
* `Payload.size_guard_admits` — **no good payload is refused**.
-/

namespace IqTape
namespace Payload

variable {raw block packed : Bytes}

/-- **A block that rebuilds a payload is unpacked**, with the size of the payload in front. -/
theorem unpack_of_decodeBlock (hmax : raw.length ≤ maxRaw)
    (h : Lz4.decodeBlock raw.length block = some raw) :
    unpack (ByteOrder.little.encode prefixSize raw.length ++ block) = .ok raw := by
  -- Some compressor might have chosen the block.
  let packer : Lz4.Packer := ⟨fun _ => block⟩
  have hpacked : pack raw packer =
      some (ByteOrder.little.encode prefixSize raw.length ++ block) := if_neg (by omega)
  exact unpack_pack hpacked h

/-- What has been unpacked was rebuilt by the block, unless the size in front is zero. -/
theorem of_unpack (h : unpack packed = .ok raw)
    (hpos : 0 < ByteOrder.little.decode (packed.take prefixSize)) :
    Lz4.decodeBlock (ByteOrder.little.decode (packed.take prefixSize)) (packed.drop prefixSize) =
      some raw := by
  unfold unpack at h
  simp only at h
  split at h
  · cases h
  · split at h
    · cases h
    · split at h
      · next hzero => omega
      · split at h
        · next hblock =>
          cases h
          exact hblock
        · cases h

/-- **No good payload is refused.**  A block that says a plan by the rules of the format, and any
other block that rebuilds a payload, is unpacked behind the size of the payload, which is within
its reach; and the block is so short that its length is a positive word of 32 bits.  What is
unpacked behind a size that is not zero has that size; it is what the block rebuilds, and what a
plan says that the block says. -/
theorem size_guard_admits :
    (∀ (p : Lz4.Plan) (block : Bytes), p.IsValid → p.IsSaidBy block → 1 ≤ p.expand.length →
      p.expand.length ≤ maxRaw →
        unpack (ByteOrder.little.encode prefixSize p.expand.length ++ block) = .ok p.expand ∧
          p.expand.length ≤ 255 * block.length + 16) ∧
      (∀ raw block : Bytes, 1 ≤ raw.length → raw.length ≤ maxRaw →
        Lz4.decodeBlock raw.length block = some raw →
          unpack (ByteOrder.little.encode prefixSize raw.length ++ block) = .ok raw ∧
            raw.length ≤ 255 * block.length + 16 ∧ block.length < 2 ^ 31) ∧
      ∀ packed raw : Bytes, unpack packed = .ok raw →
        0 < ByteOrder.little.decode (packed.take prefixSize) →
          Lz4.decodeBlock (ByteOrder.little.decode (packed.take prefixSize))
              (packed.drop prefixSize) = some raw ∧
            raw.length = ByteOrder.little.decode (packed.take prefixSize) ∧
            ∃ p : Lz4.Plan, p.IsSaidBy (packed.drop prefixSize) ∧ p.expand = raw := by
  have hreach {raw block : Bytes} (h : Lz4.decodeBlock raw.length block = some raw) :
      raw.length ≤ 255 * block.length + 16 :=
    Nat.le_add_right_of_le (Lz4.le_of_decodeBlock h)
  refine ⟨?_, ?_, ?_⟩
  · intro p block hp hsaid _ hmax
    have hblock : Lz4.decodeBlock p.expand.length block = some p.expand := by
      rw [Lz4.Plan.length_expand]
      exact Lz4.decodeBlock_of_isSaidBy hp hsaid
    exact ⟨unpack_of_decodeBlock hmax hblock, hreach hblock⟩
  · intro raw block _ hmax hblock
    refine ⟨unpack_of_decodeBlock hmax hblock, hreach hblock, ?_⟩
    have hlength := Lz4.length_le_of_decodeBlock hblock
    simp only [Lz4.bound, maxRaw] at hlength hmax
    omega
  · intro packed raw h hpos
    have hblock := of_unpack h hpos
    obtain ⟨p, hsaid, -, -, hexpand⟩ := Lz4.exists_plan_of_decodeBlock hblock
    exact ⟨hblock, Lz4.length_of_decodeBlock hblock, p, hsaid, hexpand⟩

/-- Ninety-six equal bytes: the first, a copy that runs into itself, and the last literals. -/
def silence : Lz4.Plan := ⟨[⟨[7], 1, 90⟩], [7, 7, 7, 7, 7]⟩

/-- They fit eleven bytes, and come back. -/
theorem size_guard_admits_silence :
    silence.IsValid ∧ silence.IsSaidBy silence.encode ∧ silence.encode.length = 11 ∧
      1 ≤ silence.expand.length ∧ silence.expand.length ≤ maxRaw ∧
      silence.expand.length = 96 ∧ silence.expand = List.replicate 96 7 ∧
      unpack (ByteOrder.little.encode prefixSize silence.expand.length ++ silence.encode) =
        .ok silence.expand ∧
      Lz4.decodeBlock silence.expand.length silence.encode = some silence.expand ∧
      silence.encode.length < 2 ^ 31 := by
  have hvalid : silence.IsValid := by decide +kernel
  have hsaid := silence.isSaidBy_encode
  have hshort : silence.encode.length = 11 := by decide +kernel
  have hlength : silence.expand.length = 96 := silence.length_expand
  have hpos : 1 ≤ silence.expand.length := by omega
  have hmax : silence.expand.length ≤ maxRaw := by rw [hlength]; decide
  have hseven : silence.expand = List.replicate 96 7 := by decide +kernel
  obtain ⟨hplan, hrebuilt, hback⟩ := size_guard_admits
  have hunpacked := (hplan silence silence.encode hvalid hsaid hpos hmax).1
  have hfront : (ByteOrder.little.encode prefixSize silence.expand.length ++
      silence.encode).take prefixSize =
        ByteOrder.little.encode prefixSize silence.expand.length :=
    List.take_left' (ByteOrder.length_encode _ _ _)
  have hsize : ByteOrder.little.decode ((ByteOrder.little.encode prefixSize
      silence.expand.length ++ silence.encode).take prefixSize) = silence.expand.length := by
    rw [hfront, hlength]
    decide
  obtain ⟨hblock, -, -⟩ := hback _ _ hunpacked (by rw [hsize]; omega)
  rw [hsize, List.drop_left' (ByteOrder.length_encode _ _ _)] at hblock
  exact ⟨hvalid, hsaid, hshort, hpos, hmax, hlength, hseven, hunpacked, hblock,
    (hrebuilt _ _ hpos hmax hblock).2.2⟩

end Payload
end IqTape
