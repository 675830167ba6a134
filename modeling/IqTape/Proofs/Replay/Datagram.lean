import IqTape.Replay.Datagram

/-!
# Datagrams carry their block

A datagram is made of a block exactly if the block is not packed and its payload and its count
fit; and whoever gets the datagram finds the timestamp, the count and the payload in it.

## Main results

* `Datagram.encode_isOk_iff` — which blocks have a datagram.
* `Datagram.decode_of_encode` — what their datagrams carry.
-/

namespace IqTape

namespace Datagram

variable {b : Block} {datagram : Bytes}

/-- What a datagram is made of, and what is checked before. -/
theorem encode_eq_ok_iff : encode b = .ok datagram ↔
    b.packed = false ∧ b.payload.length ≤ maxPayload ∧ b.count.toNat ≤ 0xFFFF ∧
      ByteOrder.big.encode 8 b.timestamp.toNat ++ ByteOrder.big.encode 2 b.count.toNat ++
        b.payload = datagram := by
  unfold encode
  cases b.packed with
  | true => simp
  | false =>
    split
    · next h => cases h
    · split
      · next h =>
        constructor
        · nofun
        · rintro ⟨-, hpayload, hcount, -⟩
          omega
      · next h =>
        have hfits : b.payload.length ≤ maxPayload ∧ b.count.toNat ≤ 0xFFFF := by omega
        simp [hfits]

/-- **Which blocks have a datagram.** -/
theorem encode_isOk_iff (b : Block) : (∃ datagram, encode b = .ok datagram) ↔
    b.packed = false ∧ b.payload.length ≤ maxPayload ∧ b.count.toNat ≤ 0xFFFF := by
  simp only [encode_eq_ok_iff]
  exact ⟨fun ⟨_, hpacked, hpayload, hcount, _⟩ => ⟨hpacked, hpayload, hcount⟩,
    fun ⟨hpacked, hpayload, hcount⟩ => ⟨_, hpacked, hpayload, hcount, rfl⟩⟩

theorem length_of_encode (h : encode b = .ok datagram) :
    datagram.length = headerSize + b.payload.length := by
  obtain ⟨-, -, -, rfl⟩ := encode_eq_ok_iff.1 h
  rw [List.length_append, List.length_append, ByteOrder.length_encode, ByteOrder.length_encode]
  rfl

/-- **A datagram carries the timestamp, the count and the payload of its block**, and the count
is not cut off. -/
theorem decode_of_encode (h : encode b = .ok datagram) :
    decode datagram = .ok ⟨b.timestamp, b.count.toUInt16, b.payload⟩ ∧
      b.count.toUInt16.toNat = b.count.toNat := by
  have hlen := length_of_encode h
  obtain ⟨-, -, hcount, rfl⟩ := encode_eq_ok_iff.1 h
  have hfits : b.count.toNat % 2 ^ 16 = b.count.toNat := Nat.mod_eq_of_lt (by omega)
  refine ⟨?_, hfits⟩
  have hcovers : Bytes.covers (ByteOrder.big.encode 8 b.timestamp.toNat ++
      ByteOrder.big.encode 2 b.count.toNat ++ b.payload) headerSize = true := by
    rw [Bytes.covers_iff, hlen]
    exact Nat.le_add_right _ _
  rw [decode, hcovers, List.append_assoc]
  have htime : (ByteOrder.big.encode 8 b.timestamp.toNat ++ (ByteOrder.big.encode 2 b.count.toNat ++
      b.payload)).take 8 = ByteOrder.big.encode 8 b.timestamp.toNat :=
    List.take_left' (ByteOrder.length_encode _ _ _)
  have hslice : Bytes.slice (ByteOrder.big.encode 8 b.timestamp.toNat ++
      (ByteOrder.big.encode 2 b.count.toNat ++ b.payload)) 8 2 =
        ByteOrder.big.encode 2 b.count.toNat := by
    rw [Bytes.slice, List.drop_left' (ByteOrder.length_encode _ _ _),
      List.take_left' (ByteOrder.length_encode _ _ _)]
  have hpayload : (ByteOrder.big.encode 8 b.timestamp.toNat ++
      (ByteOrder.big.encode 2 b.count.toNat ++ b.payload)).drop headerSize = b.payload := by
    rw [← List.append_assoc, List.drop_left' (by simp [headerSize])]
  rw [htime, hslice, hpayload, ByteOrder.decode_encode, ByteOrder.decode_encode]
  have hstamp : (b.timestamp.toNat % 256 ^ 8).toUInt64 = b.timestamp := by
    rw [Nat.mod_eq_of_lt b.timestamp.toNat_lt]
    exact UInt64.ofNat_toNat
  have hword : (b.count.toNat % 256 ^ 2).toUInt16 = b.count.toUInt16 := by
    rw [show 256 ^ 2 = 2 ^ 16 from rfl, hfits]
    exact UInt16.toNat_inj.1 (by simp [hfits])
  rw [hstamp, hword]
  rfl

end Datagram

end IqTape
