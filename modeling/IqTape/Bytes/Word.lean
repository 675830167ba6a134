/-!
# Fixed-width words in bytes

A word of `w` bytes is a natural number below `256 ^ w`, stored with its least
significant byte first or last.  Both directions are defined on naturals, so
that one pair of laws serves every width: `decode_encode` says that a number
comes back modulo `256 ^ w`, and `encode_decode` that the bytes come back as
they were.

## Main definitions

* `Bytes` — a string of bytes.
* `ByteOrder` — which end of a word comes first.
* `ByteOrder.encode`, `ByteOrder.decode` — a number to `w` bytes, and back.
* `Bytes.slice` — the bytes of a field at a fixed place.
* `Bytes.covers` — whether a string holds at least `n` bytes, looking no further.

## Main results

* `ByteOrder.decode_encode`, `ByteOrder.encode_decode` — the two are inverse.
* `Bytes.covers_iff` — `covers` is a comparison with the length.
* `toUInt64_add` — a counter in a word goes round with the number that it counts.
-/

namespace IqTape

-- A power and a zero are the core library's everywhere, so that a definition means the same
-- whatever else is in scope.
attribute [instance (2000), default_instance 20000] instPowNat
attribute [instance (2000)] Zero.ofOfNat0

/-- A string of bytes. -/
abbrev Bytes := List UInt8

namespace Bytes

/-- The `n` bytes that start at position `start`. -/
def slice (bs : Bytes) (start n : Nat) : Bytes := (bs.drop start).take n

/-- Whether the string holds at least `n` bytes; it never looks past the `n`-th. -/
def covers : Bytes → Nat → Bool
  | _, 0 => true
  | [], _ + 1 => false
  | _ :: bs, n + 1 => covers bs n

@[simp] theorem covers_iff (bs : Bytes) (n : Nat) : bs.covers n = true ↔ n ≤ bs.length := by
  induction n generalizing bs with
  | zero => simp [covers]
  | succ n ih =>
    cases bs with
    | nil => simp [covers]
    | cons b bs => simp [covers, ih]

end Bytes

/-- Which end of a word is stored first. -/
inductive ByteOrder
  /-- The most significant byte comes first. -/
  | big
  /-- The least significant byte comes first. -/
  | little
  deriving DecidableEq, Repr, Inhabited

namespace ByteOrder

/-- The `w` low bytes of a number, least significant first. -/
def lowFirst : Nat → Nat → Bytes
  | 0, _ => []
  | w + 1, n => UInt8.ofNat n :: lowFirst w (n / 256)

/-- The number whose bytes are given least significant first. -/
def ofLowFirst : Bytes → Nat
  | [] => 0
  | b :: bs => b.toNat + 256 * ofLowFirst bs

/-- A number as `w` bytes; what does not fit is dropped from the top. -/
def encode : ByteOrder → Nat → Nat → Bytes
  | .little, w, n => lowFirst w n
  | .big, w, n => (lowFirst w n).reverse

/-- The number a string of bytes stands for. -/
def decode : ByteOrder → Bytes → Nat
  | .little, bs => ofLowFirst bs
  | .big, bs => ofLowFirst bs.reverse

/-! ### The two directions are inverse -/

@[simp] theorem length_lowFirst (w n : Nat) : (lowFirst w n).length = w := by
  induction w generalizing n with
  | zero => rfl
  | succ w ih => simp [lowFirst, ih]

theorem ofLowFirst_lowFirst (w n : Nat) : ofLowFirst (lowFirst w n) = n % 256 ^ w := by
  induction w generalizing n with
  | zero => simp [lowFirst, ofLowFirst, Nat.mod_one]
  | succ w ih =>
    rw [lowFirst, ofLowFirst, ih, Nat.pow_succ, Nat.mul_comm (256 ^ w) 256, Nat.mod_mul]
    simp

theorem lowFirst_ofLowFirst (bs : Bytes) : lowFirst bs.length (ofLowFirst bs) = bs := by
  induction bs with
  | nil => rfl
  | cons b bs ih =>
    have hb : b.toNat < 256 := b.toNat_lt
    have hdiv : (b.toNat + 256 * ofLowFirst bs) / 256 = ofLowFirst bs := by omega
    have hlow : UInt8.ofNat (b.toNat + 256 * ofLowFirst bs) = b := by
      apply UInt8.toNat_inj.1
      simp only [UInt8.toNat_ofNat']
      omega
    rw [List.length_cons, lowFirst, ofLowFirst, hdiv, ih, hlow]

theorem ofLowFirst_lt (bs : Bytes) : ofLowFirst bs < 256 ^ bs.length := by
  induction bs with
  | nil => simp [ofLowFirst]
  | cons b bs ih =>
    have hb : b.toNat < 256 := b.toNat_lt
    rw [ofLowFirst, List.length_cons, Nat.pow_succ]
    omega

@[simp] theorem length_encode (o : ByteOrder) (w n : Nat) : (o.encode w n).length = w := by
  cases o <;> simp [encode]

/-- A number comes back from its bytes, less what did not fit. -/
theorem decode_encode (o : ByteOrder) (w n : Nat) : o.decode (o.encode w n) = n % 256 ^ w := by
  cases o <;> simp [encode, decode, ofLowFirst_lowFirst]

/-- Bytes come back from the number they stand for. -/
theorem encode_decode (o : ByteOrder) (bs : Bytes) : o.encode bs.length (o.decode bs) = bs := by
  cases o with
  | little => exact lowFirst_ofLowFirst bs
  | big =>
    have h := lowFirst_ofLowFirst bs.reverse
    rw [List.length_reverse] at h
    simp [encode, decode, h]

theorem decode_lt (o : ByteOrder) (bs : Bytes) : o.decode bs < 256 ^ bs.length := by
  cases o with
  | little => exact ofLowFirst_lt bs
  | big => simpa [decode] using ofLowFirst_lt bs.reverse

end ByteOrder

/-! ### Counters that go round -/

/-- A sum of numbers is a sum of words, however often it goes round. -/
theorem toUInt64_add (m n : Nat) : (m + n).toUInt64 = m.toUInt64 + n.toUInt64 :=
  UInt64.ofNat_add m n

/-- One is counted, and then some more. -/
theorem add_one_add_toUInt64 (w : UInt64) (n : Nat) :
    w + 1 + n.toUInt64 = w + (n + 1).toUInt64 := by
  rw [toUInt64_add, UInt64.add_assoc, UInt64.add_comm 1]
  rfl

end IqTape
