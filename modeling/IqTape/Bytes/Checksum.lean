import IqTape.Bytes.Word

/-!
# The 32-bit cyclic checksum

The checksum of IEEE 802.3, least significant bit first: the register starts
with all ones, takes in a byte by exclusive or, moves eight places to the right
while feeding back the reversed polynomial, and is inverted at the end.

## Main definitions

* `Crc.shift` — one place to the right, with feedback.
* `Crc.absorb` — one byte taken into the register.
* `crc32` — the checksum of a string of bytes.

## Main results

* `Crc.run_append` — the register after a concatenation is reached in two legs.
* `Crc.shift_xor` — a shift is linear in exclusive or.
-/

namespace IqTape

namespace Crc

/-- The generator polynomial with its bits reversed, the top one left out. -/
def polynomial : UInt32 := 0xEDB88320

/-- One place to the right; a one that falls out feeds the polynomial back. -/
def shift (c : UInt32) : UInt32 :=
  if c &&& 1 = 1 then (c >>> 1) ^^^ polynomial else c >>> 1

/-- The register after one more byte. -/
def absorb (c : UInt32) (b : UInt8) : UInt32 :=
  shift (shift (shift (shift (shift (shift (shift (shift (c ^^^ b.toUInt32))))))))

/-- The register after a string of bytes. -/
def run (c : UInt32) (bs : Bytes) : UInt32 := bs.foldl absorb c

/-- The register after the first `n` bytes of a string. -/
def runFirst : UInt32 → Nat → Bytes → UInt32
  | c, 0, _ => c
  | c, _ + 1, [] => c
  | c, n + 1, b :: bs => runFirst (absorb c b) n bs

/-! ### Shifts -/

theorem and_one_eq_one_iff (c : UInt32) : c &&& 1 = 1 ↔ c.toNat % 2 = 1 := by
  rw [← UInt32.toNat_inj, UInt32.toNat_and, UInt32.toNat_one, Nat.and_one_is_mod]

theorem shift_of_even {c : UInt32} (h : c.toNat % 2 = 0) : shift c = c >>> 1 :=
  if_neg fun hodd => by rw [and_one_eq_one_iff] at hodd; omega

theorem shift_of_odd {c : UInt32} (h : c.toNat % 2 = 1) : shift c = (c >>> 1) ^^^ polynomial :=
  if_pos ((and_one_eq_one_iff c).2 h)

/-- A shift is linear in exclusive or. -/
theorem shift_xor (c d : UInt32) : shift (c ^^^ d) = shift c ^^^ shift d := by
  have hodd : (c ^^^ d).toNat % 2 = 1 ↔ ¬(c.toNat % 2 = 1 ↔ d.toNat % 2 = 1) := by
    rw [UInt32.toNat_xor, Nat.xor_mod_two_eq_one]
  rcases Nat.mod_two_eq_zero_or_one c.toNat with hc | hc <;>
    rcases Nat.mod_two_eq_zero_or_one d.toNat with hd | hd
  · rw [shift_of_even hc, shift_of_even hd, shift_of_even (by omega), UInt32.shiftRight_xor]
  · rw [shift_of_even hc, shift_of_odd hd, shift_of_odd (by omega), UInt32.shiftRight_xor,
      UInt32.xor_assoc]
  · rw [shift_of_odd hc, shift_of_even hd, shift_of_odd (by omega), UInt32.shiftRight_xor,
      UInt32.xor_assoc, UInt32.xor_assoc, UInt32.xor_comm _ polynomial]
  · -- The polynomial is fed back twice, which is not at all.
    have htwice (x y p : UInt32) : x ^^^ p ^^^ (y ^^^ p) = x ^^^ y := by
      rw [UInt32.xor_comm y p, UInt32.xor_assoc, ← UInt32.xor_assoc p p y, UInt32.xor_self,
        UInt32.zero_xor]
    rw [shift_of_odd hc, shift_of_odd hd, shift_of_even (by omega), UInt32.shiftRight_xor, htwice]

/-! ### Runs -/

@[simp] theorem run_nil (c : UInt32) : run c [] = c := rfl

@[simp] theorem run_cons (c : UInt32) (b : UInt8) (bs : Bytes) :
    run c (b :: bs) = run (absorb c b) bs := rfl

theorem run_append (c : UInt32) (as bs : Bytes) : run c (as ++ bs) = run (run c as) bs :=
  List.foldl_append

theorem runFirst_eq_run_take (c : UInt32) (n : Nat) (bs : Bytes) :
    runFirst c n bs = run c (bs.take n) := by
  induction n generalizing c bs with
  | zero => simp [runFirst]
  | succ n ih =>
    cases bs with
    | nil => simp [runFirst]
    | cons b bs => simp [runFirst, ih]

end Crc

/-- The checksum of a string of bytes. -/
def crc32 (bs : Bytes) : UInt32 := ~~~ (Crc.run 0xFFFFFFFF bs)

/-- The checksum of the first `n` bytes, without cutting them out. -/
def crc32First (n : Nat) (bs : Bytes) : UInt32 := ~~~ (Crc.runFirst 0xFFFFFFFF n bs)

theorem crc32First_eq (n : Nat) (bs : Bytes) : crc32First n bs = crc32 (bs.take n) := by
  rw [crc32First, crc32, Crc.runFirst_eq_run_take]

end IqTape
