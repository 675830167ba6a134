import IqTape.Bytes.Word

/-!
# Rounding a quotient

A quotient of naturals is rounded to a natural number, to the nearest with ties
to the even neighbour or upwards, and its binary magnitude is found.

## Main definitions

* `roundEven`, `roundUp` — the nearest natural number to `num / den`; a tie goes
  to the even neighbour, or up.
* `magnitude` — the exponent of the power of two just at or below `num / den`.
* `scaled` — a quotient divided by a power of two, as a quotient.

## Main results

* `two_mul_roundEven_le`, `le_two_mul_roundEven` — the result is within a half.
-/

namespace IqTape

/-- The nearest natural number to `num / den`; a tie goes to the even neighbour. -/
def roundEven (num den : Nat) : Nat :=
  let q := num / den
  let r := 2 * (num % den)
  if r < den then q
  else if den < r then q + 1
  else if q % 2 = 0 then q else q + 1

/-- The nearest natural number to `num / den`; a tie goes up. -/
def roundUp (num den : Nat) : Nat := (2 * num + den) / (2 * den)

/-- The result is at most a half too large. -/
theorem two_mul_roundEven_le {num den : Nat} (h : 0 < den) :
    2 * (roundEven num den * den) ≤ 2 * num + den := by
  have hdiv : num / den * den + num % den = num := by
    rw [Nat.mul_comm]; exact Nat.div_add_mod num den
  have hlt := Nat.mod_lt num h
  unfold roundEven
  simp only
  split
  · omega
  · split
    · rw [Nat.add_mul, Nat.one_mul]; omega
    · split
      · omega
      · rw [Nat.add_mul, Nat.one_mul]; omega

/-- The result is at most a half too small. -/
theorem le_two_mul_roundEven {num den : Nat} (h : 0 < den) :
    2 * num ≤ 2 * (roundEven num den * den) + den := by
  have hdiv : num / den * den + num % den = num := by
    rw [Nat.mul_comm]; exact Nat.div_add_mod num den
  have hlt := Nat.mod_lt num h
  unfold roundEven
  simp only
  split
  · omega
  · split
    · rw [Nat.add_mul, Nat.one_mul]; omega
    · split
      · omega
      · rw [Nat.add_mul, Nat.one_mul]; omega

/-- The quotient `num / den` over `2 ^ q`, again as numerator and denominator. -/
def scaled (num den : Nat) (q : Int) : Nat × Nat :=
  if 0 ≤ q then (num, den * 2 ^ q.toNat) else (num * 2 ^ (-q).toNat, den)

/-- The exponent of the power of two at or just below `num / den`. -/
def magnitude (num den : Nat) : Int :=
  let k : Int := (Nat.log2 num : Int) - (Nat.log2 den : Int)
  let (a, b) := scaled num den k
  if b ≤ a then k else k - 1

end IqTape
