import IqTape.Lz4.Decode

/-!
# How far a packed block reaches

Every byte of a packed block accounts for at most 255 rebuilt bytes: a literal for
itself, a byte of a long length for at most 255, and the token of a sequence for the
shortest copy and for what its two halves say.  So a block of `n` bytes never rebuilds
more than `255 * n`.

## Main results

* `Lz4.reach_readStep` — the bound for one sequence, and for the last literals.
* `Lz4.le_of_decodeBlock` — **the bound for a block**.
-/

namespace IqTape
namespace Lz4

/-- Each byte of a long length counts for at most 255. -/
theorem reach_readLength {keep total left n left' : Nat} {src rest : Bytes}
    (h : readLength keep total left src = some (n, left', rest)) :
    n + 255 * rest.length ≤ total + 255 * src.length := by
  induction src generalizing total left with
  | nil => rw [readLength] at h; cases h
  | cons b src ih =>
    have hb := b.toNat_lt
    rw [readLength] at h
    split at h
    · cases h
    · split at h
      · have := ih h
        rw [List.length_cons]
        omega
      · cases h
        rw [List.length_cons]
        omega

theorem reach_readTail {keep half left n left' : Nat} {src rest : Bytes}
    (h : readTail keep half left src = some (n, left', rest)) :
    n + 255 * rest.length ≤ half + 255 * src.length := by
  unfold readTail at h
  split at h
  · next hhalf =>
    subst hhalf
    exact reach_readLength h
  · cases h
    exact Nat.le_refl _

/-- How many bytes a step rebuilds. -/
def Step.made : Step → Nat
  | sequence s _ _ => s.literals.length + s.length
  | final literals => literals.length

/-- How many bytes are unread behind a step. -/
def Step.unread : Step → Nat
  | sequence _ _ rest => rest.length
  | final _ => 0

/-- Behind the literals, a copy counts for the bytes of its length and nineteen more. -/
theorem reach_readCopy {size made half left : Nat} {roomy : Bool} {literals src : Bytes}
    {step : Step} (hhalf : half ≤ 15)
    (h : readCopy size made half roomy literals left src = some step) :
    step.made + 255 * step.unread ≤ literals.length + 255 * src.length + 19 := by
  unfold readCopy at h
  simp only at h
  split at h
  · cases h
  · next extra left' rest htail =>
    have hreach := reach_readTail htail
    -- Two bytes are the distance; they count for nothing here.
    have hdrop := (List.drop_sublist 2 src).length_le
    have hmade : step = .sequence ⟨literals, ByteOrder.little.decode (src.take 2),
        extra + minMatch⟩ left' rest := by
      split at h
      · cases h
      · split at h
        · cases h; rfl
        · split at h
          · cases h
          · cases h; rfl
    subst hmade
    simp only [Step.made, Step.unread, minMatch]
    omega

/-- **A step rebuilds at most 255 bytes for each byte that it reads.** -/
theorem reach_readStep {size made left : Nat} {src : Bytes} {step : Step}
    (h : readStep size made left src = some step) :
    step.made + 255 * step.unread ≤ 255 * src.length := by
  cases src with
  | nil => rw [readStep] at h; cases h
  | cons t src =>
    have ht := t.toNat_lt
    have hcut (n : Nat) (bs : Bytes) : (bs.take n).length + (bs.drop n).length = bs.length := by
      rw [← List.length_append, List.take_append_drop]
    rw [List.length_cons]
    rw [readStep] at h
    split at h
    · -- A short run of literals is counted by the token alone.
      have hcopy := reach_readCopy (by omega) h
      have := hcut (t.toNat / 16) src
      omega
    · split at h
      · cases h
      · next run left' src' htail =>
        have hreach := reach_readTail htail
        split at h
        · split at h
          · cases h
            simp only [Step.made, Step.unread]
            omega
          · cases h
        · have hcopy := reach_readCopy (by omega) h
          have := hcut run src'
          omega

theorem reach_readSteps {size fuel made left made' : Nat} {src : Bytes} {found : List Sequence}
    {p : Plan} (h : readSteps size fuel made left src found = some (made', p)) :
    made' ≤ made + 255 * src.length := by
  induction fuel generalizing made left src found with
  | zero => rw [readSteps] at h; cases h
  | succ fuel ih =>
    rw [readSteps] at h
    split at h
    · cases h
    · next literals hstep =>
      have hreach := reach_readStep hstep
      simp only [Step.made, Step.unread] at hreach
      cases h
      omega
    · next s left' rest hstep =>
      have hreach := reach_readStep hstep
      have := ih h
      simp only [Step.made, Step.unread] at hreach
      omega

/-- **A packed block never rebuilds more than 255 bytes for each of its own.** -/
theorem le_of_decodeBlock {size : Nat} {block raw : Bytes}
    (h : decodeBlock size block = some raw) : size ≤ 255 * block.length := by
  unfold decodeBlock Plan.ofBlock? at h
  split at h
  · next made p hsteps =>
    have hreach := reach_readSteps hsteps
    split at h
    · next hsize => omega
    · cases h
  · cases h

end Lz4
end IqTape
