import IqTape.Tape.Reader

/-!
# Scanning a tape that is there as a whole

A reader holds a window on its source and has to decide at every step whether to
decode, to read on or to drop a byte.  With the whole body of a tape at hand there
is nothing to read on from: a block is decoded where it can be, and one byte is
dropped where it cannot, until too few bytes are left for a frame.

## Main definitions

* `Scan` — what is left of a body, and the counters.
* `Scan.next` — the next block.
* `Scan.drain` — all blocks, with the counters after each.

## Main results

* `Scan.next_of_short` — nothing comes out of fewer bytes than a frame has.
-/

namespace IqTape

/-- How far a scan has got. -/
structure Scan where
  /-- The bytes that have not been used. -/
  rest : Bytes
  /-- Whether a run of damage has been counted and goes on. -/
  resyncing : Bool
  counts : ReadCounts
  deriving DecidableEq, Repr, Inhabited

namespace Scan

/-- A scan of the body behind a header. -/
def start (body : Bytes) : Scan := ⟨body, false, .zero⟩

/-- One byte is dropped, because of some fault. -/
def drop (f : Fault) (s : Scan) : Scan :=
  let fresh := decide (f = .checksumMismatch) && !s.resyncing
  ⟨s.rest.drop 1, s.resyncing || fresh, s.counts.dropped fresh⟩

/-- The next block, or `none` when there is none; with the scan after it. -/
def next (h : Header) (s : Scan) : Option Block × Scan :=
  if _hc : s.rest.covers Block.overhead then
    match _he : Reader.examine h s.rest with
    | .good b size => (some b, ⟨s.rest.drop size, false, s.counts.returned b size⟩)
    | .bad size => next h ⟨s.rest.drop size, false, s.counts.refused size⟩
    | .nothing f => next h (s.drop f)
  else (none, s)
termination_by s.rest.length
decreasing_by
  all_goals
    rw [Bytes.covers_iff] at _hc
    simp only [Block.overhead] at _hc
  · have := Reader.examine_bad_pos _he
    simp only [List.length_drop]
    omega
  · simp only [drop, List.length_drop]
    omega

/-- The blocks that so many calls give, with the counters after each, and the scan
after the first call that gives none. -/
def drainFor (h : Header) : Nat → Scan → List (Block × ReadCounts) × Scan
  | 0, s => ([], s)
  | calls + 1, s =>
    match s.next h with
    | (none, s) => ([], s)
    | (some b, s) =>
      let (found, last) := drainFor h calls s
      ((b, s.counts) :: found, last)

/-- All blocks of a body, with the counters after each.  A frame has more than one
byte, so there are fewer blocks than bytes. -/
def drain (h : Header) (body : Bytes) : List (Block × ReadCounts) × Scan :=
  drainFor h (body.length + 1) (start body)

/-- Nothing comes out of fewer bytes than a frame has. -/
theorem next_of_short {h : Header} {s : Scan} (hs : s.rest.length < Block.overhead) :
    s.next h = (none, s) := by
  have hc : ¬s.rest.covers Block.overhead = true := by
    rw [Bytes.covers_iff]
    omega
  rw [next, dif_neg hc]

end Scan

end IqTape
