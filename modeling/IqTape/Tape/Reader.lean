import IqTape.Tape.Header
import IqTape.Tape.Payload
import IqTape.Tape.Source

/-!
# Reading a tape

A reader takes a tape apart from a window of bytes that it fills from a source
piece by piece.  The header is checked once, when the tape is opened.  Behind it
the reader decodes the block at the front of the window.  Where none can be
decoded it drops one byte and tries again, so that damage costs only the blocks
it touches; a damaged block never comes out, and shows only in the counters.

A run of damage is counted when the first checksum in it fails.  A frame that is
cut off by the end of the source is dropped without being counted.

## Main definitions

* `ReadCounts` — the counters.
* `Reader` — a window on a source.
* `Reader.openSource` — check the header of a source.
* `Reader.next` — the next block.
* `Reader.drain` — all blocks.
* `readAll` — open and drain.
-/

namespace IqTape

/-- What has come out of a tape, and what has not. -/
structure ReadCounts where
  blocks : UInt64
  /-- Runs of damage, and blocks whose payload was refused. -/
  corrupted : UInt64
  samples : UInt64
  /-- Framed bytes of the blocks that came out. -/
  processed : UInt64
  /-- Bytes that were dropped. -/
  skipped : UInt64
  deriving DecidableEq, Repr, Inhabited

namespace ReadCounts

def zero : ReadCounts := ⟨0, 0, 0, 0, 0⟩

/-- A block of a framed size came out. -/
def returned (c : ReadCounts) (b : Block) (size : Nat) : ReadCounts :=
  { c with
    blocks := c.blocks + 1
    samples := c.samples + b.count.toUInt64
    processed := c.processed + size.toUInt64 }

/-- A well-framed block was refused. -/
def refused (c : ReadCounts) (size : Nat) : ReadCounts :=
  { c with corrupted := c.corrupted + 1, skipped := c.skipped + size.toUInt64 }

/-- One byte was dropped; `fresh` says that it starts a run of damage. -/
def dropped (c : ReadCounts) (fresh : Bool) : ReadCounts :=
  { c with
    corrupted := if fresh then c.corrupted + 1 else c.corrupted
    skipped := c.skipped + 1 }

/-- The counters as a report. -/
def toJson (c : ReadCounts) : Json :=
  .object [
    ("blocks_ok", .nat c.blocks.toNat),
    ("blocks_corrupted", .nat c.corrupted.toNat),
    ("samples_recovered", .nat c.samples.toNat),
    ("bytes_processed", .nat c.processed.toNat),
    ("bytes_skipped", .nat c.skipped.toNat)]

end ReadCounts

/-- The block that a decoded one stands for: unpacked, and of the right size. -/
def Block.accept (format : SampleFormat) (b : Block) : Except Fault Block := do
  let b ← b.unpack
  b.validate format
  return b

/-- A positive number of bytes to read at a time. -/
structure ReadSize where
  /-- The number of bytes. -/
  bytes : Nat
  /-- There is at least one. -/
  pos : 0 < bytes

/-- Two mebibytes. -/
def ReadSize.standard : ReadSize := ⟨2 * 1024 * 1024, by decide⟩

instance : Inhabited ReadSize := ⟨.standard⟩

/-- A window on a tape. -/
structure Reader where
  /-- How much is read at a time. -/
  piece : ReadSize
  /-- The source; `none` while no tape is open. -/
  source : Option Source
  /-- The header of the last tape that was opened. -/
  header : Header
  /-- Bytes read but not yet used. -/
  window : Bytes
  /-- Whether the source has nothing more. -/
  exhausted : Bool
  /-- Whether a run of damage has been counted and goes on. -/
  resyncing : Bool
  failed : Bool
  counts : ReadCounts
  deriving Inhabited

namespace Reader

/-- A reader without a tape. -/
def idle (piece : ReadSize) : Reader :=
  ⟨piece, none, Header.blank, [], false, false, false, .zero⟩

/-- Whether a tape is open. -/
def isOpen (r : Reader) : Bool := r.source.isSome

/-- A reader with its state cleared, before the header is read. -/
def cleared (r : Reader) : Reader :=
  { idle r.piece with header := r.header }

/-- Open a source and check its header. -/
def openSource (r : Reader) (source : Source) : Reader × Option Fault :=
  let r := r.cleared
  match source.read Header.size with
  | none => (r, some .io)
  | some (bs, source) =>
    match Header.decode bs with
    | .error f => (r, some f)
    | .ok header => ({ r with header := header, source := some source }, none)

/-- Open a file; one that is not there leaves the reader as it was. -/
def openFile (r : Reader) (file : Option Source) : Reader × Option Fault :=
  match file with
  | none => (r, some .io)
  | some source => r.openSource source

/-- Take the next piece of the source into the window. -/
def refill (r : Reader) (source : Source) : Reader :=
  match source.read r.piece.bytes with
  | none => { r with failed := true, exhausted := true }
  | some (bs, rest) =>
    { r with
      window := r.window ++ bs
      source := some rest
      exhausted := !bs.covers r.piece.bytes }

/-- What the front of the window holds. -/
inductive Finding
  /-- A block that is good, and the size of its frame. -/
  | good (b : Block) (size : Nat)
  /-- A well-framed block that is refused, and the size of its frame. -/
  | bad (size : Nat)
  /-- Nothing that can be decoded, or not yet. -/
  | nothing (f : Fault)

/-- Look at the front of a window. -/
def examine (header : Header) (window : Bytes) : Finding :=
  match Block.decode header.form.packs window with
  | .error f => .nothing f
  | .ok (b, size) =>
    match b.accept header.format with
    | .ok b => .good b size
    | .error _ => .bad size

/-- One step towards the next block. -/
inductive Step
  | found (b : Block) (r : Reader)
  | onward (r : Reader)
  | done

/-- Decode, read on, or drop a byte. -/
def step (r : Reader) : Step :=
  match r.source with
  | none => .done
  | some source =>
    if !r.window.covers Block.overhead then
      if r.exhausted then .done else .onward (r.refill source)
    else
      match examine r.header r.window with
      | .good b size =>
        .found b { r with
          window := r.window.drop size, resyncing := false, counts := r.counts.returned b size }
      | .bad size =>
        .onward { r with
          window := r.window.drop size, resyncing := false, counts := r.counts.refused size }
      | .nothing f =>
        if f = .incomplete ∧ r.exhausted = false then .onward (r.refill source)
        else
          let fresh := decide (f = .checksumMismatch) && !r.resyncing
          .onward { r with
            window := r.window.drop 1
            resyncing := r.resyncing || fresh
            counts := r.counts.dropped fresh }

/-! ### Every step makes progress -/

/-- The bytes that have not been read. -/
def unread (r : Reader) : Nat := (r.source.map fun s => s.rest.length).getD 0

/-- What a step uses up: first the bytes that are left, then the reads. -/
def work (r : Reader) : Nat :=
  2 * (r.window.length + r.unread) + r.unread + (if r.exhausted then 0 else 1)

theorem size_pos_of_decode {packed : Bool} {bs : Bytes} {b : Block} {n : Nat}
    (h : Block.decode packed bs = .ok (b, n)) : 0 < n := by
  unfold Block.decode at h
  split at h
  · simp at h
  · simp only at h
    split at h
    · simp at h
    · split at h
      · simp at h
      · split at h
        · simp at h
        · simp only [Except.ok.injEq, Prod.mk.injEq] at h
          have := h.2
          simp only [Block.envelope] at this
          omega

theorem examine_good_pos {h : Header} {bs : Bytes} {b : Block} {n : Nat}
    (he : examine h bs = .good b n) : 0 < n := by
  unfold examine at he
  split at he
  · simp at he
  · next d m hd =>
    split at he
    · simp only [Finding.good.injEq] at he
      exact he.2 ▸ size_pos_of_decode hd
    · simp at he

theorem examine_bad_pos {h : Header} {bs : Bytes} {n : Nat}
    (he : examine h bs = .bad n) : 0 < n := by
  unfold examine at he
  split at he
  · simp at he
  · next d m hd =>
    split at he
    · simp at he
    · simp only [Finding.bad.injEq] at he
      exact he ▸ size_pos_of_decode hd

theorem work_refill {r : Reader} {source : Source} (hs : r.source = some source)
    (he : r.exhausted = false) : (r.refill source).work < r.work := by
  unfold refill
  cases hr : source.read r.piece.bytes with
  | none => simp [work, unread, he]
  | some p =>
    obtain ⟨bs, rest⟩ := p
    have hread : bs = source.rest.take r.piece.bytes ∧
        rest.rest = source.rest.drop r.piece.bytes := by
      simp only [Source.read] at hr
      split at hr
      · simp at hr
      · simp only [Option.some.injEq, Prod.mk.injEq] at hr
        exact ⟨hr.1.symm, by rw [← hr.2]⟩
    have hp := r.piece.pos
    simp only [work, unread, hs, he, Option.map_some, Option.getD_some, hread.1, hread.2,
      List.length_append, List.length_take, List.length_drop]
    by_cases hc : r.piece.bytes ≤ source.rest.length
    · split <;> simp <;> omega
    · have hlt : source.rest.length < r.piece.bytes := by omega
      have hx : (!Bytes.covers (source.rest.take r.piece.bytes) r.piece.bytes) = true := by
        rw [Bool.not_eq_true', Bool.eq_false_iff, ne_eq, Bytes.covers_iff, List.length_take]
        omega
      rw [hx]
      simp
      omega

/-- A step that does not end the search leaves less to do. -/
theorem work_step {r next : Reader} (h : r.step = .onward next) : next.work < r.work := by
  unfold step at h
  split at h
  · simp at h
  · next source hs =>
    split at h
    · split at h
      · simp at h
      · next he =>
        simp only [Step.onward.injEq] at h
        exact h ▸ work_refill hs (by simpa using he)
    · next hcov =>
      have hlen : 0 < r.window.length := by
        have : r.window.covers Block.overhead = true := by simpa using hcov
        rw [Bytes.covers_iff] at this
        simp only [Block.overhead] at this
        omega
      split at h
      · simp at h
      · next size he =>
        have := examine_bad_pos he
        simp only [Step.onward.injEq] at h
        subst h
        simp only [work, unread, List.length_drop]
        omega
      · split at h
        · next hf =>
          simp only [Step.onward.injEq] at h
          exact h ▸ work_refill hs hf.2
        · simp only [Step.onward.injEq] at h
          subst h
          simp only [work, unread, List.length_drop]
          omega

/-- A block that comes out leaves less to do. -/
theorem work_found {r later : Reader} {b : Block} (h : r.step = .found b later) :
    later.work < r.work := by
  unfold step at h
  split at h
  · simp at h
  · split at h
    · split at h <;> simp at h
    · next hcov =>
      have hlen : 0 < r.window.length := by
        have : r.window.covers Block.overhead = true := by simpa using hcov
        rw [Bytes.covers_iff] at this
        simp only [Block.overhead] at this
        omega
      split at h
      · next d size he =>
        have := examine_good_pos he
        simp only [Step.found.injEq] at h
        rw [← h.2]
        simp only [work, unread, List.length_drop]
        omega
      · simp at h
      · split at h <;> simp at h

/-! ### Blocks -/

/-- The next block, or `none` when there is none; with the reader after it. -/
def next (r : Reader) : Option Block × Reader :=
  match _h : r.step with
  | .found b r => (some b, r)
  | .onward onward => next onward
  | .done => (none, r)
termination_by r.work
decreasing_by exact work_step _h

/-- Read on to the end; `found` holds the blocks so far with the counters after
each, the latest first. -/
def drainFrom (found : List (Block × ReadCounts)) (r : Reader) :
    List (Block × ReadCounts) × Reader :=
  match _h : r.step with
  | .found b later => drainFrom ((b, later.counts) :: found) later
  | .onward onward => drainFrom found onward
  | .done => (found.reverse, r)
termination_by r.work
decreasing_by
  · exact work_found _h
  · exact work_step _h

/-- All blocks that are left, with the counters after each. -/
def drain (r : Reader) : List (Block × ReadCounts) × Reader := drainFrom [] r

/-- Whether nothing more can come out. -/
def isExhausted (r : Reader) : Bool := r.exhausted && !r.window.covers Block.overhead

/-- Whether the source failed. -/
def error? (r : Reader) : Option Fault := if r.failed then some .io else none

/-- Whether the header's total, unless it is zero, is the number of samples that
came out. -/
def validateTotals (r : Reader) : Except Fault Unit :=
  if r.header.total ≠ 0 ∧ r.header.total ≠ r.counts.samples then .error .formatViolation
  else .ok ()

/-- What is said when the source fails. -/
def failureNotice : String := "Error: Read failed on input stream\n"

/-- What is said on the way from one state of a reader to a later one. -/
def noticeSince (before after : Reader) : String :=
  if after.failed && !before.failed then failureNotice else ""

end Reader

/-- What reading a whole file gives. -/
structure Contents where
  header : Header
  blocks : List Block
  counts : ReadCounts
  /-- Whether the source failed on the way. -/
  fault : Option Fault
  deriving Repr

/-- Read a file as far as it goes; a file that cannot be opened gives a fault. -/
def readAll (file : Option Source) : Except Fault Contents :=
  match (Reader.idle .standard).openFile file with
  | (_, some f) => .error f
  | (r, none) =>
    let (found, r) := r.drain
    .ok ⟨r.header, found.map Prod.fst, r.counts, r.error?⟩

end IqTape
