import IqTape.Proofs.Tape.Frame
import IqTape.Proofs.Tape.Sink
import IqTape.Tape.Writer

/-!
# What a writer leaves on a sink

Between its calls a writer stands behind a header and the frames of the blocks it was
given, and its counters say how many there are.  Finishing goes back to the header and
returns, at any time and any number of times.

## Main definitions

* `Writer.Call` — a call of a writer that has started a tape; `Writer.calls` makes several.
* `Writer.Takes` — a block has a frame on a tape.
* `Writer.framesOf` — the frames of some blocks.
* `Writer.Tape` — the state between calls.

## Main results

* `Writer.append_eq`, `Writer.append_cases` — a block is written or refused.
* `Writer.tape_attach`, `Writer.Tape.append`, `Writer.Tape.finish` — what each call does.
* `Writer.Tape.calls` — what a series of calls does.
-/

namespace IqTape

/-- Whether two headers differ at most in what is known when a session ends. -/
def Header.SameSession (a b : Header) : Prop :=
  { a with total := b.total, finish := b.finish } = b

namespace Header.SameSession

theorem refl (h : Header) : h.SameSession h := rfl

theorem trans {a b c : Header} (hab : a.SameSession b) (hbc : b.SameSession c) :
    a.SameSession c := by
  unfold SameSession at *
  rw [← hbc, ← hab]

theorem form_eq {a b : Header} (h : a.SameSession b) : b.form = a.form := by
  rw [← h]

/-- The end of a session does not tell two of its headers apart. -/
theorem ended_eq {a b : Header} (h : a.SameSession b) (total finish : UInt64) :
    { b with total := total, finish := finish } =
      { a with total := total, finish := finish } := by
  rw [← h]

end Header.SameSession

namespace Writer

/-! ### Blocks as they are stored -/

/-- Whether a block has a frame on a tape. -/
def Takes (packer : Lz4.Packer) (form : PayloadForm) (b : Block) : Prop :=
  ∃ stored, prepare packer form b = .ok stored ∧ stored.frameSize ≤ Block.maxFrame

/-- The block as it goes onto a tape. -/
def storedAs (packer : Lz4.Packer) (form : PayloadForm) (b : Block) : Block :=
  (prepare packer form b).toOption.getD b

/-- The frames of some blocks. -/
def framesOf (packer : Lz4.Packer) (form : PayloadForm) (bs : List Block) : Bytes :=
  bs.flatMap fun b => (storedAs packer form b).frame

/-- Packing leaves the count as it is. -/
theorem count_of_prepare {packer : Lz4.Packer} {form : PayloadForm} {b stored : Block}
    (h : prepare packer form b = .ok stored) : stored.count = b.count := by
  unfold prepare at h
  split at h
  · unfold Block.pack at h
    split at h
    · cases h; rfl
    · split at h
      · cases h; rfl
      · cases h
  · cases h; rfl

theorem storedAs_of_prepare {packer : Lz4.Packer} {form : PayloadForm} {b stored : Block}
    (h : prepare packer form b = .ok stored) : storedAs packer form b = stored := by
  rw [storedAs, h]
  rfl

theorem framesOf_append (packer : Lz4.Packer) (form : PayloadForm) (as bs : List Block) :
    framesOf packer form (as ++ bs) = framesOf packer form as ++ framesOf packer form bs :=
  List.flatMap_append

/-! ### Appending a block -/

/-- What appending a block does: the block is refused before anything is written, or its frame
is written as far as the sink takes it. -/
theorem append_eq (w : Writer) (hopen : w.isOpen = true) (b : Block) :
    (∃ f, f ≠ .io ∧ w.append b = (w, some f)) ∨
    ∃ stored, prepare w.packer w.header.form b = .ok stored ∧
      stored.frameSize ≤ Block.maxFrame ∧ w.append b = if (w.sink.put stored.frame).good then
        ({ w with
            sink := w.sink.put stored.frame
            samples := w.samples + stored.count.toUInt64
            blocks := w.blocks + 1
            bytes := w.bytes + stored.frameSize.toUInt64 }, none)
      else ({ w with sink := w.sink.put stored.frame }, some .io) := by
  have hclosed : ¬(!w.isOpen) = true := by
    rw [hopen]
    decide
  simp only [append]
  rw [if_neg hclosed]
  cases hprepare : prepare w.packer w.header.form b with
  | error f =>
    left
    refine ⟨f, ?_, rfl⟩
    rintro rfl
    unfold prepare at hprepare
    split at hprepare
    · unfold Block.pack at hprepare
      split at hprepare
      · cases hprepare
      · split at hprepare <;> cases hprepare
    · cases hprepare
  | ok stored =>
    simp only [Block.encode]
    by_cases hlarge : Block.maxFrame < stored.frameSize
    · left
      rw [if_pos hlarge]
      exact ⟨.invalidBlockSize, nofun, rfl⟩
    · right
      rw [if_neg hlarge]
      refine ⟨stored, rfl, Nat.le_of_not_lt hlarge, ?_⟩
      by_cases hgood : (w.sink.put stored.frame).good = true <;> simp [hgood]

/-- A block is written and counted, or refused. -/
theorem append_cases (w : Writer) (b : Block) :
    (∃ sink f, w.append b = ({ w with sink := sink }, some f)) ∨
      ∃ sink size, w.append b =
        ({ w with
            sink := sink
            samples := w.samples + b.count.toUInt64
            blocks := w.blocks + 1
            bytes := w.bytes + size }, none) := by
  by_cases hopen : w.isOpen = true
  · rcases append_eq w hopen b with ⟨f, -, happend⟩ | ⟨stored, hprepare, -, happend⟩
    · exact .inl ⟨w.sink, f, happend⟩
    · rw [happend]
      split
      · right
        rw [count_of_prepare hprepare]
        exact ⟨_, _, rfl⟩
      · exact .inl ⟨_, .io, rfl⟩
  · have hclosed : (!w.isOpen) = true := by
      rw [Bool.eq_false_iff.2 hopen]
      rfl
    left
    refine ⟨w.sink, .io, ?_⟩
    simp only [append]
    rw [if_pos hclosed]

/-! ### The state between calls -/

/-- The tape holds a header and the frames of some blocks, and the writer stands behind
them. -/
structure Tape (w : Writer) (bs : List Block) : Prop where
  /-- The tape is not closed. -/
  isOpen : w.isOpen = true
  /-- The sink holds the header and the frames. -/
  sink : w.sink.Holds (w.header.encode ++ framesOf w.packer w.header.form bs)
    (w.header.encode ++ framesOf w.packer w.header.form bs).length
  /-- The samples are counted. -/
  samples : w.samples = Block.total bs
  /-- The blocks are counted. -/
  blocks : w.blocks = bs.length.toUInt64
  /-- The bytes are counted, the header once. -/
  bytes : w.bytes = (Header.size + (framesOf w.packer w.header.form bs).length).toUInt64

/-- Two writers work for the same session. -/
structure Continues (w later : Writer) : Prop where
  /-- The headers differ at most in the end of the session. -/
  header : w.header.SameSession later.header
  /-- The payloads are packed by the same compressor. -/
  packer : later.packer = w.packer

theorem Continues.refl (w : Writer) : Continues w w := ⟨.refl _, rfl⟩

theorem Continues.trans {a b c : Writer} (hab : Continues a b) (hbc : Continues b c) :
    Continues a c :=
  ⟨hab.header.trans hbc.header, hbc.packer.trans hab.packer⟩

/-- **A tape that is started on a new sink holds no block.** -/
theorem tape_attach (w : Writer) (room : Nat) (h : Header) :
    (w.attach (.ofRoom room) h).2 = none ∧ (w.attach (.ofRoom room) h).1.Tape [] ∧
      (w.attach (.ofRoom room) h).1.packer = w.packer ∧
      h.SameSession (w.attach (.ofRoom room) h).1.header := by
  have hput := (Sink.holds_ofRoom room).put { h with total := 0, finish := 0 }.encode
  have hgood := hput.good
  have hholds : (Sink.put (.ofRoom room) { h with total := 0, finish := 0 }.encode).Holds
      ({ h with total := 0, finish := 0 }.encode ++ framesOf w.packer h.form [])
      ({ h with total := 0, finish := 0 }.encode ++ framesOf w.packer h.form []).length := by
    have hnil : framesOf w.packer h.form [] = [] := rfl
    rw [hnil, List.append_nil]
    rwa [← List.length_nil, Bytes.overwrite_end, List.nil_append, List.length_nil,
      Nat.zero_add] at hput
  simp only [attach]
  rw [if_pos hgood]
  exact ⟨rfl, ⟨rfl, hholds, rfl, rfl, rfl⟩, rfl, rfl⟩

namespace Tape

variable {w : Writer} {bs : List Block} {b : Block}

theorem not_closed (ht : w.Tape bs) : ¬(!w.isOpen) = true := by
  rw [ht.isOpen]
  decide

/-- **A block that has a frame is appended.** -/
theorem append (ht : w.Tape bs) (hb : Takes w.packer w.header.form b) :
    (w.append b).2 = none ∧ (w.append b).1.Tape (bs ++ [b]) ∧
      Continues w (w.append b).1 := by
  obtain ⟨stored, hprepare, hsize⟩ := hb
  have hframes : framesOf w.packer w.header.form (bs ++ [b]) =
      framesOf w.packer w.header.form bs ++ stored.frame := by
    rw [framesOf_append]
    simp only [framesOf, List.flatMap_cons, List.flatMap_nil, List.append_nil,
      storedAs_of_prepare hprepare]
  have hput := ht.sink.put stored.frame
  rw [Bytes.overwrite_end, List.append_assoc, ← hframes] at hput
  have hencode : stored.encode = .ok stored.frame := if_neg (by omega)
  have hresult : w.append b = ({ w with
      sink := w.sink.put stored.frame
      samples := w.samples + stored.count.toUInt64
      blocks := w.blocks + 1
      bytes := w.bytes + stored.frameSize.toUInt64 }, none) := by
    simp only [Writer.append]
    rw [if_neg ht.not_closed, hprepare]
    simp only [hencode]
    rw [if_neg hput.not_bad]
  rw [hresult]
  refine ⟨rfl, ⟨ht.isOpen, ?_, ?_, ?_, ?_⟩, ⟨rfl, rfl⟩⟩
  · have hlen : (w.header.encode ++ framesOf w.packer w.header.form (bs ++ [b])).length =
        (w.header.encode ++ framesOf w.packer w.header.form bs).length +
          stored.frame.length := by
      rw [hframes, ← List.append_assoc, List.length_append]
    rw [← hlen] at hput
    exact hput
  · rw [Block.total_append, ← ht.samples, Block.total_cons, Block.total_nil, UInt64.add_zero,
      count_of_prepare hprepare]
  · rw [ht.blocks, List.length_append]
    exact (toUInt64_add _ 1).symm
  · rw [ht.bytes, hframes, List.length_append, Block.length_frame, ← Nat.add_assoc]
    exact (toUInt64_add _ _).symm

/-- **Finishing writes the totals into the header and comes back.** -/
theorem finish (ht : w.Tape bs) (second : UInt64) :
    (w.finish second).2 = none ∧ (w.finish second).1.Tape bs ∧
      Continues w (w.finish second).1 ∧
      (w.finish second).1.header =
        { w.header with total := Block.total bs, finish := second } ∧
      (w.finish second).1.sink.held = [] := by
  obtain ⟨hflush, -⟩ := ht.sink.flush
  obtain ⟨hrewind, -⟩ := hflush.rewind
  -- A header always has the same length, so the new one covers exactly the old one.
  have hput := hrewind.put { w.header with total := w.samples, finish := second }.encode
  rw [Bytes.overwrite_front _ (by rw [Header.length_encode, Header.length_encode])] at hput
  obtain ⟨hforward, -⟩ := hput.forward
  obtain ⟨hlast, hheld⟩ := hforward.flush
  have hresult : w.finish second = ({ w with
      header := { w.header with total := w.samples, finish := second }
      sink := (w.sink.flush.rewind.put
        { w.header with total := w.samples, finish := second }.encode).forward.flush }, none) := by
    simp only [Writer.finish]
    rw [if_neg ht.not_closed, if_neg hflush.not_bad, if_neg hrewind.not_bad,
      if_neg hput.not_bad, if_pos hlast.good]
  rw [hresult]
  refine ⟨rfl, ⟨ht.isOpen, hlast, ht.samples, ht.blocks, ht.bytes⟩, ⟨rfl, rfl⟩, ?_, hheld⟩
  rw [ht.samples]

end Tape

/-! ### A series of calls -/

/-- A call of a writer that has started a tape. -/
inductive Call
  /-- Append a block. -/
  | append (b : Block)
  /-- Finish the tape at a second since the epoch. -/
  | finish (second : UInt64)
  deriving DecidableEq, Repr

/-- The blocks that a series of calls appends. -/
def Call.blocks : List Call → List Block
  | [] => []
  | .append b :: cs => b :: blocks cs
  | .finish _ :: cs => blocks cs

/-- The writer after a call, and whether the call succeeded. -/
def call (w : Writer) : Call → Writer × Bool
  | .append b => ((w.append b).1, (w.append b).2.isNone)
  | .finish second => ((w.finish second).1, (w.finish second).2.isNone)

/-- The writer after a series of calls, and whether all of them succeeded. -/
def calls (w : Writer) : List Call → Writer × Bool
  | [] => (w, true)
  | c :: cs => (((w.call c).1.calls cs).1, (w.call c).2 && ((w.call c).1.calls cs).2)

theorem calls_append (w : Writer) (as bs : List Call) :
    w.calls (as ++ bs) =
      (((w.calls as).1.calls bs).1, (w.calls as).2 && ((w.calls as).1.calls bs).2) := by
  induction as generalizing w with
  | nil => rfl
  | cons a as ih => simp only [List.cons_append, calls, ih, Bool.and_assoc]

/-- **Calls whose blocks have frames all succeed**, and the tape holds the blocks in order,
wherever it was finished in between. -/
theorem Tape.calls {w : Writer} {bs : List Block} (ht : w.Tape bs) {cs : List Call}
    (hcs : ∀ b ∈ Call.blocks cs, Takes w.packer w.header.form b) :
    (w.calls cs).2 = true ∧ (w.calls cs).1.Tape (bs ++ Call.blocks cs) ∧
      Continues w (w.calls cs).1 := by
  induction cs generalizing w bs with
  | nil =>
    rw [Call.blocks, List.append_nil]
    exact ⟨rfl, ht, .refl w⟩
  | cons c cs ih =>
    cases c with
    | append b =>
      obtain ⟨hok, hnext, hsame⟩ := ht.append (hcs b List.mem_cons_self)
      have hrest : ∀ b' ∈ Call.blocks cs,
          Takes (w.append b).1.packer (w.append b).1.header.form b' := by
        intro b' hb'
        rw [hsame.packer, hsame.header.form_eq]
        exact hcs b' (List.mem_cons_of_mem b hb')
      obtain ⟨hmore, hlast, hrun⟩ := ih hnext hrest
      rw [List.append_assoc] at hlast
      refine ⟨?_, hlast, hsame.trans hrun⟩
      rw [Writer.calls, call, hok, hmore]
      rfl
    | finish second =>
      obtain ⟨hok, hnext, hsame, -, -⟩ := ht.finish second
      -- Neither the form nor the compressor changes when a tape is finished.
      have hrest : ∀ b' ∈ Call.blocks cs,
          Takes (w.finish second).1.packer (w.finish second).1.header.form b' := by
        intro b' hb'
        rw [hsame.packer, hsame.header.form_eq]
        exact hcs b' hb'
      obtain ⟨hmore, hlast, hrun⟩ := ih hnext hrest
      refine ⟨?_, hlast, hsame.trans hrun⟩
      rw [Writer.calls, call, hok, hmore]
      rfl

end Writer

end IqTape
