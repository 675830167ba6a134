import Mathlib.Logic.Function.Iterate
import IqTape.Proofs.Tape.Accounting

/-!
# The buffer behind a window

The window of a reader is the back of a buffer.  Bytes that have been used stay in front of
it until the reader reads on; then they are dropped, and the buffer gets room for a whole
piece.  A reader only reads on when its window is shorter than the longest frame, because a
length beyond that is refused before any byte is missed.  So the buffer stays small, and
nothing that a tape says can make it grow.

Each round of the search for a block uses up bytes or reads some, so the search ends, and
each block that comes out has used up at least the bytes of an empty frame.

## Main definitions

* `BufferedReader` — a reader with its buffer, and the most that this has held.
* `BufferedReader.toReader` — the reader that it is.
* `BufferedReader.look` — one round of the search for a block.
* `ReaderUse`, `BufferedReader.run` — opening tapes and looking for blocks, in any order.

## Main results

* `BufferedReader.toReader_run` — with or without the buffer, the same is read.
* `Reader.next_ends` — a call is a number of rounds.
* `Reader.calls_end` — and after some calls there are no more blocks.
* `BufferedReader.reading_is_bounded` — **reading ends, and takes little room**.
-/

namespace IqTape

/-- A reader as it keeps its bytes. -/
structure BufferedReader where
  piece : ReadSize
  source : Option Source
  header : Header
  /-- Bytes that have been read, the used ones in front. -/
  buffer : Bytes
  /-- How many of them have been used. -/
  used : Nat
  exhausted : Bool
  resyncing : Bool
  failed : Bool
  counts : ReadCounts
  /-- The most bytes that the buffer has ever held. -/
  most : Nat
  deriving Inhabited

namespace BufferedReader

/-- A reader without a tape. -/
def idle (piece : ReadSize) : BufferedReader :=
  ⟨piece, none, Header.blank, [], 0, false, false, false, .zero, 0⟩

/-- The bytes that have not been used. -/
def window (w : BufferedReader) : Bytes := w.buffer.drop w.used

/-- The reader, without what is behind its window. -/
def toReader (w : BufferedReader) : Reader :=
  ⟨w.piece, w.source, w.header, w.window, w.exhausted, w.resyncing, w.failed, w.counts⟩

/-! ### Opening a tape -/

/-- A reader with its state cleared; the buffer is emptied. -/
def cleared (w : BufferedReader) : BufferedReader :=
  { idle w.piece with header := w.header, most := w.most }

def openSource (w : BufferedReader) (source : Source) : BufferedReader :=
  match source.read Header.size with
  | none => w.cleared
  | some (bs, source) =>
    match Header.decode bs with
    | .error _ => w.cleared
    | .ok header => { w.cleared with header := header, source := some source }

/-- A file that is not there leaves the reader as it was. -/
def openFile (w : BufferedReader) (file : Option Source) : BufferedReader :=
  match file with
  | none => w
  | some source => w.openSource source

/-! ### Looking for a block -/

/-- Drop what has been used, and make room for a piece. -/
def grow (w : BufferedReader) : BufferedReader :=
  { w with
    buffer := w.window
    used := 0
    most := max w.most (w.window.length + w.piece.bytes) }

/-- Take the next piece of the source into the buffer; room that is not needed is given back. -/
def refill (w : BufferedReader) (source : Source) : BufferedReader :=
  match source.read w.piece.bytes with
  | none => { w.grow with failed := true, exhausted := true }
  | some (bs, rest) =>
    { w.grow with
      buffer := w.grow.buffer ++ bs
      source := some rest
      exhausted := !bs.covers w.piece.bytes }

/-- Use the front of the window. -/
def use (w : BufferedReader) (n : Nat) (resyncing : Bool) (counts : ReadCounts) : BufferedReader :=
  { w with used := w.used + n, resyncing := resyncing, counts := counts }

/-- What one round of the search comes to. -/
inductive Step
  | found (b : Block) (w : BufferedReader)
  | onward (w : BufferedReader)
  | done

/-- The same round, as the reader sees it. -/
def Step.toReader : Step → Reader.Step
  | found b w => .found b w.toReader
  | onward w => .onward w.toReader
  | done => .done

/-- One round of the search: decode, read on, or drop a byte. -/
def step (w : BufferedReader) : Step :=
  match w.source with
  | none => .done
  | some source =>
    if !w.window.covers Block.overhead then
      if w.exhausted then .done else .onward (w.refill source)
    else
      match Reader.examine w.header w.window with
      | .good b size => .found b (w.use size false (w.counts.returned b size))
      | .bad size => .onward (w.use size false (w.counts.refused size))
      | .nothing f =>
        if f = .incomplete ∧ w.exhausted = false then .onward (w.refill source)
        else
          let fresh := decide (f = .checksumMismatch) && !w.resyncing
          .onward (w.use 1 (w.resyncing || fresh) (w.counts.dropped fresh))

/-- The reader after a round. -/
def look (w : BufferedReader) : BufferedReader :=
  match w.step with
  | .found _ later => later
  | .onward later => later
  | .done => w

end BufferedReader

/-- What may be done with a reader. -/
inductive ReaderUse
  /-- Open a file, which may not be there. -/
  | load (file : Option Source)
  /-- One round of the search for a block. -/
  | look
  deriving DecidableEq, Repr, Inhabited

namespace Reader

/-- The reader after a round of the search. -/
def look (r : Reader) : Reader :=
  match r.step with
  | .found _ later => later
  | .onward later => later
  | .done => r

/-- The reader after some uses. -/
def run (r : Reader) (uses : List ReaderUse) : Reader :=
  uses.foldl (fun r u => match u with
    | .load file => (r.openFile file).1
    | .look => r.look) r

end Reader

namespace BufferedReader

/-- The reader after some uses. -/
def run (w : BufferedReader) (uses : List ReaderUse) : BufferedReader :=
  uses.foldl (fun w u => match u with
    | .load file => w.openFile file
    | .look => w.look) w

variable {w : BufferedReader} {source : Source}

/-! ### With or without the buffer -/

theorem window_use (w : BufferedReader) (n : Nat) (resyncing : Bool) (counts : ReadCounts) :
    (w.use n resyncing counts).window = w.window.drop n :=
  (List.drop_drop ..).symm

theorem toReader_use (w : BufferedReader) (n : Nat) (resyncing : Bool) (counts : ReadCounts) :
    (w.use n resyncing counts).toReader =
      { w.toReader with window := w.window.drop n, resyncing := resyncing, counts := counts } := by
  rw [toReader, window_use]
  rfl

theorem toReader_refill (w : BufferedReader) (source : Source) :
    (w.refill source).toReader = w.toReader.refill source := by
  rw [refill, Reader.refill]
  have hpiece : w.toReader.piece = w.piece := rfl
  rw [hpiece]
  cases source.read w.piece.bytes with
  | none => rfl
  | some p => rfl

/-- **A round is the same round**, with or without the buffer. -/
theorem toReader_step (w : BufferedReader) : w.step.toReader = w.toReader.step := by
  obtain ⟨piece, source, header, buffer, used, exhausted, resyncing, failed, counts, most⟩ := w
  cases source with
  | none => rfl
  | some source =>
    unfold step Reader.step
    simp only [toReader, window]
    rcases Bool.eq_false_or_eq_true (!Bytes.covers (buffer.drop used) Block.overhead) with
      hshort | hlong
    · simp only [hshort, if_true]
      cases exhausted with
      | true => rfl
      | false => exact congrArg Reader.Step.onward (toReader_refill _ source)
    · simp only [hlong, Bool.false_eq_true, if_false]
      cases Reader.examine header (buffer.drop used) with
      | good b size => exact congrArg (Reader.Step.found b) (toReader_use _ size _ _)
      | bad size => exact congrArg Reader.Step.onward (toReader_use _ size _ _)
      | nothing f =>
        by_cases hmore : f = .incomplete ∧ exhausted = false
        · simp only [hmore, and_self, if_true]
          exact congrArg Reader.Step.onward (toReader_refill _ source)
        · simp only [hmore, if_false]
          exact congrArg Reader.Step.onward (toReader_use _ 1 _ _)

theorem toReader_look (w : BufferedReader) : w.look.toReader = w.toReader.look := by
  rw [look, Reader.look, ← toReader_step]
  cases w.step <;> rfl

theorem toReader_openFile (w : BufferedReader) (file : Option Source) :
    (w.openFile file).toReader = (w.toReader.openFile file).1 := by
  cases file with
  | none => rfl
  | some source =>
    simp only [openFile, openSource, Reader.openFile, Reader.openSource]
    cases source.read Header.size with
    | none => rfl
    | some p =>
      obtain ⟨bs, later⟩ := p
      simp only
      cases Header.decode bs <;> rfl

/-- **With or without the buffer, the same is read.** -/
theorem toReader_run (w : BufferedReader) (uses : List ReaderUse) :
    (w.run uses).toReader = w.toReader.run uses := by
  induction uses generalizing w with
  | nil => rfl
  | cons u uses ih =>
    cases u with
    | load file =>
      have := ih (w.openFile file)
      rw [toReader_openFile] at this
      exact this
    | look =>
      have := ih w.look
      rw [toReader_look] at this
      exact this

/-! ### The most that the buffer holds -/

/-- A window in which a frame is cut off is shorter than the longest frame. -/
theorem length_lt_of_incomplete {h : Header} {bs : Bytes}
    (he : Reader.examine h bs = .nothing .incomplete) : bs.length < Block.maxFrame := by
  have hd : Block.decode h.form.packs bs = .error .incomplete := by
    unfold Reader.examine at he
    split at he
    · next hd =>
      cases he
      exact hd
    · split at he <;> cases he
  rw [Block.decode_eq] at hd
  split at hd
  · next hshort =>
    simp only [Block.overhead, Block.maxFrame] at hshort ⊢
    omega
  · split at hd
    · cases hd
    · next hplausible =>
      -- A length is only waited for when it is within the limit.
      have hmax := (Decidable.not_not.1 hplausible).2
      split at hd
      · omega
      · split at hd <;> cases hd

/-- What a round does: nothing at the end, a read where the window is short, or it uses the front
of the window. -/
theorem look_cases (w : BufferedReader) :
    w.look = w ∨
      (∃ source, w.window.length < Block.maxFrame ∧ w.look = w.refill source) ∨
      ∃ n resyncing counts, w.look = w.use n resyncing counts := by
  have hlook : w.look = match w.step with
    | .found _ later => later
    | .onward later => later
    | .done => w := rfl
  rw [hlook]
  unfold step
  split
  · next hstep =>
    split at hstep
    · cases hstep
    · split at hstep
      · split at hstep <;> cases hstep
      · split at hstep
        · cases hstep
          exact .inr (.inr ⟨_, _, _, rfl⟩)
        · cases hstep
        · split at hstep <;> cases hstep
  · next hstep =>
    split at hstep
    · cases hstep
    · next source hs =>
      split at hstep
      · next hshort =>
        split at hstep
        · cases hstep
        · cases hstep
          refine .inr (.inl ⟨source, ?_, rfl⟩)
          rw [Bool.not_eq_true', Bool.eq_false_iff, ne_eq, Bytes.covers_iff] at hshort
          simp only [Block.overhead, Block.maxFrame] at hshort ⊢
          omega
      · split at hstep
        · cases hstep
        · cases hstep
          exact .inr (.inr ⟨_, _, _, rfl⟩)
        · next f he =>
          split at hstep
          · next hmore =>
            cases hstep
            rw [hmore.1] at he
            exact .inr (.inl ⟨source, length_lt_of_incomplete he, rfl⟩)
          · cases hstep
            exact .inr (.inr ⟨_, _, _, rfl⟩)
  · exact .inl rfl

/-- What is true of the buffer at any time. -/
structure Contained (piece : ReadSize) (w : BufferedReader) : Prop where
  /-- Pieces have the same size all the time. -/
  steady : w.piece = piece
  /-- What the buffer holds has been taken note of. -/
  held : w.buffer.length ≤ w.most
  /-- It has never been more than a piece behind a frame that lacks a byte. -/
  most : w.most ≤ Block.maxFrame - 1 + piece.bytes

namespace Contained

variable {piece : ReadSize}

theorem idle (piece : ReadSize) : Contained piece (.idle piece) :=
  ⟨rfl, Nat.le_refl _, Nat.zero_le _⟩

theorem use (h : Contained piece w) (n : Nat) (resyncing : Bool) (counts : ReadCounts) :
    Contained piece (w.use n resyncing counts) :=
  ⟨h.steady, h.held, h.most⟩

/-- Growing keeps within the limit where the window is shorter than the longest frame. -/
theorem refill (h : Contained piece w) (source : Source)
    (hshort : w.window.length < Block.maxFrame) : Contained piece (w.refill source) := by
  have hmost : w.grow.most ≤ Block.maxFrame - 1 + piece.bytes := by
    have := h.most
    simp only [grow, h.steady]
    omega
  unfold BufferedReader.refill
  cases hr : source.read w.piece.bytes with
  | none =>
    refine ⟨h.steady, ?_, hmost⟩
    simp only [grow]
    omega
  | some p =>
    obtain ⟨bs, rest⟩ := p
    have hbs : bs.length ≤ w.piece.bytes := by
      rw [(Source.of_read_eq_some hr).1]
      exact List.length_take_le _ _
    refine ⟨h.steady, ?_, hmost⟩
    simp only [grow, List.length_append]
    omega

/-- **A round keeps the buffer small.** -/
theorem look (h : Contained piece w) : Contained piece w.look := by
  rcases w.look_cases with hsame | ⟨source, hshort, hread⟩ | ⟨n, resyncing, counts, hused⟩
  · rw [hsame]
    exact h
  · rw [hread]
    exact h.refill source hshort
  · rw [hused]
    exact h.use n resyncing counts

theorem openFile (h : Contained piece w) (file : Option Source) :
    Contained piece (w.openFile file) := by
  have hcleared : Contained piece w.cleared := ⟨h.steady, Nat.zero_le _, h.most⟩
  cases file with
  | none => exact h
  | some source =>
    simp only [BufferedReader.openFile, openSource]
    split
    · exact hcleared
    · split
      · exact hcleared
      · exact ⟨h.steady, Nat.zero_le _, h.most⟩

/-- **So does anything that is done with a reader.** -/
theorem run (h : Contained piece w) (uses : List ReaderUse) : Contained piece (w.run uses) := by
  induction uses generalizing w with
  | nil => exact h
  | cons u uses ih =>
    cases u with
    | load file => exact ih (h.openFile file)
    | look => exact ih h.look

end Contained

end BufferedReader

namespace Reader

variable {r later : Reader} {b : Block}

/-! ### The end of a search -/

theorem look_of_found (h : r.step = .found b later) : r.look = later := by
  rw [look, h]

theorem look_of_onward (h : r.step = .onward later) : r.look = later := by
  rw [look, h]

theorem look_of_done (h : r.step = .done) : r.look = r := by
  rw [look, h]

/-- The search of a call takes so many rounds before the one that ends it. -/
structure Searches (r : Reader) (rounds : Nat) : Prop where
  /-- The rounds before go on. -/
  onward : ∀ j < rounds, (look^[j] r).step = .onward (look^[j + 1] r)
  /-- The last one does not. -/
  ends : ∀ later, (look^[rounds] r).step ≠ .onward later
  /-- It leaves the reader as the call does. -/
  next : r.next.2 = look^[rounds + 1] r

/-- **Each call ends**, with a round for what is left to do at most. -/
theorem exists_searches (r : Reader) : ∃ rounds ≤ r.work, r.Searches rounds := by
  induction r using Reader.next.induct with
  | case1 r b later hstep =>
    refine ⟨0, Nat.zero_le _, fun j hj => absurd hj (Nat.not_lt_zero j), fun later' h => ?_, ?_⟩
    · rw [Function.iterate_zero_apply, hstep] at h
      cases h
    · rw [next_of_found hstep, Function.iterate_one, look_of_found hstep]
  | case2 r later hstep ih =>
    obtain ⟨rounds, hrounds, honward, hends, hnext⟩ := ih
    have hless := work_step hstep
    have hlook (j : Nat) : look^[j + 1] r = look^[j] later := by
      rw [Function.iterate_succ_apply, look_of_onward hstep]
    refine ⟨rounds + 1, by omega, fun j hj => ?_, ?_, ?_⟩
    · cases j with
      | zero => rwa [Function.iterate_zero_apply, Function.iterate_one, look_of_onward hstep]
      | succ j =>
        rw [hlook, hlook]
        exact honward j (by omega)
    · rw [hlook]
      exact hends
    · rw [next_of_onward hstep, hlook]
      exact hnext
  | case3 r hstep =>
    refine ⟨0, Nat.zero_le _, fun j hj => absurd hj (Nat.not_lt_zero j), fun later' h => ?_, ?_⟩
    · rw [Function.iterate_zero_apply, hstep] at h
      cases h
    · rw [next_of_done hstep, Function.iterate_one, look_of_done hstep]

/-! ### The end of a tape -/

/-- The bytes that have not been used. -/
def unused (r : Reader) : Nat := r.window.length + r.unread

theorem unused_refill {source : Source} (hs : r.source = some source) :
    (r.refill source).unused = r.unused := by
  unfold refill
  cases hr : source.read r.piece.bytes with
  | none => rfl
  | some p =>
    obtain ⟨bs, rest⟩ := p
    obtain ⟨rfl, rfl⟩ := Source.of_read_eq_some hr
    rw [unused, unused, unread_of_source hs, unread_of_source rfl]
    simp only [List.length_append, List.length_take, List.length_drop]
    omega

/-- A round that finds a block uses up the bytes of an empty frame. -/
theorem unused_of_found (h : r.step = .found b later) :
    later.unused + Block.overhead ≤ r.unused := by
  unfold step at h
  split at h
  · cases h
  · split at h
    · split at h <;> cases h
    · split at h
      · next size he =>
        cases h
        have hsize := size_le_of_examine_good he
        have hframe := (of_examine_good he).2
        show (r.window.drop size).length + r.unread + Block.overhead ≤ r.window.length + r.unread
        rw [List.length_drop]
        omega
      · cases h
      · split at h <;> cases h

/-- No other round brings any back. -/
theorem unused_of_onward (h : r.step = .onward later) : later.unused ≤ r.unused := by
  unfold step at h
  split at h
  · cases h
  next source hs =>
  have hread : (r.refill source).unused ≤ r.unused := Nat.le_of_eq (unused_refill hs)
  split at h
  · split at h
    · cases h
    · cases h
      exact hread
  · split at h
    · cases h
    · cases h
      exact Nat.add_le_add_right (List.drop_sublist _ _).length_le _
    · split at h
      · cases h
        exact hread
      · cases h
        exact Nat.add_le_add_right (List.drop_sublist _ _).length_le _

/-- A call uses up the bytes of an empty frame for the block that it gives. -/
theorem unused_next (r : Reader) :
    r.next.2.unused + Block.overhead * r.next.1.toList.length ≤ r.unused := by
  induction r using Reader.next.induct with
  | case1 r b later hstep =>
    rw [next_of_found hstep]
    exact unused_of_found hstep
  | case2 r later hstep ih =>
    rw [next_of_onward hstep]
    exact Nat.le_trans ih (unused_of_onward hstep)
  | case3 r hstep =>
    rw [next_of_done hstep]
    exact Nat.le_refl _

/-- So many calls that all give a block use up the bytes of as many empty frames. -/
theorem unused_calls {n : Nat} (h : none ∉ (r.calls n).1.map Prod.fst) :
    Block.overhead * n ≤ r.unused := by
  induction n generalizing r with
  | zero => exact Nat.zero_le _
  | succ n ih =>
    rw [calls, List.map_cons, List.mem_cons, not_or] at h
    obtain ⟨hfirst, hlater⟩ := h
    have hblock : r.next.1.toList.length = 1 := by
      cases hnext : r.next.1 with
      | none => exact absurd hnext.symm hfirst
      | some b => rfl
    have hused := unused_next r
    have hmore := ih hlater
    rw [hblock] at hused
    rw [Nat.mul_succ]
    omega

/-- **A tape comes to its end** after one call more than there is room for frames. -/
theorem none_mem_calls (r : Reader) :
    none ∈ (r.calls (r.unused / Block.overhead + 1)).1.map Prod.fst := by
  by_contra h
  have hused := unused_calls h
  simp only [Block.overhead] at hused
  omega

end Reader

namespace BufferedReader

/-- **Reading ends, and takes little room**, whatever tapes are opened one after the other, whatever
they hold, and wherever they fail.  At any time, the buffer has never held more than a piece and a
frame that lacks a byte; a call searches for at most three rounds for each byte that has not been
used, and one; and one call more than there is room for frames in those bytes comes to the end.
Behind a header that has just been read these are the bytes of the body. -/
theorem reading_is_bounded (piece : ReadSize) (uses : List ReaderUse) :
    let w := (idle piece).run uses
    let r := w.toReader
    r = (Reader.idle piece).run uses ∧
      w.buffer.length ≤ w.most ∧ w.most ≤ Block.maxFrame - 1 + piece.bytes ∧
      (∃ rounds ≤ 3 * r.unused + 1, r.Searches rounds) ∧
      none ∈ (r.calls (r.unused / Block.overhead + 1)).1.map Prod.fst ∧
      ∀ source, (r.openSource source).2 = none →
        let opened := (r.openSource source).1
        let body := source.rest.drop Header.size
        opened.unused = body.length ∧
          none ∈ (opened.calls (body.length / Block.overhead + 1)).1.map Prod.fst := by
  intro w r
  obtain ⟨-, hheld, hmost⟩ := (Contained.idle piece).run uses
  refine ⟨toReader_run _ uses, hheld, hmost, ?_, r.none_mem_calls, ?_⟩
  · obtain ⟨rounds, hrounds, hsearch⟩ := r.exists_searches
    refine ⟨rounds, Nat.le_trans hrounds ?_, hsearch⟩
    simp only [Reader.work, Reader.unused]
    split <;> omega
  · intro source hopen opened body
    have hunused : opened.unused = body.length := by
      obtain ⟨mark, h, behind, breaks, hm, hd, rfl⟩ := Reader.of_openSource_eq_none hopen
      have hopened : opened = { r.cleared with header := h, source := some ⟨behind, breaks⟩ } :=
        congrArg Prod.fst (Reader.openSource_of_decode r hm hd behind breaks)
      have hbody : body = behind := List.drop_left' hm
      rw [hopened, hbody]
      exact Nat.zero_add _
    exact ⟨hunused, hunused ▸ opened.none_mem_calls⟩

set_option maxRecDepth 4000 in
/-- A tape with fifty-seven bytes behind its header takes three calls. -/
theorem reading_is_bounded_of_brokenTape :
    let r := ((idle ⟨5, by decide⟩).run [.load none, .look]).toReader
    (r.openSource Reader.brokenTape).2 = none ∧
      none ∈ ((r.openSource Reader.brokenTape).1.calls 3).1.map Prod.fst := by
  intro r
  have hopen : (r.openSource Reader.brokenTape).2 = none := by decide +kernel
  have hlength : (Reader.brokenTape.rest.drop Header.size).length / Block.overhead + 1 = 3 := by
    decide +kernel
  obtain ⟨-, -, -, -, -, hends⟩ := reading_is_bounded ⟨5, by decide⟩ [.load none, .look]
  obtain ⟨-, hnone⟩ := hends Reader.brokenTape hopen
  rw [hlength] at hnone
  exact ⟨hopen, hnone⟩

/-- Pieces of two mebibytes and frames of one. -/
example : Block.maxFrame - 1 + ReadSize.standard.bytes = 1024 * 1024 - 1 + 2 * 1024 * 1024 := rfl

end BufferedReader
end IqTape
