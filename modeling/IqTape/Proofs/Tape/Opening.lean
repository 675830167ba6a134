import IqTape.Proofs.Tape.Accounting

/-!
# Which openings close a reader

A reader may be used for one tape after the other.  Opening starts by forgetting what the reader
was at, and a tape that is refused, because its first bytes cannot be read or are no header that is
known, leaves nothing behind: the reader is closed and stays closed until something else is opened.
But a file that is not there is found out before anything is forgotten, and then the reader goes
on with the tape that it had.

## Main definitions

* `Opening`, `ReaderCall`, `ReaderAnswer` — what may be done with a reader, and what it says.
* `Reader.perform` — one call after the other.
* `Source.refusal?` — why a source is not opened.

## Main results

* `Reader.openSource_of_refusal` — what is left of a reader that has refused a source.
* `Reader.perform_of_closed` — a closed reader gives nothing and does not change.
* `Reader.isOpen_perform` — the last source that was found decides whether a reader is open.
* `Reader.closed_unless_missing` — **a failed opening closes the reader, unless the file is
  missing**.
* `Reader.open_after_missing` — a reader that still gives blocks.
-/

namespace IqTape

/-! ### Calls -/

/-- What a reader can be asked to open. -/
inductive Opening
  /-- A file, which may not be there. -/
  | file (contents : Option Source)
  | source (contents : Source)
  deriving DecidableEq, Repr

/-- What is there to be opened. -/
def Opening.found? : Opening → Option Source
  | file contents => contents
  | source contents => some contents

/-- What a reader can be asked for. -/
inductive ReaderCall
  | opening (o : Opening)
  | next
  deriving DecidableEq, Repr

/-- The source that a call finds, if it opens one. -/
def ReaderCall.found? : ReaderCall → Option Source
  | opening o => o.found?
  | next => none

/-- What a reader says to a call. -/
inductive ReaderAnswer
  | opened (fault : Option Fault)
  | gave (b : Option Block)
  deriving DecidableEq, Repr

/-- Why a source is not opened, if it is not. -/
def Source.refusal? (source : Source) : Option Fault :=
  ((Reader.idle .standard).openSource source).2

namespace Reader

/-- Open a file or another source. -/
def opening (r : Reader) : Opening → Reader × Option Fault
  | .file contents => r.openFile contents
  | .source contents => r.openSource contents

def call (r : Reader) : ReaderCall → Reader × ReaderAnswer
  | .opening o => ((r.opening o).1, .opened (r.opening o).2)
  | .next => (r.next.2, .gave r.next.1)

/-- Make some calls; the answers come in their order. -/
def perform (r : Reader) : List ReaderCall → Reader × List ReaderAnswer
  | [] => (r, [])
  | c :: cs => (((r.call c).1.perform cs).1, (r.call c).2 :: ((r.call c).1.perform cs).2)

variable {r : Reader} {source : Source} {o : Opening}

/-! ### What an opening leaves -/

/-- Whether a source is opened has nothing to do with the reader. -/
theorem snd_openSource (r : Reader) (source : Source) :
    (r.openSource source).2 = source.refusal? := by
  simp only [Source.refusal?, openSource]
  cases source.read Header.size with
  | none => rfl
  | some p =>
    simp only
    cases Header.decode p.1 <;> rfl

/-- **Nothing but its header is left of a reader that has refused a source**, wherever that went
wrong and whatever the reader was at. -/
theorem openSource_of_refusal {f : Fault} (h : source.refusal? = some f) :
    r.openSource source = (r.cleared, some f) := by
  rw [← snd_openSource r] at h
  unfold openSource at h ⊢
  cases hread : source.read Header.size with
  | none =>
    simp only [hread] at h ⊢
    rw [h]
  | some p =>
    simp only [hread] at h ⊢
    cases hdecode : Header.decode p.1 with
    | error g =>
      simp only [hdecode] at h ⊢
      rw [h]
    | ok header =>
      simp only [hdecode] at h
      cases h

/-- A reader that has not refused a source is open. -/
theorem isOpen_openSource (r : Reader) (source : Source) :
    (r.openSource source).1.isOpen = source.refusal?.isNone := by
  cases hrefusal : source.refusal? with
  | some f =>
    rw [openSource_of_refusal hrefusal]
    rfl
  | none =>
    obtain ⟨mark, h, body, breaks, hm, hd, rfl⟩ :=
      of_openSource_eq_none ((snd_openSource r source).trans hrefusal)
    rw [openSource_of_decode r hm hd body breaks]
    rfl

/-- What is there to be opened is opened as a source. -/
theorem opening_of_found (h : o.found? = some source) : r.opening o = r.openSource source := by
  cases o with
  | file contents =>
    cases (show contents = some source from h)
    rfl
  | source contents =>
    cases h
    rfl

/-- **A file that is not there changes nothing.** -/
theorem opening_of_missing (h : o.found? = none) : r.opening o = (r, some .io) := by
  cases o with
  | file contents =>
    cases (show contents = none from h)
    rfl
  | source contents => cases h

/-! ### Closed readers -/

/-- Looking for a block neither opens nor closes a reader. -/
theorem isOpen_next (r : Reader) : r.next.2.isOpen = r.isOpen := by
  have hkept {r later : Reader} (hstep : (∃ b, r.step = .found b later) ∨ r.step = .onward later) :
      later.isOpen = r.isOpen := by
    unfold step at hstep
    cases hs : r.source with
    | none =>
      rcases hstep with ⟨b, hstep⟩ | hstep <;> (rw [hs] at hstep; cases hstep)
    | some source =>
      have hrefill : (r.refill source).source.isSome = true := by
        unfold refill
        cases source.read r.piece.bytes with
        | none => exact congrArg Option.isSome hs
        | some p => rfl
      rw [isOpen, isOpen, hs]
      simp only [hs] at hstep
      grind
  induction r using Reader.next.induct with
  | case1 r b later hstep =>
    rw [next_of_found hstep]
    exact hkept (.inl ⟨b, hstep⟩)
  | case2 r later hstep ih =>
    rw [next_of_onward hstep, ih]
    exact hkept (.inr hstep)
  | case3 r hstep => rw [next_of_done hstep]

/-- A closed reader gives no block, and is as it was. -/
theorem next_of_closed (h : r.isOpen = false) : r.next = (none, r) := by
  have hsource : r.source = none := by
    cases hs : r.source with
    | none => rfl
    | some source =>
      rw [isOpen, hs] at h
      cases h
  refine next_of_done ?_
  rw [step, hsource]

/-- **So it is however often it is asked.** -/
theorem perform_of_closed (h : r.isOpen = false) (n : Nat) :
    r.perform (List.replicate n .next) = (r, List.replicate n (.gave none)) := by
  induction n with
  | zero => rfl
  | succ n ih =>
    rw [List.replicate_succ, perform, call, next_of_closed h, ih]
    rfl

/-- **The last source that was found decides whether a reader is open**: it is if that source was
not refused. -/
theorem isOpen_perform (r : Reader) (cs : List ReaderCall) :
    (r.perform cs).1.isOpen = match (cs.filterMap ReaderCall.found?).getLast? with
      | some source => source.refusal?.isNone
      | none => r.isOpen := by
  induction cs generalizing r with
  | nil => rfl
  | cons c cs ih =>
    rw [perform, ih]
    cases hlast : (cs.filterMap ReaderCall.found?).getLast? with
    | some source =>
      cases hfound : c.found? with
      | none => rw [List.filterMap_cons_none hfound, hlast]
      | some first =>
        rw [List.filterMap_cons_some hfound, List.getLast?_cons, hlast]
        rfl
    | none =>
      have hnone : cs.filterMap ReaderCall.found? = [] := List.getLast?_eq_none_iff.1 hlast
      cases c with
      | next =>
        rw [List.filterMap_cons_none rfl, hlast]
        exact isOpen_next r
      | opening o =>
        cases hfound : (ReaderCall.opening o).found? with
        | none =>
          rw [List.filterMap_cons_none hfound, hlast]
          simp only [call, opening_of_missing hfound]
        | some source =>
          rw [List.filterMap_cons_some hfound, hnone]
          simp only [call, opening_of_found hfound, List.getLast?_singleton]
          exact isOpen_openSource r source

/-- **A failed opening closes the reader, unless the file is missing**, whatever has been opened
and read before.  Then it gives no blocks, of this tape or of an earlier one, and nothing about it
changes, however often it is asked.  A file that is missing leaves the reader as it was, open or
closed; it is open just if the last source that was found has been opened. -/
theorem closed_unless_missing (piece : ReadSize) (before : List ReaderCall) (o : Opening)
    (n : Nat) :
    let r := ((idle piece).perform before).1
    let opened := (r.opening o).1
    let later := opened.perform (List.replicate n .next)
    (∀ f, (r.opening o).2 = some f → o.found? ≠ none ∨ r.isOpen = false →
        opened.isOpen = false ∧ opened.next = (none, opened) ∧
          later = (opened, List.replicate n (.gave none))) ∧
      (o.found? = none → r.opening o = (r, some .io)) ∧
      r.isOpen = match (before.filterMap ReaderCall.found?).getLast? with
        | some source => source.refusal?.isNone
        | none => false := by
  intro r opened later
  refine ⟨fun f hf hclosing => ?_, opening_of_missing, isOpen_perform _ before⟩
  have hclosed : opened.isOpen = false := by
    cases hfound : o.found? with
    | none =>
      have hsame : opened = r := congrArg Prod.fst (opening_of_missing hfound)
      rw [hsame]
      exact hclosing.resolve_left fun hsome => hsome hfound
    | some source =>
      rw [opening_of_found hfound, snd_openSource] at hf
      have hopened : opened = r.cleared := by
        change (r.opening o).1 = r.cleared
        rw [opening_of_found hfound, openSource_of_refusal hf]
      rw [hopened]
      rfl
  exact ⟨hclosed, next_of_closed hclosed, perform_of_closed hclosed n⟩

/-- A tape with one block. -/
def plainTape : Source :=
  .ofBytes (Header.blank.encode ++ Block.frame ⟨7, 1, [1, 2, 3, 4], false⟩)

set_option maxRecDepth 4000 in
/-- Behind the tape, a source that is too short for a header closes the reader. -/
theorem closed_unless_missing_of_plainTape :
    let r := ((idle .standard).perform [.opening (.source plainTape)]).1
    let opened := (r.opening (.file (some (.ofBytes [1, 2, 3])))).1
    (r.opening (.file (some (.ofBytes [1, 2, 3])))).2 = some .incomplete ∧
      r.isOpen = true ∧ opened.isOpen = false ∧
      (opened.perform (List.replicate 2 .next)).2 = [.gave none, .gave none] := by
  intro r opened
  have hfault : (r.opening (.file (some (.ofBytes [1, 2, 3])))).2 = some .incomplete := by
    decide +kernel
  have hopen : r.isOpen = true := by decide +kernel
  obtain ⟨hclosing, -, -⟩ := closed_unless_missing .standard [.opening (.source plainTape)]
    (.file (some (.ofBytes [1, 2, 3]))) 2
  obtain ⟨hclosed, -, hlater⟩ := hclosing .incomplete hfault (.inl nofun)
  exact ⟨hfault, hopen, hclosed, congrArg Prod.snd hlater⟩

set_option maxRecDepth 4000 in
/-- **A reader that is to open a file that is missing goes on with the tape that it had.** -/
theorem open_after_missing :
    let r := ((idle .standard).perform [.opening (.source plainTape)]).1
    let opened := (r.opening (.file none)).1
    (r.opening (.file none)).2 = some .io ∧ opened.isOpen = true ∧
      opened.next.1 = some ⟨7, 1, [1, 2, 3, 4], false⟩ ∧
      opened.counts.blocks = 0 ∧ opened.next.2.counts.blocks = 1 := by
  decide +kernel

end Reader

end IqTape
