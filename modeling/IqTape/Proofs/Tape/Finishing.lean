import IqTape.Proofs.Tape.FullSink

/-!
# Finishing goes to the start of the sink

A tape may be started behind other bytes.  Its header goes behind them, and so do its frames;
but a tape that is finished is rewound, and a sink is rewound to its own start.  The header
with the totals is therefore put over the first bytes of the sink, whatever they are.  They
are the header of the tape when the tape was started at the start of the sink, and only then.

## Main definitions

* `Sink.boundless` — the sink as it would be without a limit.
* `Header.fronting` — the bytes of a sink whose front has been replaced by a header.
* `Writer.Stands` — the state between calls that have all succeeded.

## Main results

* `Sink.boundless_put`, `Sink.boundless_moveTo` — a sink that has not failed has not met its
  limit.
* `Writer.Stands.append`, `Writer.Stands.finish`, `Writer.Stands.calls` — what each call, and a
  series of calls, leaves.
* `Writer.finished_at_start` — what is on the sink in the end.
-/

namespace IqTape

namespace Bytes

/-- What is put over the front covers what was put there before. -/
theorem overwrite_front_twice {old new : Bytes} (bs : Bytes) (h : old.length = new.length) :
    (bs.overwrite 0 old).overwrite 0 new = bs.overwrite 0 new := by
  have hfront : bs.overwrite 0 old = old ++ bs.drop old.length := by simp [overwrite]
  rw [hfront, overwrite_front _ h, h]
  simp [overwrite]

/-- What is appended is not touched when the front is replaced. -/
theorem overwrite_front_append {bs new : Bytes} (more : Bytes) (h : new.length ≤ bs.length) :
    bs.overwrite 0 new ++ more = (bs ++ more).overwrite 0 new := by
  simp [overwrite, List.drop_append_of_le_length h]

theorem length_overwrite_front {bs new : Bytes} (h : new.length ≤ bs.length) :
    (bs.overwrite 0 new).length = bs.length := by
  rw [length_overwrite new (Nat.zero_le _), Nat.zero_add, Nat.max_eq_left h]

end Bytes

namespace Sink

variable {s : Sink} {bs new : Bytes} {cursor : Nat}

/-! ### Sinks that have not failed -/

/-- The sink as it would be without a limit. -/
def boundless (s : Sink) : Sink := { s with limit := none }

theorem boundless_place (s : Sink) (bs : Bytes) :
    (s.place bs).boundless = s.boundless.place bs := by
  by_cases h : s.position = s.size
  · simp [place, boundless, h]
  · simp [place, boundless, h, content]

/-- Bytes that are passed on without a failure are all placed. -/
theorem boundless_pass (h : (s.pass bs).good = true) :
    (s.pass bs).boundless = s.boundless.pass bs := by
  have hplace : s.pass bs = s.place bs := by
    unfold pass at h ⊢
    split
    · rfl
    · next limit hlimit =>
      by_cases hfits : s.position + bs.length ≤ limit
      · rw [if_pos hfits]
      · simp only [hlimit, if_neg hfits] at h
        cases h
  rw [hplace, boundless_place]
  rfl

theorem good_of_put (h : (s.put new).good = true) : s.good = true := by
  rcases hgood : s.good with _ | _
  · rw [put_of_bad hgood, hgood] at h
    exact h
  · rfl

theorem good_of_flush (h : s.flush.good = true) : s.good = true := by
  rcases hgood : s.good with _ | _
  · simp [flush, hgood] at h
  · rfl

theorem good_of_moveTo {position : Sink → Nat} (h : (s.moveTo position).good = true) :
    s.flush.good = true := by
  rcases hgood : s.flush.good with _ | _
  · simp [moveTo, hgood] at h
  · rfl

/-- Letting go of what was held back fails as passing it on does. -/
theorem boundless_release {next : Sink}
    (h : (if next.good then { next with held := [] } else next : Sink).good = true) :
    next.good = true ∧ (if next.good then { next with held := [] } else next : Sink).boundless =
      { next.boundless with held := [] } := by
  by_cases hgood : next.good = true
  · rw [if_pos hgood]
    exact ⟨hgood, rfl⟩
  · rw [if_neg hgood] at h
    exact absurd h hgood

/-- **A write that has not failed has not met the limit.** -/
theorem boundless_put (h : (s.put new).good = true) :
    (s.put new).boundless = s.boundless.put new := by
  have hgood := good_of_put h
  have hgood' : s.boundless.good = true := hgood
  by_cases hroom : min large (s.room - s.held.length) ≤ new.length
  · have hroom' : min large (s.boundless.room - s.boundless.held.length) ≤ new.length := hroom
    simp only [put, hgood, Bool.not_true, Bool.false_eq_true, if_false, if_pos hroom] at h ⊢
    obtain ⟨hpassed, hreleased⟩ := boundless_release h
    have hpass := boundless_pass hpassed
    have hgood'' : (s.boundless.pass (s.held ++ new)).good = true := by
      rw [← hpass]
      exact hpassed
    rw [hreleased, hpass]
    simp only [hgood', Bool.not_true, Bool.false_eq_true, if_false, if_pos hroom']
    exact (if_pos hgood'').symm
  · have hroom' : ¬min large (s.boundless.room - s.boundless.held.length) ≤ new.length := hroom
    simp only [put, hgood, hgood', Bool.not_true, Bool.false_eq_true, if_false, if_neg hroom,
      if_neg hroom']
    rfl

/-- **Passing on what is held back**, without a failure, does not meet the limit either. -/
theorem boundless_flush (h : s.flush.good = true) : s.flush.boundless = s.boundless.flush := by
  have hgood := good_of_flush h
  have hgood' : s.boundless.good = true := hgood
  by_cases hheld : s.held.isEmpty
  · have hheld' : s.boundless.held.isEmpty = true := hheld
    simp only [flush, hheld, hheld', Bool.or_true, if_true]
  · have hheld' : ¬s.boundless.held.isEmpty = true := hheld
    simp only [flush, hgood, hheld, Bool.not_true, Bool.false_or, Bool.false_eq_true, if_false]
      at h ⊢
    obtain ⟨hpassed, hreleased⟩ := boundless_release h
    have hpass := boundless_pass hpassed
    have hgood'' : (s.boundless.pass s.held).good = true := by
      rw [← hpass]
      exact hpassed
    rw [hreleased, hpass]
    simp only [hgood', hheld', Bool.not_true, Bool.false_or, Bool.false_eq_true, if_false]
    exact (if_pos hgood'').symm

/-- **A move that has not failed** passes everything on, and does not meet the limit. -/
theorem boundless_moveTo {position : Sink → Nat} (h : (s.moveTo position).good = true)
    (hp : position s.flush = position s.flush.boundless) :
    (s.moveTo position).boundless = s.boundless.moveTo position := by
  have hflush := good_of_moveTo h
  have hboundless := boundless_flush hflush
  have hflush' : s.boundless.flush.good = true := by
    rw [← hboundless]
    exact hflush
  rcases hseek : s.flush.seekable with _ | _
  · simp [moveTo, hflush, hseek] at h
  · have hseek' : s.boundless.flush.seekable = true := by
      rw [← hboundless]
      exact hseek
    simp only [moveTo, hflush, hflush', hseek, hseek', Bool.not_true, Bool.false_eq_true,
      if_false]
    rw [← hboundless, hp]
    rfl

/-! ### What such a sink holds -/

/-- **What a sink holds while nothing fails**: as if it had no limit, `bs`, and the next byte
goes to `cursor`. -/
def WouldHold (s : Sink) (bs : Bytes) (cursor : Nat) : Prop := s.boundless.Holds bs cursor

namespace WouldHold

theorem put (h : s.WouldHold bs cursor) (hgood : (s.put new).good = true) :
    (s.put new).WouldHold (bs.overwrite cursor new) (cursor + new.length) := by
  rw [WouldHold, boundless_put hgood]
  exact Holds.put h new

theorem flush (h : s.WouldHold bs cursor) (hgood : s.flush.good = true) :
    s.flush.WouldHold bs cursor ∧ s.flush.content = bs := by
  have hboundless := boundless_flush hgood
  obtain ⟨hflush, hheld⟩ := Holds.flush h
  have hcontent := hflush.content_eq hheld
  rw [← hboundless] at hflush hcontent
  exact ⟨hflush, hcontent⟩

theorem rewind (h : s.WouldHold bs cursor) (hgood : s.rewind.good = true) :
    s.rewind.WouldHold bs 0 := by
  rw [WouldHold, Sink.rewind, boundless_moveTo hgood rfl]
  exact (Holds.rewind h).1

theorem forward (h : s.WouldHold bs cursor) (hgood : s.forward.good = true) :
    s.forward.WouldHold bs bs.length := by
  rw [WouldHold, Sink.forward, boundless_moveTo hgood rfl]
  exact (Holds.forward h).1

end WouldHold

/-- A sink with some bytes in it, whatever its limit. -/
theorem wouldHold_ofBytes (bs : Bytes) (limit : Option Nat) :
    (ofBytes bs limit true).WouldHold bs bs.length := by
  have hsize : bs.length = bs.reverse.length := List.length_reverse.symm
  exact ⟨rfl, rfl, rfl, hsize, Nat.le_refl _, by simp [ofBytes, boundless, content], rfl⟩

end Sink

/-- The bytes of a sink, with its front replaced by the header of a tape that has been finished;
a tape that was never finished has replaced nothing. -/
def Header.fronting (h : Header) : Option (List Block × UInt64) → Bytes → Bytes
  | none, bs => bs
  | some ending, bs => bs.overwrite 0 (h.endedBy (some ending)).encode

namespace Header

variable (h : Header) (last : Option (List Block × UInt64)) {bs : Bytes}

theorem fronting_append (more : Bytes) (hbs : size ≤ bs.length) :
    h.fronting last bs ++ more = h.fronting last (bs ++ more) := by
  cases last with
  | none => rfl
  | some ending =>
    apply Bytes.overwrite_front_append
    rw [length_encode]
    exact hbs

theorem length_fronting (hbs : size ≤ bs.length) : (h.fronting last bs).length = bs.length := by
  cases last with
  | none => rfl
  | some ending =>
    apply Bytes.length_overwrite_front
    rw [length_encode]
    exact hbs

/-- The last header covers the ones before. -/
theorem overwrite_fronting (ending : List Block × UInt64) :
    (h.fronting last bs).overwrite 0 (h.endedBy (some ending)).encode =
      h.fronting (some ending) bs := by
  cases last with
  | none => rfl
  | some earlier =>
    apply Bytes.overwrite_front_twice
    rw [length_encode, length_encode]

/-- At the start of a sink it is the header of the tape that is replaced. -/
theorem fronting_start (bs : Bytes) :
    h.fronting last ((h.endedBy none).encode ++ bs) = (h.endedBy last).encode ++ bs := by
  cases last with
  | none => rfl
  | some ending =>
    apply Bytes.overwrite_front
    rw [length_encode, length_encode]

/-- Behind the front nothing is replaced. -/
theorem drop_fronting : (h.fronting last bs).drop size = bs.drop size := by
  cases last with
  | none => rfl
  | some ending =>
    have hlen : (h.endedBy (some ending)).encode.length = size := length_encode _
    simp [fronting, Bytes.overwrite, hlen]

/-- **Behind enough other bytes the header of the tape stays as it was.** -/
theorem fronting_behind {before : Bytes} (ending : List Block × UInt64) (bs : Bytes)
    (hbefore : size ≤ before.length) :
    h.fronting (some ending) (before ++ bs) =
      (h.endedBy (some ending)).encode ++ (before.drop size ++ bs) := by
  have hlen : (h.endedBy (some ending)).encode.length = size := length_encode _
  simp [fronting, Bytes.overwrite, hlen, List.drop_append_of_le_length hbefore]

end Header

namespace Writer

/-- A tape is finished only if every part of it has succeeded. -/
theorem finish_of_ok {w : Writer} {second : UInt64} (hok : (w.finish second).2 = none) :
    let header := { w.header with total := w.samples, finish := second }
    let rewound := w.sink.flush.rewind
    let written := rewound.put header.encode
    w.sink.flush.good = true ∧ rewound.good = true ∧ written.good = true ∧
      written.forward.flush.good = true ∧
      w.finish second = ({ w with sink := written.forward.flush, header := header }, none) := by
  intro header rewound written
  have hopen : w.isOpen = true := by
    by_cases hopen : w.isOpen = true
    · exact hopen
    · simp [finish, hopen] at hok
  have hflushed : w.sink.flush.good = true := by
    by_cases hflushed : w.sink.flush.good = true
    · exact hflushed
    · simp [finish, hopen, hflushed] at hok
  have hrewound : rewound.good = true := by
    by_cases hrewound : rewound.good = true
    · exact hrewound
    · simp [finish, hopen, hflushed, rewound, hrewound] at hok
  have hwritten : written.good = true := by
    by_cases hwritten : written.good = true
    · exact hwritten
    · simp [finish, hopen, hflushed, header, rewound, written, hrewound, hwritten] at hok
  have hended : written.forward.flush.good = true := by
    by_cases hended : written.forward.flush.good = true
    · exact hended
    · simp [finish, hopen, hflushed, header, rewound, written, hrewound, hwritten, hended] at hok
  refine ⟨hflushed, hrewound, hwritten, hended, ?_⟩
  simp [finish, hopen, hflushed, header, rewound, written, hrewound, hwritten, hended]

/-! ### The state between calls -/

/-- The sink is as it was when the tape was started, then has the first header and the frames of
the blocks, except that the last header with totals stands over the front of it all. -/
structure Stands (before : Bytes) (h : Header) (packer : Lz4.Packer) (w : Writer)
    (bs : List Block) (last : Option (List Block × UInt64)) : Prop where
  isOpen : w.isOpen = true
  compressor : w.packer = packer
  header : h.SameSession w.header
  samples : w.samples = Block.total bs
  sink :
    let tape := before ++ ((h.endedBy none).encode ++ framesOf packer h.form bs)
    w.sink.WouldHold (h.fronting last tape) tape.length

namespace Stands

variable {before : Bytes} {h : Header} {packer : Lz4.Packer} {w : Writer} {bs : List Block}
  {last : Option (List Block × UInt64)}

/-- There is a header on the sink. -/
theorem size_le (before : Bytes) (h : Header) (frames : Bytes) :
    Header.size ≤ (before ++ ((h.endedBy none).encode ++ frames)).length := by
  rw [List.length_append, List.length_append, Header.length_encode]
  omega

/-- **A tape that is started** goes behind what is there. -/
theorem of_attach (w : Writer) {s : Sink} (hs : s.WouldHold before before.length) (h : Header)
    (hopen : (w.attach s h).2 = none) :
    (w.attach s h).1.Stands before h w.packer [] none := by
  by_cases hgood : (s.put (h.endedBy none).encode).good = true
  · have hput := hs.put hgood
    rw [Bytes.overwrite_end, ← List.length_append] at hput
    have hsink : (s.put (h.endedBy none).encode).WouldHold
        (before ++ ((h.endedBy none).encode ++ framesOf w.packer h.form []))
        (before ++ ((h.endedBy none).encode ++ framesOf w.packer h.form [])).length := by
      have hnil : framesOf w.packer h.form [] = [] := rfl
      rw [hnil, List.append_nil]
      exact hput
    have hresult : w.attach s h = (⟨true, s.put (h.endedBy none).encode, h.endedBy none, 0, 0,
        Header.size.toUInt64, w.name, w.packer⟩, none) := if_pos hgood
    rw [hresult]
    exact ⟨rfl, rfl, rfl, rfl, hsink⟩
  · have hresult : w.attach s h = (⟨false, s.put (h.endedBy none).encode, h.endedBy none, 0, 0,
        0, w.name, w.packer⟩, some .headerNotWritten) := if_neg hgood
    rw [hresult] at hopen
    cases hopen

/-- **A block that is accepted** goes behind everything. -/
theorem append (hw : w.Stands before h packer bs last) (b : Block)
    (hok : (w.append b).2 = none) : (w.append b).1.Stands before h packer (bs ++ [b]) last := by
  rcases append_eq w hw.isOpen b with ⟨f, -, happend⟩ | ⟨stored, hprepare, -, happend⟩
  · rw [happend] at hok
    cases hok
  · by_cases hgood : (w.sink.put stored.frame).good = true
    · rw [if_pos hgood] at happend
      rw [hw.compressor, hw.header.form_eq] at hprepare
      have hframes : framesOf packer h.form (bs ++ [b]) =
          framesOf packer h.form bs ++ stored.frame := by
        rw [framesOf_append, framesOf_cons, storedAs_of_prepare hprepare]
        exact congrArg _ (List.append_nil _)
      have hle := size_le before h (framesOf packer h.form bs)
      have hput := hw.sink.put hgood
      -- The cursor is behind everything, so the frame goes there.
      rw [← Header.length_fronting h last hle, Bytes.overwrite_end,
        Header.fronting_append h last stored.frame hle, Header.length_fronting h last hle,
        ← List.length_append, List.append_assoc, List.append_assoc, ← hframes] at hput
      rw [happend]
      refine ⟨hw.isOpen, hw.compressor, hw.header, ?_, hput⟩
      rw [Block.total_append, ← hw.samples, Block.total_cons, Block.total_nil, UInt64.add_zero,
        count_of_prepare hprepare]
    · rw [if_neg hgood] at happend
      rw [happend] at hok
      cases hok

/-- **A tape that is finished** has its header put over the front of the sink. -/
theorem finish (hw : w.Stands before h packer bs last) (second : UInt64)
    (hok : (w.finish second).2 = none) :
    (w.finish second).1.Stands before h packer bs (some (bs, second)) := by
  obtain ⟨hflushed, hrewound, hwritten, hended, hresult⟩ := finish_of_ok hok
  have hheader : { w.header with total := w.samples, finish := second } =
      h.endedBy (some (bs, second)) := by
    rw [hw.samples]
    exact hw.header.ended_eq _ _
  rw [hheader] at hwritten hended hresult
  have hle := size_le before h (framesOf packer h.form bs)
  have hput := ((hw.sink.flush hflushed).1.rewind hrewound).put hwritten
  rw [Header.overwrite_fronting] at hput
  have hlast := ((hput.forward (Sink.good_of_flush hended)).flush hended).1
  rw [Header.length_fronting h _ hle] at hlast
  rw [hresult]
  exact ⟨hw.isOpen, hw.compressor, rfl, hw.samples, hlast⟩

/-- **A call that succeeds** does one or the other. -/
theorem call (hw : w.Stands before h packer bs last) (c : Call) (hok : (w.call c).2 = true) :
    (w.call c).1.Stands before h packer (bs ++ Call.blocks [c])
      (((w.ended bs c).getLast?).or last) := by
  cases c with
  | append b => exact hw.append b (Option.isNone_iff_eq_none.1 hok)
  | finish second =>
    have hdone : (w.finish second).2 = none := Option.isNone_iff_eq_none.1 hok
    have hended : w.ended bs (.finish second) = [(bs, second)] := by simp [ended, hdone]
    have hsame : bs ++ Call.blocks [.finish second] = bs := List.append_nil bs
    rw [hended, hsame]
    exact hw.finish second hdone

/-- **A series of calls that all succeed** leaves the blocks of all of them, and the last header
with totals over the front. -/
theorem calls (hw : w.Stands before h packer bs last) {cs : List Call}
    (hok : (w.calls cs).2 = true) :
    (w.calls cs).1.Stands before h packer (bs ++ Call.blocks cs)
      (((w.finishes bs cs).getLast?).or last) := by
  induction cs generalizing w bs last with
  | nil =>
    rw [Call.blocks, List.append_nil]
    exact hw
  | cons c cs ih =>
    rw [Writer.calls, Bool.and_eq_true] at hok
    have hrest := ih (hw.call c hok.1) hok.2
    have hblocks : Call.blocks [c] ++ Call.blocks cs = Call.blocks (c :: cs) := by
      cases c <;> rfl
    have htaken : bs ++ Call.blocks [c] = bs ++ w.taken c := by
      cases c with
      | append b =>
        have hb := (taken_of_ok (Option.isNone_iff_eq_none.1 hok.1)).1
        rw [hb]
        rfl
      | finish second => rfl
    -- The header of a later finish replaces the one of an earlier finish.
    rw [List.append_assoc, hblocks, htaken] at hrest
    rw [finishes, List.getLast?_append, Option.or_assoc]
    exact hrest

end Stands

/-- **Finishing goes to the start of the sink.**  A tape is started on a sink that can be moved
in, behind some bytes, and blocks are appended and the tape finished in any order, all of it
with success.  Then the sink has the bytes that were there, the first header and the frames of
the blocks in order, with the last header with totals over the front of it all: behind the
length of a header nothing has been replaced.  On a sink that was empty this is the finished
header and the frames.  Behind enough other bytes, the first of them are gone, and the header of
the tape still says that the session is open. -/
theorem finished_at_start (w : Writer) {s : Sink} {before : Bytes}
    (hs : s.WouldHold before before.length) (h : Header) {cs : List Call}
    (hopen : (w.attach s h).2 = none) (hok : ((w.attach s h).1.calls cs).2 = true)
    (hflush : ((w.attach s h).1.calls cs).1.sink.flush.good = true) :
    let opened := (w.attach s h).1
    let arrived := (opened.calls cs).1.sink.flush.content
    let last := (opened.finishes [] cs).getLast?
    let tape := (h.endedBy none).encode ++ framesOf w.packer h.form (Call.blocks cs)
    arrived = h.fronting last (before ++ tape) ∧
      arrived.drop Header.size = (before ++ tape).drop Header.size ∧
      (before = [] →
        arrived = (h.endedBy last).encode ++ framesOf w.packer h.form (Call.blocks cs)) ∧
      ∀ ending, last = some ending → Header.size ≤ before.length →
        arrived = (h.endedBy last).encode ++ (before.drop Header.size ++ tape) := by
  intro opened arrived last tape
  have hstands := (Stands.of_attach w hs h hopen).calls hok
  rw [List.nil_append, Option.or_none] at hstands
  have harrived : arrived = h.fronting last (before ++ tape) := (hstands.sink.flush hflush).2
  refine ⟨harrived, ?_, ?_, ?_⟩
  · rw [harrived, Header.drop_fronting]
  · rintro rfl
    rw [harrived, List.nil_append, Header.fronting_start]
  · intro ending hlast hbefore
    rw [harrived, hlast, Header.fronting_behind h ending tape hbefore]

/-- A sink that can be moved in, with four bytes in it. -/
def sampleSink : Sink := .ofBytes [1, 2, 3, 4] none true

/-- A block, and the end of the session. -/
def finishedCalls : List Call := [.append ⟨7, 1, [9, 8, 7, 6], false⟩, .finish 5]

/-- Of the four bytes in front of the sample tape nothing is left. -/
theorem finished_at_start_of_sampleSink :
    let opened := Writer.idle.attach sampleSink Header.blank
    let ended := opened.1.calls finishedCalls
    let last := (opened.1.finishes [] finishedCalls).getLast?
    let tape := (Header.blank.endedBy none).encode ++
      framesOf Writer.idle.packer Header.blank.form (Call.blocks finishedCalls)
    opened.2 = none ∧ ended.2 = true ∧ ended.1.sink.flush.good = true ∧
      ended.1.sink.flush.content = Header.blank.fronting last ([1, 2, 3, 4] ++ tape) := by
  have hopen : (Writer.idle.attach sampleSink Header.blank).2 = none := by decide +kernel
  have hok : ((Writer.idle.attach sampleSink Header.blank).1.calls finishedCalls).2 = true := by
    decide +kernel
  have hflush : ((Writer.idle.attach sampleSink Header.blank).1.calls
      finishedCalls).1.sink.flush.good = true := by
    decide +kernel
  have hs : sampleSink.WouldHold [1, 2, 3, 4] [1, 2, 3, 4].length :=
    Sink.wouldHold_ofBytes [1, 2, 3, 4] none
  obtain ⟨hcontent, -⟩ := finished_at_start Writer.idle hs Header.blank hopen hok hflush
  exact ⟨hopen, hok, hflush, hcontent⟩

/-- The sample tape does not end as its header, with the totals, behind the four bytes that were
there before it. -/
theorem not_finished_in_place :
    let opened := Writer.idle.attach sampleSink Header.blank
    let ended := opened.1.calls finishedCalls
    let header := Header.blank.endedBy (opened.1.finishes [] finishedCalls).getLast?
    let frames := framesOf Writer.idle.packer Header.blank.form (Call.blocks finishedCalls)
    opened.2 = none ∧ ended.2 = true ∧
      ended.1.sink.content ≠ [1, 2, 3, 4] ++ (header.encode ++ frames) := by
  decide +kernel

end Writer

end IqTape
