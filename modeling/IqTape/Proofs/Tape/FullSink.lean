import IqTape.Proofs.Tape.Truncation
import IqTape.Proofs.Tape.Unbuffered

/-!
# A sink that runs full loses nothing

A sink that holds nothing back stops taking bytes somewhere.  The frame that runs into that
point is cut off and its block refused, and nothing is written after it.  Whatever has been
accepted before is there: behind the header, in order, and before what there is of the refused
frame.  The header can be replaced as long as nothing has failed, since it was written first.

## Main definitions

* `Writer.accepted`, `Writer.rejected` — the blocks that a series of calls leaves on the tape,
  and those that it does not.
* `Writer.finishes`, `Header.endedBy` — the header, as the sink has it.
* `Writer.Kept` — the state between calls, whether or not the sink has failed.

## Main results

* `Writer.Kept.append`, `Writer.Kept.finish` — what each call leaves.
* `Reader.drain_of_mixed` — whole blocks come out among refused ones.
* `Writer.nothing_lost` — a series of calls.
-/

namespace IqTape

/-- The header of a tape that was last finished with some blocks on it, or never. -/
def Header.endedBy (h : Header) : Option (List Block × UInt64) → Header
  | none => { h with total := 0, finish := 0 }
  | some (bs, second) => { h with total := Block.total bs, finish := second }

namespace Header

variable (h : Header) (last : Option (List Block × UInt64))

@[simp] theorem form_endedBy : (h.endedBy last).form = h.form := by cases last <;> rfl

@[simp] theorem format_endedBy : (h.endedBy last).format = h.format := by cases last <;> rfl

theorem isListed_endedBy {h : Header} (hl : h.IsListed) (last : Option (List Block × UInt64)) :
    (h.endedBy last).IsListed := by
  cases last <;> exact hl.ended _ _

end Header

namespace Writer

/-! ### What a series of calls leaves -/

/-- The block that a call puts onto the tape. -/
def taken (w : Writer) : Call → List Block
  | .append b => if (w.append b).2.isNone then [b] else []
  | .finish _ => []

/-- The block that a call is given and does not put onto the tape. -/
def turnedAway (w : Writer) : Call → List Block
  | .append b => if (w.append b).2.isNone then [] else [b]
  | .finish _ => []

theorem taken_of_ok {w : Writer} {b : Block} (h : (w.append b).2 = none) :
    w.taken (.append b) = [b] ∧ w.turnedAway (.append b) = [] := by
  rw [taken, turnedAway, h]
  exact ⟨rfl, rfl⟩

theorem taken_of_error {w : Writer} {b : Block} {f : Fault} (h : (w.append b).2 = some f) :
    w.taken (.append b) = [] ∧ w.turnedAway (.append b) = [b] := by
  rw [taken, turnedAway, h]
  exact ⟨rfl, rfl⟩

/-- The end of the session that a call writes into the header, with the blocks that are on the
tape. -/
def ended (w : Writer) (bs : List Block) : Call → List (List Block × UInt64)
  | .append _ => []
  | .finish second => if (w.finish second).2.isNone then [(bs, second)] else []

/-- The blocks that a series of calls puts onto the tape. -/
def accepted (w : Writer) : List Call → List Block
  | [] => []
  | c :: cs => w.taken c ++ (w.call c).1.accepted cs

/-- The blocks that it is given and does not put there. -/
def rejected (w : Writer) : List Call → List Block
  | [] => []
  | c :: cs => w.turnedAway c ++ (w.call c).1.rejected cs

/-- The times when the tape is finished, with the blocks that are on it then. -/
def finishes (w : Writer) (bs : List Block) : List Call → List (List Block × UInt64)
  | [] => []
  | c :: cs => w.ended bs c ++ (w.call c).1.finishes (bs ++ w.taken c) cs

/-- Whether a call runs into a failure of the sink. -/
def BreaksOn (w : Writer) : Call → Prop
  | .append b => (w.append b).2 = some .io
  | .finish second => (w.finish second).2 ≠ none

/-! ### What the sink shows -/

/-- The sink holds a header, the frames of some blocks, and, if it has failed, perhaps a part of
the frame of one that was refused. -/
def Shows (h : Header) (packer : Lz4.Packer) (bs rejected : List Block)
    (last : Option (List Block × UInt64)) (s : Sink) : Prop :=
  ∃ torn, s.Bare ((h.endedBy last).encode ++ (framesOf packer h.form bs ++ torn)) ∧
    (s.good = true → s.AtEnd ∧ torn = []) ∧
    (torn = [] ∨ ∃ b ∈ rejected, Takes packer h.form b ∧
      torn <+: (storedAs packer h.form b).frame ∧
      torn.length < (storedAs packer h.form b).frame.length)

namespace Shows

variable {h : Header} {packer : Lz4.Packer} {bs rejected : List Block}
  {last : Option (List Block × UInt64)} {s : Sink}

/-- More blocks may be refused. -/
theorem reject (hs : Shows h packer bs rejected last s) (b : Block) :
    Shows h packer bs (rejected ++ [b]) last s := by
  obtain ⟨torn, hbare, hgood, htorn⟩ := hs
  refine ⟨torn, hbare, hgood, ?_⟩
  rcases htorn with hnone | ⟨b', hb', hpart⟩
  · exact .inl hnone
  · exact .inr ⟨b', List.mem_append_left _ hb', hpart⟩

/-- A sink that has not failed shows no part of a frame. -/
theorem of_good (hs : Shows h packer bs rejected last s) (hgood : s.good = true) :
    s.Bare ((h.endedBy last).encode ++ framesOf packer h.form bs) ∧ s.AtEnd := by
  obtain ⟨torn, hbare, hnone, -⟩ := hs
  obtain ⟨hend, rfl⟩ := hnone hgood
  rw [List.append_nil] at hbare
  exact ⟨hbare, hend⟩

/-- **A frame is added, or cut off and its block refused.** -/
theorem put (hs : Shows h packer bs rejected last s) {b : Block} (ht : Takes packer h.form b) :
    ((s.put (storedAs packer h.form b).frame).good = true ∧
      Shows h packer (bs ++ [b]) rejected last (s.put (storedAs packer h.form b).frame)) ∨
    ((s.put (storedAs packer h.form b).frame).good = false ∧
      Shows h packer bs (rejected ++ [b]) last (s.put (storedAs packer h.form b).frame)) := by
  cases hbefore : s.good with
  | false =>
    -- What is there of a frame stays, and nothing goes behind it.
    rw [Sink.put_of_bad hbefore]
    exact .inr ⟨hbefore, hs.reject b⟩
  | true =>
    obtain ⟨hbare, hend⟩ := hs.of_good hbefore
    have hnew : 0 < (storedAs packer h.form b).frame.length := by
      rw [Block.length_frame]
      exact Nat.lt_of_lt_of_le (by decide) (Nat.le_add_right Block.overhead _)
    have hframes : framesOf packer h.form (bs ++ [b]) =
        framesOf packer h.form bs ++ (storedAs packer h.form b).frame := by
      rw [framesOf_append, framesOf_cons]
      exact congrArg _ (List.append_nil _)
    rcases hbare.put_cases hend hnew with ⟨hend', hbare'⟩ | ⟨hbad, part, hfirst, hless, hbare'⟩
    · rw [List.append_assoc, ← hframes] at hbare'
      refine .inl ⟨hend'.good, [], ?_, fun _ => ⟨hend', rfl⟩, .inl rfl⟩
      rw [List.append_nil]
      exact hbare'
    · -- The sink runs full on this frame.
      rw [List.append_assoc] at hbare'
      have hnot : ¬(s.put (storedAs packer h.form b).frame).good = true := by
        rw [hbad]
        decide
      exact .inr ⟨hbad, part, hbare', fun hgood => absurd hgood hnot,
        .inr ⟨b, List.mem_append_right _ (List.mem_singleton_self b), ht, hfirst, hless⟩⟩

theorem flush_eq (hs : Shows h packer bs rejected last s) : s.flush = s := by
  obtain ⟨torn, hbare, -⟩ := hs
  exact hbare.flush_eq

/-- A sink that cannot be moved in fails, and keeps what it shows. -/
theorem rewind_of_fixed (hs : Shows h packer bs rejected last s) (hgood : s.good = true)
    (hfixed : s.seekable = false) :
    s.rewind.good = false ∧ s.rewind.limit = s.limit ∧
      Shows h packer bs rejected last s.rewind := by
  obtain ⟨torn, hbare, -, htorn⟩ := hs
  have hrewind : s.rewind = { s with good := false } := by
    rw [Sink.rewind, hbare.moveTo_eq hgood, hfixed]
    rfl
  rw [hrewind]
  refine ⟨rfl, rfl, torn, ⟨hbare.room, hbare.held, hbare.size, hbare.content⟩, ?_, htorn⟩
  rintro ⟨⟩

/-- **The header is replaced** by one that says more, and the frames stay. -/
theorem replace (hs : Shows h packer bs rejected last s) (hgood : s.good = true)
    (hseek : s.seekable = true) (hlimit : ∀ n, s.limit = some n → Header.size ≤ n)
    (later : Option (List Block × UInt64)) :
    s.rewind.good = true ∧ (s.rewind.put (h.endedBy later).encode).good = true ∧
      (s.rewind.put (h.endedBy later).encode).forward.flush.good = true ∧
      Shows h packer bs rejected later (s.rewind.put (h.endedBy later).encode).forward.flush ∧
      (s.rewind.put (h.endedBy later).encode).forward.flush.limit = s.limit := by
  obtain ⟨hbare, hend⟩ := hs.of_good hgood
  have hlen : (h.endedBy last).encode.length = (h.endedBy later).encode.length := by
    rw [Header.length_encode, Header.length_encode]
  obtain ⟨hrewind, hput, hend', hbare', hsame⟩ := hbare.replace hend hseek hlen
    (by rw [Header.length_encode]; exact hlimit)
  refine ⟨hrewind, hput, hend'.good, ⟨[], ?_, fun _ => ⟨hend', rfl⟩, .inl rfl⟩, hsame⟩
  rw [List.append_nil]
  exact hbare'

end Shows

/-! ### The state between calls -/

/-- The figures of a writer are those of the blocks that its sink shows. -/
structure Kept (h : Header) (packer : Lz4.Packer) (w : Writer) (bs rejected : List Block)
    (last : Option (List Block × UInt64)) : Prop where
  isOpen : w.isOpen = true
  compressor : w.packer = packer
  header : h.SameSession w.header
  samples : w.samples = Block.total bs
  blocks : w.blocks = bs.length.toUInt64
  bytes : w.bytes = (Header.size + (framesOf packer h.form bs).length).toUInt64
  /-- A header has room. -/
  limit : ∀ n, w.sink.limit = some n → Header.size ≤ n
  takes : ∀ b ∈ bs, Takes packer h.form b
  sink : Shows h packer bs rejected last w.sink

/-- **A call that fails changes none of the figures.** -/
theorem figures_of_failure (w : Writer) (c : Call) (h : (w.call c).2 = false) :
    (w.call c).1.blocks = w.blocks ∧ (w.call c).1.samples = w.samples ∧
      (w.call c).1.bytes = w.bytes := by
  cases c with
  | append b =>
    rw [call] at h ⊢
    rcases append_cases w b with ⟨sink, f, happend⟩ | ⟨sink, size, happend⟩
    · rw [happend]
      exact ⟨rfl, rfl, rfl⟩
    · rw [happend] at h
      cases h
  | finish second =>
    rw [call]
    unfold finish
    split
    · exact ⟨rfl, rfl, rfl⟩
    · simp only
      split
      · exact ⟨rfl, rfl, rfl⟩
      · split
        · exact ⟨rfl, rfl, rfl⟩
        · split <;> exact ⟨rfl, rfl, rfl⟩

namespace Kept

variable {h : Header} {packer : Lz4.Packer} {w : Writer} {bs rejected : List Block}
  {last : Option (List Block × UInt64)}

theorem not_closed (hk : w.Kept h packer bs rejected last) : ¬(!w.isOpen) = true := by
  rw [hk.isOpen]
  decide

/-- **A block is accepted, and its frame is there, or refused**, with perhaps a part of its
frame there if that is where the sink runs full. -/
theorem append (hk : w.Kept h packer bs rejected last) (b : Block) :
    (w.append b).1.Kept h packer (bs ++ w.taken (.append b))
        (rejected ++ w.turnedAway (.append b)) last ∧
      ((w.append b).2 = some .io → (w.append b).1.sink.good = false) := by
  rcases append_eq w hk.isOpen b with ⟨f, hf, happend⟩ | ⟨stored, hprepare, hsize, happend⟩
  · -- Nothing has been written, so only the list of the refused blocks grows.
    obtain ⟨htaken, hturned⟩ := taken_of_error (congrArg Prod.snd happend)
    rw [htaken, hturned, happend, List.append_nil]
    refine ⟨{ hk with sink := hk.sink.reject b }, ?_⟩
    intro hio
    exact absurd (Option.some.inj hio) hf
  · rw [hk.compressor, hk.header.form_eq] at hprepare
    have hstored := storedAs_of_prepare hprepare
    have hlimit : ∀ n, (w.sink.put stored.frame).limit = some n → Header.size ≤ n := by
      rw [Sink.limit_put]
      exact hk.limit
    have hput := hk.sink.put ⟨stored, hprepare, hsize⟩
    rw [hstored] at hput
    rcases hput with ⟨hgood, hshows⟩ | ⟨hbad, hshows⟩
    · rw [if_pos hgood] at happend
      obtain ⟨htaken, hturned⟩ := taken_of_ok (congrArg Prod.snd happend)
      rw [htaken, hturned, happend, List.append_nil]
      refine ⟨⟨hk.isOpen, hk.compressor, hk.header, ?_, ?_, ?_, hlimit, ?_, hshows⟩, nofun⟩
      · rw [Block.total_append, ← hk.samples, Block.total_cons, Block.total_nil,
          UInt64.add_zero, count_of_prepare hprepare]
      · rw [hk.blocks, List.length_append]
        exact (toUInt64_add _ 1).symm
      · rw [hk.bytes, framesOf_append, framesOf_cons, hstored, List.length_append,
          List.length_append, Block.length_frame, ← Nat.add_assoc]
        exact (toUInt64_add _ _).symm
      · intro b' hb'
        rcases List.mem_append.1 hb' with hearlier | hnew
        · exact hk.takes b' hearlier
        · rw [List.mem_singleton.1 hnew]
          exact ⟨stored, hprepare, hsize⟩
    · rw [if_neg (by rw [hbad]; decide)] at happend
      obtain ⟨htaken, hturned⟩ := taken_of_error (congrArg Prod.snd happend)
      rw [htaken, hturned, happend, List.append_nil]
      exact ⟨{ hk with limit := hlimit, sink := hshows }, fun _ => hbad⟩

/-- **A tape is finished, and the header says so, or nothing is changed** and nothing more can
be written. -/
theorem finish (hk : w.Kept h packer bs rejected last) (second : UInt64) :
    ((w.finish second).2 = none ∧
      (w.finish second).1.Kept h packer bs rejected (some (bs, second))) ∨
    ((w.finish second).2 ≠ none ∧ (w.finish second).1.Kept h packer bs rejected last ∧
      (w.finish second).1.sink.good = false) := by
  have hheader : { w.header with total := w.samples, finish := second } =
      h.endedBy (some (bs, second)) := by
    rw [hk.samples]
    exact hk.header.ended_eq _ _
  have hsession : h.SameSession (h.endedBy (some (bs, second))) := rfl
  simp only [Writer.finish]
  rw [if_neg hk.not_closed, hk.sink.flush_eq, hheader]
  cases hgood : w.sink.good with
  | false => exact .inr ⟨Option.some_ne_none _, hk, hgood⟩
  | true =>
    rw [if_neg (by decide)]
    cases hseek : w.sink.seekable with
    | false =>
      -- The writer already has the new header, but the sink keeps the old one.
      right
      obtain ⟨hbad, hlimit, hshows⟩ := hk.sink.rewind_of_fixed hgood hseek
      rw [hbad, if_pos (by decide)]
      refine ⟨Option.some_ne_none _,
        { hk with header := hsession, limit := ?_, sink := hshows }, hbad⟩
      rw [hlimit]
      exact hk.limit
    | true =>
      left
      obtain ⟨hrewind, hput, hlast, hshows, hlimit⟩ :=
        hk.sink.replace hgood hseek hk.limit (some (bs, second))
      rw [hrewind, if_neg (by decide), hput, if_neg (by decide), hlast]
      refine ⟨rfl, { hk with header := hsession, limit := ?_, sink := hshows }⟩
      rw [hlimit]
      exact hk.limit

/-- **Every call keeps the state**, and one that runs into a failure leaves a failed sink. -/
theorem call (hk : w.Kept h packer bs rejected last) (c : Call) :
    (w.call c).1.Kept h packer (bs ++ w.taken c) (rejected ++ w.turnedAway c)
        (((w.ended bs c).getLast?).or last) ∧
      (w.BreaksOn c → (w.call c).1.sink.good = false) := by
  cases c with
  | append b => exact hk.append b
  | finish second =>
    have hno : bs ++ w.taken (.finish second) = bs := List.append_nil bs
    have hnone : rejected ++ w.turnedAway (.finish second) = rejected := List.append_nil rejected
    rw [hno, hnone]
    rcases hk.finish second with ⟨hok, hnext⟩ | ⟨hfailed, hnext, hbad⟩
    · have hended : w.ended bs (.finish second) = [(bs, second)] := by simp [ended, hok]
      rw [hended]
      exact ⟨hnext, fun hbreaks => absurd hok hbreaks⟩
    · have hended : w.ended bs (.finish second) = [] := by
        rw [ended, if_neg]
        rw [Option.isNone_iff_eq_none]
        exact hfailed
      rw [hended]
      exact ⟨hnext, fun _ => hbad⟩

/-- **So does a series of calls.** -/
theorem calls (hk : w.Kept h packer bs rejected last) (cs : List Call) :
    (w.calls cs).1.Kept h packer (bs ++ w.accepted cs) (rejected ++ w.rejected cs)
      (((w.finishes bs cs).getLast?).or last) := by
  induction cs generalizing w bs rejected last with
  | nil =>
    rw [accepted, Writer.rejected, List.append_nil, List.append_nil]
    exact hk
  | cons c cs ih =>
    -- The header of a later finish replaces the one of an earlier finish.
    have hrest := ih (hk.call c).1
    rw [List.append_assoc, List.append_assoc] at hrest
    rw [accepted, Writer.rejected, finishes, List.getLast?_append, Option.or_assoc]
    exact hrest

/-- **Once the sink has failed, every call fails** and changes nothing more. -/
theorem call_of_bad (hk : w.Kept h packer bs rejected last) (hbad : w.sink.good = false)
    (c : Call) : (w.call c).2 = false ∧ (w.call c).1 = w := by
  cases c with
  | append b =>
    rw [Writer.call]
    rcases append_eq w hk.isOpen b with ⟨f, -, happend⟩ | ⟨stored, -, -, happend⟩
    · rw [happend]
      exact ⟨rfl, rfl⟩
    · rw [Sink.put_of_bad hbad, if_neg (by rw [hbad]; decide)] at happend
      rw [happend]
      exact ⟨rfl, rfl⟩
  | finish second =>
    have hfinish : w.finish second = (w, some .notFlushed) := by
      simp only [Writer.finish]
      rw [if_neg hk.not_closed, hk.sink.flush_eq, if_pos (by rw [hbad]; rfl)]
    rw [Writer.call, hfinish]
    exact ⟨rfl, rfl⟩

theorem calls_of_bad (hk : w.Kept h packer bs rejected last) (hbad : w.sink.good = false)
    (cs : List Call) : (w.calls cs).1 = w := by
  induction cs with
  | nil => rfl
  | cons c cs ih =>
    obtain ⟨-, hsame⟩ := hk.call_of_bad hbad c
    rw [Writer.calls, hsame]
    exact ih

end Kept

/-- **A tape that could be started shows its first header.** -/
theorem kept_attach {w : Writer} {limit : Option Nat} {seekable : Bool} {h : Header}
    (hopen : (w.attach (.ofBytes [] limit seekable) h).2 = none) :
    (w.attach (.ofBytes [] limit seekable) h).1.Kept h w.packer [] [] none := by
  have hbare : (Sink.ofBytes [] limit seekable).Bare [] := ⟨rfl, rfl, rfl, rfl⟩
  have hsize := Header.length_encode (h.endedBy none)
  have hfirst : { h with total := 0, finish := 0 } = h.endedBy none := rfl
  simp only [attach] at hopen ⊢
  rw [hfirst] at hopen ⊢
  split at hopen
  · next hgood =>
    rw [if_pos hgood]
    have hlimit : ∀ n, ((Sink.ofBytes [] limit seekable).put (h.endedBy none).encode).limit =
        some n → Header.size ≤ n := by
      intro n hn
      rw [Sink.limit_put] at hn
      rw [← hsize]
      exact hbare.length_le_of_put rfl hgood hn
    rcases hbare.put_cases ⟨rfl, rfl⟩ (by rw [hsize]; decide) with ⟨hend, hheld⟩ | ⟨hbad, -⟩
    · refine ⟨rfl, rfl, rfl, rfl, rfl, rfl, hlimit, List.forall_mem_nil _,
        [], ?_, fun _ => ⟨hend, rfl⟩, .inl rfl⟩
      rw [List.nil_append] at hheld
      have hnil : framesOf w.packer h.form [] ++ [] = [] := rfl
      rw [hnil, List.append_nil]
      exact hheld
    · -- A sink without room for the header has not been opened.
      rw [hgood] at hbad
      cases hbad
  · cases hopen

/-! ### Reading what is there -/

/-- The frame of a raw block shows the block if it is whole, and is passed over if not. -/
theorem examine_storedAs {packer : Lz4.Packer} {h : Header} {b : Block} (hraw : b.packed = false)
    (ht : Takes packer h.form b) (hr : h.form.packs = true → packer.Rebuilds b.payload)
    (more : Bytes) :
    Reader.examine h ((storedAs packer h.form b).frame ++ more) =
      if b.IsWhole h.format then .good b (storedAs packer h.form b).frame.length
      else .bad (storedAs packer h.form b).frame.length := by
  obtain ⟨stored, hprepare, hsize⟩ := ht
  rw [storedAs_of_prepare hprepare, Block.length_frame]
  obtain ⟨hpacked, hunpack⟩ := unpack_of_prepare hraw hprepare hr
  have hdecode := Block.decode_frame h.form.packs stored more hsize
  rw [← hpacked] at hdecode
  rw [Reader.examine, ← hpacked, hdecode]
  simp only
  rw [Block.accept_of_unpack hraw hunpack]
  by_cases hw : b.IsWhole h.format
  · rw [if_pos hw, if_pos hw]
  · rw [if_neg hw, if_neg hw]

end Writer

/-- **Whole blocks come out among refused ones**, and before anything else. -/
theorem Scan.drainFor_mixed {h : Header} {stored : Block → Block} {bs : List Block}
    (hs : ∀ b ∈ bs, ∀ more, Reader.examine h ((stored b).frame ++ more) =
      if b.IsWhole h.format then .good b (stored b).frame.length
      else .bad (stored b).frame.length)
    (tail : Bytes) {calls : Nat}
    (hcalls : (bs.flatMap (fun b => (stored b).frame) ++ tail).length < calls) (c : ReadCounts) :
    bs.filter (fun b => b.IsWhole h.format) <+:
      (drainFor h calls ⟨bs.flatMap (fun b => (stored b).frame) ++ tail, false, c⟩).1.map
        Prod.fst := by
  induction bs generalizing calls c with
  | nil => exact List.nil_prefix
  | cons b bs ih =>
    have hrest := fun b' hb' => hs b' (List.mem_cons_of_mem b hb')
    have hfirst := hs b List.mem_cons_self (bs.flatMap (fun b => (stored b).frame) ++ tail)
    rw [List.flatMap_cons, List.append_assoc] at hcalls ⊢
    obtain ⟨calls, rfl⟩ : ∃ n, calls = n + 1 := ⟨calls - 1, by omega⟩
    rw [List.length_append, Block.length_frame] at hcalls
    have hcovers : Bytes.covers ((stored b).frame ++
        (bs.flatMap (fun b => (stored b).frame) ++ tail)) Block.overhead = true := by
      rw [Bytes.covers_iff, List.length_append, Block.length_frame, Block.frameSize]
      omega
    have hsize : Block.overhead ≤ (stored b).frameSize := Nat.le_add_right _ _
    simp only [Block.overhead] at hsize
    by_cases hw : b.IsWhole h.format
    · rw [if_pos hw] at hfirst
      have hnext := next_of_good (s := ⟨_, false, c⟩) hcovers hfirst
      rw [List.drop_left] at hnext
      rw [drainFor_of_some hnext, List.filter_cons_of_pos (by simpa using hw), List.map_cons,
        List.cons_prefix_cons]
      exact ⟨rfl, ih hrest (by omega) _⟩
    · -- The frame is passed over, and the search goes on behind it.
      rw [if_neg hw] at hfirst
      have hnext := next_of_bad (s := ⟨_, false, c⟩) hcovers hfirst
      rw [List.drop_left] at hnext
      rw [List.filter_cons_of_neg (by simpa using hw)]
      have hless : (bs.flatMap (fun b => (stored b).frame) ++ tail).length < calls + 1 := by omega
      have hsame := ih hrest hless (c.refused (stored b).frame.length)
      rw [drainFor] at hsame ⊢
      rw [hnext]
      exact hsame

/-- **A header, the frames of raw blocks, and anything behind them**: the whole blocks come
out first. -/
theorem Reader.drain_of_mixed (r : Reader) {mark : Bytes} {h : Header}
    (hm : mark.length = Header.size) (hd : Header.decode mark = .ok h)
    {stored : Block → Block} {bs : List Block}
    (hs : ∀ b ∈ bs, ∀ more, Reader.examine h ((stored b).frame ++ more) =
      if b.IsWhole h.format then .good b (stored b).frame.length
      else .bad (stored b).frame.length) {tail content : Bytes}
    (hc : content = mark ++ (bs.flatMap (fun b => (stored b).frame) ++ tail)) :
    let read := r.openSource (.ofBytes content)
    read.2 = none ∧ read.1.header = h ∧
      bs.filter (fun b => b.IsWhole h.format) <+: read.1.drain.1.map Prod.fst := by
  subst hc
  intro read
  obtain ⟨hopen, hheader⟩ := opens_of_reliable r hm hd
    (bs.flatMap (fun b => (stored b).frame) ++ tail)
  obtain ⟨hfound, -⟩ := drain_of_reliable r hm hd (bs.flatMap (fun b => (stored b).frame) ++ tail)
  have hblocks : read.1.drain.1 = _ := hfound
  rw [hblocks]
  exact ⟨hopen, hheader, Scan.drainFor_mixed hs tail (Nat.lt_succ_self _) .zero⟩

namespace Writer

namespace Kept

variable {h : Header} {packer : Lz4.Packer} {w : Writer} {bs rejected : List Block}
  {last : Option (List Block × UInt64)}

/-- **After a failure of the sink, every call fails.** -/
theorem call_after_break (hk : w.Kept h packer bs rejected last) {before : List Call} {c : Call}
    (hbreaks : (w.calls before).1.BreaksOn c) (later : List Call) (c' : Call) :
    ((w.calls (before ++ c :: later)).1.call c').2 = false := by
  obtain ⟨hnext, hfails⟩ := (hk.calls before).call c
  have hbad := hfails hbreaks
  have hlast : (w.calls (before ++ c :: later)).1 = ((w.calls before).1.call c).1 := by
    rw [calls_append, Writer.calls]
    exact hnext.calls_of_bad hbad later
  rw [hlast]
  exact (hnext.call_of_bad hbad c').1

/-- What is on the sink can be read, and gives the whole blocks first. -/
theorem read (hk : w.Kept h packer bs rejected last) (hl : h.IsListed)
    (hraw : ∀ b ∈ bs, b.packed = false)
    (hr : h.form.packs = true → ∀ b ∈ bs, packer.Rebuilds b.payload) (r : Reader) :
    let read := r.openSource (.ofBytes w.sink.content)
    read.2 = none ∧ read.1.header = h.endedBy last ∧
      bs.filter (fun b => b.IsWhole h.format) <+: read.1.drain.1.map Prod.fst := by
  intro read
  obtain ⟨torn, hbare, -⟩ := hk.sink
  have hshow : ∀ b ∈ bs, ∀ more, Reader.examine (h.endedBy last)
      ((storedAs packer h.form b).frame ++ more) =
        if b.IsWhole (h.endedBy last).format then .good b (storedAs packer h.form b).frame.length
        else .bad (storedAs packer h.form b).frame.length := by
    intro b hb more
    have hframe := examine_storedAs (h := h.endedBy last) (hraw b hb)
      (by rw [Header.form_endedBy]; exact hk.takes b hb)
      (by rw [Header.form_endedBy]; exact fun hform => hr hform b hb) more
    rw [Header.form_endedBy] at hframe
    exact hframe
  have hdrain := r.drain_of_mixed (Header.length_encode _)
    (Header.decode_encode_self (Header.isListed_endedBy hl last)) hshow hbare.content
  rw [Header.format_endedBy] at hdrain
  exact hdrain

end Kept

/-- **Nothing is lost when a sink runs full.**  A tape was started on an empty sink that takes
bytes only below some offset.  Whatever is called after that, and whatever fails, the figures
are those of the blocks that were accepted, and the sink holds a header, their frames, and at
most a part of the frame of a block that was refused.  The header is the one that was written
when the tape was last finished.  Behind a failure of the sink every call fails.  If the blocks
were given raw and the compressor can be relied on, a reader gives those that are whole before
anything else. -/
theorem nothing_lost (w : Writer) {limit : Option Nat} {seekable : Bool} {h : Header}
    (hl : h.IsListed) (hopen : (w.attach (.ofBytes [] limit seekable) h).2 = none)
    (cs : List Call) :
    let opened := (w.attach (.ofBytes [] limit seekable) h).1
    let last := (opened.calls cs).1
    let bs := opened.accepted cs
    let known := h.endedBy (opened.finishes [] cs).getLast?
    (last.blocks = bs.length.toUInt64 ∧ last.samples = Block.total bs ∧
        last.bytes = (Header.size + (framesOf w.packer h.form bs).length).toUInt64) ∧
      (∀ c, (last.call c).2 = false → (last.call c).1.blocks = last.blocks ∧
        (last.call c).1.samples = last.samples ∧ (last.call c).1.bytes = last.bytes) ∧
      (∃ torn, last.sink.content = known.encode ++ (framesOf w.packer h.form bs ++ torn) ∧
        (torn = [] ∨ ∃ b ∈ opened.rejected cs, Takes w.packer h.form b ∧
          torn <+: (storedAs w.packer h.form b).frame ∧
          torn.length < (storedAs w.packer h.form b).frame.length)) ∧
      (known.encode.length = Header.size ∧ Header.decode known.encode = .ok known ∧
        (opened.finishes [] cs = [] → known.total = 0 ∧ known.finish = 0)) ∧
      (∀ before c later c', (opened.calls before).1.BreaksOn c →
        ((opened.calls (before ++ c :: later)).1.call c').2 = false) ∧
      ((∀ b ∈ bs, b.packed = false) →
        (h.form.packs = true → ∀ b ∈ bs, w.packer.Rebuilds b.payload) →
        ∀ r : Reader, (r.openSource (.ofBytes last.sink.content)).2 = none ∧
          (r.openSource (.ofBytes last.sink.content)).1.header = known ∧
          bs.filter (fun b => b.IsWhole h.format) <+:
            (r.openSource (.ofBytes last.sink.content)).1.drain.1.map Prod.fst) := by
  intro opened last bs known
  have hfirst : opened.Kept h w.packer [] [] none := kept_attach hopen
  have hlast : last.Kept h w.packer bs (opened.rejected cs) (opened.finishes [] cs).getLast? := by
    have hcalls := hfirst.calls cs
    rw [Option.or_none] at hcalls
    exact hcalls
  obtain ⟨torn, hbare, -, htorn⟩ := hlast.sink
  refine ⟨⟨hlast.blocks, hlast.samples, hlast.bytes⟩, ?_, ⟨torn, hbare.content, htorn⟩,
    ⟨Header.length_encode known, ?_, ?_⟩, ?_, ?_⟩
  · intro c hfailed
    exact figures_of_failure last c hfailed
  · exact Header.decode_encode_self (Header.isListed_endedBy hl _)
  · intro hnone
    have hknown : known = h.endedBy none := by
      simp only [known]
      rw [hnone]
      rfl
    rw [hknown]
    exact ⟨rfl, rfl⟩
  · intro before c later c' hbreaks
    exact hfirst.call_after_break hbreaks later c'
  · intro hraw hr r
    exact hlast.read hl hraw hr r

/-- Three blocks, of which the second has not the bytes that its samples take, with a finish
behind two of them. -/
def crowdedCalls : List Call :=
  [.append ⟨7, 1, [1, 2, 3, 4], false⟩, .append ⟨8, 2, [5], false⟩, .finish 5,
    .append ⟨9, 1, [6, 7, 8, 9], false⟩, .finish 11]

/-- A sink that ends eight bytes into the third frame keeps the first two blocks and the header
of the first finish, and a reader gives the block that is whole. -/
theorem nothing_lost_of_crowdedCalls :
    let opened := (Writer.idle.attach (.ofBytes [] (some 181) true) .blank).1
    let last := (opened.calls crowdedCalls).1
    let known : Header := { Header.blank with total := 3, finish := 5 }
    let read := (Reader.idle .standard).openSource (.ofBytes last.sink.content)
    Header.blank.IsListed ∧
      (Writer.idle.attach (.ofBytes [] (some 181) true) .blank).2 = none ∧
      opened.accepted crowdedCalls = [⟨7, 1, [1, 2, 3, 4], false⟩, ⟨8, 2, [5], false⟩] ∧
      (∀ b ∈ opened.accepted crowdedCalls, b.packed = false) ∧
      last.blocks = 2 ∧ last.samples = 3 ∧ read.2 = none ∧ read.1.header = known ∧
      [⟨7, 1, [1, 2, 3, 4], false⟩] <+: read.1.drain.1.map Prod.fst ∧
      (last.call (.finish 12)).2 = false := by
  intro opened last known read
  have hopen : (Writer.idle.attach (.ofBytes [] (some 181) true) .blank).2 = none := by
    simp only [attach]
    rw [if_pos (by decide +kernel)]
  have haccepted : opened.accepted crowdedCalls =
      [⟨7, 1, [1, 2, 3, 4], false⟩, ⟨8, 2, [5], false⟩] := by decide +kernel
  have hraw : ∀ b ∈ opened.accepted crowdedCalls, b.packed = false := by
    rw [haccepted]
    decide
  have hknown : Header.blank.endedBy (opened.finishes [] crowdedCalls).getLast? = known := by
    decide +kernel
  -- The third block runs into the end of the sink.
  have hbreaks : (opened.calls (crowdedCalls.take 3)).1.BreaksOn
      (.append ⟨9, 1, [6, 7, 8, 9], false⟩) := by
    show _ = _
    decide +kernel
  obtain ⟨⟨hblocks, hsamples, -⟩, -, -, -, hfails, hreads⟩ :=
    nothing_lost Writer.idle Header.isListed_blank hopen crowdedCalls
  have hopened : (Writer.idle.attach (.ofBytes [] (some 181) true) .blank).1 = opened := rfl
  have hlast : (opened.calls crowdedCalls).1 = last := rfl
  rw [hopened] at hblocks hsamples hfails hreads
  rw [hlast] at hblocks hsamples hreads
  obtain ⟨hread, hheader, hfirst⟩ := hreads hraw (by rintro ⟨⟩) (Reader.idle .standard)
  have hreader : (Reader.idle .standard).openSource (.ofBytes last.sink.content) = read := rfl
  rw [hreader] at hread hheader hfirst
  have hwhole : (opened.accepted crowdedCalls).filter
      (fun b => b.IsWhole Header.blank.format) = [⟨7, 1, [1, 2, 3, 4], false⟩] := by
    rw [haccepted]
    decide +kernel
  have htotal : Block.total (opened.accepted crowdedCalls) = 3 := by
    rw [haccepted]
    decide
  refine ⟨Header.isListed_blank, hopen, haccepted, hraw, ?_, ?_, ?_, ?_, ?_, ?_⟩
  · rw [hblocks, haccepted]
    rfl
  · exact hsamples.trans htotal
  · exact hread
  · rw [hknown] at hheader
    exact hheader
  · exact hwhole ▸ hfirst
  · have hfailed := hfails _ _ [.finish 11] (.finish 12) hbreaks
    have hsplit : crowdedCalls.take 3 ++ [.append ⟨9, 1, [6, 7, 8, 9], false⟩, .finish 11] =
        crowdedCalls := rfl
    rw [hsplit, hlast] at hfailed
    exact hfailed

end Writer

end IqTape
