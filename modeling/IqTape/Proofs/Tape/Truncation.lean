import IqTape.Proofs.Tape.RoundTrip

/-!
# Tapes that have been cut off

A tape that ends in the middle of a frame gives all its whole blocks.  What is there of the
last frame is then searched byte by byte, so it goes by unnoticed only if no frame seems to
start in it: a payload that looks like a frame can be counted as damage, or come out as a
block that nobody has written.

## Main definitions

* `Segment.Silent` — nothing in some bytes looks like a frame.
* `Writer.cutAt` — the whole blocks of a tape that has been cut off, and the rest.

## Main results

* `Scan.drainFor_frames` — the whole blocks come out first.
* `Scan.silent_of_next` — what is not noticed is silent.
* `Reader.drain_of_cut` — frames and the beginning of another one.
* `Writer.read_cut` — **a tape that has been cut off**.
* `Writer.damage_in_cut_frame` — a payload that looks like a frame.
-/

namespace IqTape

/-- Nothing in some bytes looks like a frame, whole or damaged. -/
structure Segment.Silent (h : Header) (bs : Bytes) : Prop where
  /-- No frame starts anywhere. -/
  undecodable : ∀ k < bs.length, Undecodable h (bs.drop k)
  /-- No checksum fails. -/
  unnoticed : ¬Mismatches h bs []

namespace Scan

open Segment

variable {h : Header} {s : Scan}

/-! ### What a scan notices -/

/-- A call counts damage no more often than there are bytes. -/
theorem corrupted_next (h : Header) (s : Scan) :
    ∃ k ≤ s.rest.length,
      (s.next h).2.counts.corrupted = s.counts.corrupted + k.toUInt64 := by
  induction s using Scan.next.induct (h := h) with
  | case1 s hc b n he =>
    rw [next_of_good hc he]
    exact ⟨0, Nat.zero_le _, (UInt64.add_zero _).symm⟩
  | case2 s hc n he ih =>
    have hpos := Reader.examine_bad_pos he
    have hle := Reader.size_le_of_examine_bad he
    obtain ⟨k, hk, hcount⟩ := ih
    rw [List.length_drop] at hk
    rw [next_of_bad hc he, hcount]
    exact ⟨k + 1, by omega, add_one_add_toUInt64 _ k⟩
  | case3 s hc f he ih =>
    rw [Bytes.covers_iff, Block.overhead] at hc
    obtain ⟨k, hk, hcount⟩ := ih
    rw [next_of_nothing (by rwa [Bytes.covers_iff]) he, hcount]
    simp only [drop, ReadCounts.dropped, List.length_drop] at hk ⊢
    split
    · exact ⟨k + 1, by omega, add_one_add_toUInt64 _ k⟩
    · exact ⟨k, by omega, rfl⟩
  | case4 s hc =>
    have hshort : s.rest.length < Block.overhead := by
      rw [Bytes.covers_iff] at hc
      omega
    rw [next_of_short hshort]
    exact ⟨0, Nat.zero_le _, (UInt64.add_zero _).symm⟩

/-- What has been counted is not forgotten behind so few bytes. -/
theorem corrupted_next_ne (h : Header) {rest : Bytes} (hshort : rest.length + 1 < 2 ^ 64)
    (resyncing : Bool) {c d : ReadCounts} (hcount : d.corrupted = c.corrupted + 1) :
    (next h ⟨rest, resyncing, d⟩).2.counts.corrupted ≠ c.corrupted := by
  obtain ⟨k, hk, hnext⟩ := corrupted_next h ⟨rest, resyncing, d⟩
  simp only [hcount] at hk hnext
  rw [hnext, add_one_add_toUInt64]
  intro hsame
  have hzero : (k + 1).toUInt64.toNat = 0 := by
    rw [UInt64.add_eq_left.1 hsame]
    rfl
  have hword : (k + 1).toUInt64.toNat = k + 1 :=
    UInt64.toNat_ofNat_of_lt' (Nat.lt_of_le_of_lt (by omega) hshort)
  omega

theorem silent_of_short {bs : Bytes} (hs : bs.length < Block.overhead) : Silent h bs := by
  have hdecode : ∀ k, Block.decode h.form.packs (bs.drop k) = .error .incomplete := by
    intro k
    refine Block.decode_of_short ?_
    rw [List.length_drop]
    omega
  constructor
  · intro k _ r
    rw [hdecode k]
    nofun
  · rintro ⟨k, -, hf⟩
    rw [List.append_nil, hdecode k] at hf
    cases hf

/-- A byte at which a frame neither starts nor fails goes by unnoticed. -/
theorem silent_cons {x : UInt8} {bs : Bytes} {f : Fault}
    (hf : Block.decode h.form.packs (x :: bs) = .error f) (hne : f ≠ .checksumMismatch)
    (hs : Silent h bs) : Silent h (x :: bs) := by
  constructor
  · intro k hk
    cases k with
    | zero =>
      intro r
      rw [List.drop_zero, hf]
      nofun
    | succ k => exact hs.undecodable k (Nat.lt_of_succ_lt_succ hk)
  · rw [mismatches_cons]
    rintro (hm | hm)
    · rw [List.append_nil, hf] at hm
      exact hne (Option.some.inj hm)
    · exact hs.unnoticed hm

/-- **What a scan passes over without a block and without a count is silent.**  There are too few
bytes for the counter to come round to where it was. -/
theorem silent_of_next (hshort : s.rest.length < 2 ^ 64) (hr : s.resyncing = false)
    (hnone : (s.next h).1 = none)
    (hcount : (s.next h).2.counts.corrupted = s.counts.corrupted) : Silent h s.rest := by
  induction s using Scan.next.induct (h := h) with
  | case1 s hc b n he =>
    rw [next_of_good hc he] at hnone
    cases hnone
  | case2 s hc n he =>
    -- A refused block has been counted for good.
    have hpos := Reader.examine_bad_pos he
    have hle := Reader.size_le_of_examine_bad he
    rw [next_of_bad hc he] at hcount
    exact absurd hcount
      (corrupted_next_ne h (by rw [List.length_drop]; omega) false rfl)
  | case3 s hc f he ih =>
    rw [next_of_nothing hc he] at hnone hcount
    have hroom := (Bytes.covers_iff _ _).1 hc
    rw [Block.overhead] at hroom
    have hne : f ≠ .checksumMismatch := by
      rintro rfl
      have hmore : (s.drop .checksumMismatch).counts.corrupted = s.counts.corrupted + 1 := by
        simp [drop, ReadCounts.dropped, hr]
      exact corrupted_next_ne h (by rw [List.length_drop]; omega) _ hmore hcount
    have hdrop : s.drop f = ⟨s.rest.drop 1, false, s.counts.dropped false⟩ := by
      simp [drop, hr, hne]
    rw [hdrop] at hnone hcount ih
    have hlater := ih (by rw [List.length_drop]; omega) rfl hnone hcount
    obtain ⟨x, bs, hrest⟩ : ∃ x bs, s.rest = x :: bs := by
      refine List.exists_cons_of_ne_nil fun hnil => ?_
      rw [hnil] at hc
      cases hc
    rw [hrest] at he hlater ⊢
    refine silent_cons (f := f) ?_ hne hlater
    unfold Reader.examine at he
    split at he
    · next hd =>
      cases he
      exact hd
    · split at he <;> cases he
  | case4 s hc =>
    refine silent_of_short ?_
    rw [Bytes.covers_iff] at hc
    omega

/-! ### Whole frames and a part of one -/

/-- **The blocks of whole frames come out first**, and nothing is counted as damage. -/
theorem drainFor_frames {frame : Block → Bytes} {bs : List Block}
    (hs : ∀ b ∈ bs, IsFrame h (frame b) b) (tail : Bytes) {calls : Nat}
    (hcalls : (bs.flatMap frame ++ tail).length < calls) (c : ReadCounts) :
    ∃ left c', tail.length < left ∧ c'.corrupted = c.corrupted ∧
      (drainFor h calls ⟨bs.flatMap frame ++ tail, false, c⟩).1.map Prod.fst =
        bs ++ (drainFor h left ⟨tail, false, c'⟩).1.map Prod.fst ∧
      (drainFor h calls ⟨bs.flatMap frame ++ tail, false, c⟩).2 =
        (drainFor h left ⟨tail, false, c'⟩).2 := by
  induction bs generalizing calls c with
  | nil => exact ⟨calls, c, hcalls, rfl, rfl, rfl⟩
  | cons b bs ih =>
    have hframe := hs b List.mem_cons_self
    have hroom := overhead_le_of_isFrame hframe
    obtain ⟨calls, rfl⟩ : ∃ n, calls = n + 1 := ⟨calls - 1, by omega⟩
    rw [List.flatMap_cons, List.append_assoc] at hcalls ⊢
    have hnext : next h ⟨frame b ++ (bs.flatMap frame ++ tail), false, c⟩ =
        (some b, ⟨bs.flatMap frame ++ tail, false, c.returned b (frame b).length⟩) := by
      rw [next_of_good (by rw [Bytes.covers_iff, List.length_append]; omega)
        (examine_of_isFrame hframe _), List.drop_left]
    rw [List.length_append] at hcalls
    simp only [Block.overhead] at hroom
    have hless : (bs.flatMap frame ++ tail).length < calls := by omega
    obtain ⟨left, c', hleft, hsame, hblocks, hlast⟩ :=
      ih (fun b' hb' => hs b' (List.mem_cons_of_mem b hb')) hless (c.returned b (frame b).length)
    rw [drainFor_of_some hnext]
    refine ⟨left, c', hleft, hsame, ?_, hlast⟩
    rw [List.map_cons, hblocks]
    rfl

end Scan

namespace Reader

open Segment

/-- **Frames and the beginning of another one.**  The blocks of the frames come out first.
Without a frame in what follows they are all, and it counts as damage if a checksum fails in
it; and they are all with nothing counted exactly if what follows is silent, and is no longer than
a word can count. -/
theorem drain_of_cut (r : Reader) {mark : Bytes} {h : Header} (hm : mark.length = Header.size)
    (hd : Header.decode mark = .ok h) {frame : Block → Bytes} {bs : List Block}
    (hs : ∀ b ∈ bs, IsFrame h (frame b) b) {tail content : Bytes} (ht : tail.length < 2 ^ 64)
    (hc : content = mark ++ (bs.flatMap frame ++ tail)) :
    let read := r.openSource (.ofBytes content)
    let last := read.1.drain
    read.2 = none ∧ read.1.header = h ∧ last.2.error? = none ∧ bs <+: last.1.map Prod.fst ∧
      ((∀ k < tail.length, Undecodable h (tail.drop k)) → last.1.map Prod.fst = bs ∧
        last.2.counts.corrupted = (decide (Mismatches h tail [])).toUInt64) ∧
      (last.1.map Prod.fst = bs ∧ last.2.counts.corrupted = 0 ↔ Silent h tail) := by
  subst hc
  intro read last
  obtain ⟨hopen, hheader⟩ := opens_of_reliable r hm hd (bs.flatMap frame ++ tail)
  obtain ⟨hfound, hcounts, -, -, herror⟩ := drain_of_reliable r hm hd (bs.flatMap frame ++ tail)
  obtain ⟨left, c, hleft, hzero, hblocks, hlast⟩ :=
    Scan.drainFor_frames hs tail (Nat.lt_succ_self _) .zero
  obtain ⟨left, rfl⟩ : ∃ n, left = n + 1 := ⟨left - 1, by omega⟩
  have hblocks' : last.1.map Prod.fst =
      bs ++ (Scan.drainFor h (left + 1) ⟨tail, false, c⟩).1.map Prod.fst := by
    rw [← hblocks]
    exact congrArg _ hfound
  have hcounts' : last.2.counts.corrupted =
      (Scan.drainFor h (left + 1) ⟨tail, false, c⟩).2.counts.corrupted := by
    rw [← hlast]
    exact congrArg _ hcounts
  have hjunk (hu : ∀ k < tail.length, Undecodable h (tail.drop k)) :
      last.1.map Prod.fst = bs ∧
        last.2.counts.corrupted = (decide (Mismatches h tail [])).toUInt64 := by
    rw [Scan.drainFor_of_none (Scan.next_of_junk hu c)] at hblocks' hcounts'
    rw [hblocks', hcounts']
    refine ⟨List.append_nil _, ?_⟩
    simp only [ReadCounts.passed, hzero]
    cases decide (Mismatches h tail []) <;> rfl
  refine ⟨hopen, hheader, herror, ?_, hjunk, ?_, ?_⟩
  · rw [hblocks']
    exact List.prefix_append _ _
  · rintro ⟨hsame, hnothing⟩
    rw [hblocks', List.append_right_eq_self, List.map_eq_nil_iff] at hsame
    rw [hcounts'] at hnothing
    cases hn : Scan.next h ⟨tail, false, c⟩ with
    | mk found later =>
      cases found with
      | some b =>
        rw [Scan.drainFor_of_some hn] at hsame
        cases hsame
      | none =>
        rw [Scan.drainFor_of_none hn] at hnothing
        refine Scan.silent_of_next (s := ⟨tail, false, c⟩) ht rfl (by rw [hn]) ?_
        rw [hn]
        exact hnothing.trans hzero.symm
  · rintro ⟨hu, hunnoticed⟩
    obtain ⟨hsame, hcount⟩ := hjunk hu
    rw [decide_eq_false hunnoticed] at hcount
    exact ⟨hsame, hcount⟩

end Reader

namespace Writer

open Segment

/-! ### Tapes that were written -/

theorem framesOf_cons (packer : Lz4.Packer) (form : PayloadForm) (b : Block) (bs : List Block) :
    framesOf packer form (b :: bs) = (storedAs packer form b).frame ++ framesOf packer form bs :=
  List.flatMap_cons

/-- The blocks whose frames lie within the first `n` bytes behind the header, and what is
there of the frame behind them. -/
def cutAt (packer : Lz4.Packer) (form : PayloadForm) : Nat → List Block → List Block × Bytes
  | _, [] => ([], [])
  | n, b :: bs =>
    let frame := (storedAs packer form b).frame
    if frame.length ≤ n then
      let (whole, tail) := cutAt packer form (n - frame.length) bs
      (b :: whole, tail)
    else ([], frame.take n)

/-- The whole blocks and the rest are what the first `n` bytes hold. -/
theorem take_framesOf (packer : Lz4.Packer) (form : PayloadForm) (n : Nat) (bs : List Block) :
    (framesOf packer form bs).take n =
      framesOf packer form (cutAt packer form n bs).1 ++ (cutAt packer form n bs).2 := by
  induction bs generalizing n with
  | nil => exact List.take_nil
  | cons b bs ih =>
    rw [framesOf_cons, List.take_append, cutAt]
    split
    · next hle =>
      rw [List.take_of_length_le hle, ih, framesOf_cons, List.append_assoc]
    · next hlt =>
      have hzero : n - (storedAs packer form b).frame.length = 0 := by omega
      rw [hzero, List.take_zero, List.append_nil]
      rfl

/-- The whole blocks are the first ones, and the frame behind them ends too late. -/
theorem cutAt_prefix (packer : Lz4.Packer) (form : PayloadForm) (n : Nat) (bs : List Block) :
    ∃ rest, bs = (cutAt packer form n bs).1 ++ rest ∧
      (framesOf packer form (cutAt packer form n bs).1).length ≤ n ∧
      ∀ b ∈ rest.head?, n < (framesOf packer form ((cutAt packer form n bs).1 ++ [b])).length := by
  induction bs generalizing n with
  | nil => exact ⟨[], rfl, Nat.zero_le n, nofun⟩
  | cons b bs ih =>
    rw [cutAt]
    split
    · next hle =>
      obtain ⟨rest, hsplit, hwithin, hbeyond⟩ := ih (n - (storedAs packer form b).frame.length)
      refine ⟨rest, congrArg (b :: ·) hsplit, ?_, ?_⟩
      · rw [framesOf_cons, List.length_append]
        omega
      · intro b' hb'
        have hlt := hbeyond b' hb'
        rw [List.cons_append, framesOf_cons, List.length_append]
        omega
    · next hlt =>
      refine ⟨b :: bs, rfl, Nat.zero_le n, ?_⟩
      intro b' hb'
      cases hb'
      rw [List.nil_append, framesOf_cons, List.length_append]
      omega

/-- What is there of a frame is no longer than a frame may be. -/
theorem length_cutAt {packer : Lz4.Packer} {form : PayloadForm} {bs : List Block}
    (hb : ∀ b ∈ bs, Takes packer form b) (n : Nat) :
    (cutAt packer form n bs).2.length ≤ Block.maxFrame := by
  induction bs generalizing n with
  | nil => exact Nat.zero_le _
  | cons b bs ih =>
    rw [cutAt]
    split
    · exact ih (fun b' hb' => hb b' (List.mem_cons_of_mem b hb')) _
    · obtain ⟨stored, hstored, hsize⟩ := hb b List.mem_cons_self
      have hframe : (storedAs packer form b).frame.length ≤ Block.maxFrame := by
        rw [storedAs_of_prepare hstored, Block.length_frame]
        exact hsize
      exact Nat.le_trans (List.length_take_le' _ _) hframe

/-- A tape that was finished holds its last header and the frames of its blocks. -/
theorem content_written (w : Writer) (room : Nat) (h : Header) {cs : List Call}
    (hb : ∀ b ∈ Call.blocks cs, Takes w.packer h.form b) (second : UInt64) :
    ((w.attach (.ofRoom room) h).1.calls (cs ++ [.finish second])).1.sink.content =
      Header.encode { h with total := Block.total (Call.blocks cs), finish := second } ++
        framesOf w.packer h.form (Call.blocks cs) := by
  obtain ⟨-, htape, hpacker, hsession⟩ := tape_attach w room h
  have htakes : ∀ b ∈ Call.blocks cs, Takes (w.attach (.ofRoom room) h).1.packer
      (w.attach (.ofRoom room) h).1.header.form b := by
    intro b hmem
    rw [hpacker, hsession.form_eq]
    exact hb b hmem
  obtain ⟨-, hended, hheld, hsame, hheader⟩ := htape.calls_finish htakes second
  rw [List.nil_append] at hended hheader
  have hknown := hheader.trans (hsession.ended_eq _ _)
  rw [hended.sink.content_eq hheld, hknown, hsame, hpacker]

/-- **A tape that has been cut off** anywhere behind its header opens, and gives its whole
blocks first.  If no frame starts in what is there of the next one, it gives nothing else, and
counts damage if a checksum fails there; and it gives nothing else and counts nothing exactly
if nothing there looks like a frame. -/
theorem read_cut (w : Writer) (r : Reader) (room : Nat) {h : Header} (hl : h.IsListed)
    {cs : List Call} (hw : ∀ b ∈ Call.blocks cs, b.IsWhole h.format)
    (hb : ∀ b ∈ Call.blocks cs, Takes w.packer h.form b)
    (hr : h.form.packs = true → ∀ b ∈ Call.blocks cs, w.packer.Rebuilds b.payload)
    (second : UInt64) {k : Nat} (hk : Header.size ≤ k) :
    let ended := (w.attach (.ofRoom room) h).1.calls (cs ++ [.finish second])
    let known : Header := { h with total := Block.total (Call.blocks cs), finish := second }
    let part := cutAt w.packer h.form (k - Header.size) (Call.blocks cs)
    let read := r.openSource (.ofBytes (ended.1.sink.content.take k))
    let last := read.1.drain
    read.2 = none ∧ read.1.header = known ∧ last.2.error? = none ∧
      part.1 <+: last.1.map Prod.fst ∧
      ((∀ j < part.2.length, Undecodable known (part.2.drop j)) →
        last.1.map Prod.fst = part.1 ∧
          last.2.counts.corrupted = (decide (Mismatches known part.2 [])).toUInt64) ∧
      (last.1.map Prod.fst = part.1 ∧ last.2.counts.corrupted = 0 ↔ Silent known part.2) := by
  intro ended known part read last
  have hm := Header.length_encode known
  have hd : Header.decode known.encode = .ok known := Header.decode_encode_self (hl.ended _ _)
  have hcontent : ended.1.sink.content.take k =
      known.encode ++ (framesOf w.packer h.form part.1 ++ part.2) := by
    have hwritten : ended.1.sink.content = known.encode ++ framesOf w.packer h.form _ :=
      content_written w room h hb second
    rw [hwritten, List.take_append, List.take_of_length_le (by rw [hm]; exact hk), hm,
      take_framesOf]
  have hframes : ∀ b ∈ part.1, IsFrame known (storedAs w.packer h.form b).frame b := by
    intro b hmem
    obtain ⟨rest, hsplit, -, -⟩ :=
      cutAt_prefix w.packer h.form (k - Header.size) (Call.blocks cs)
    have hmem' : b ∈ Call.blocks cs := by
      rw [hsplit]
      exact List.mem_append_left _ hmem
    exact isFrame_storedAs (h := known) (hw b hmem') (hb b hmem') fun hform => hr hform b hmem'
  have hshort : part.2.length < 2 ^ 64 := Nat.lt_of_le_of_lt (length_cutAt hb _) (by decide)
  exact Reader.drain_of_cut r hm hd hframes hshort hcontent

/-- Two blocks of one sample. -/
def plainCalls : List Call :=
  [.append ⟨7, 1, [1, 2, 3, 4], false⟩, .append ⟨9, 1, [5, 6, 7, 8], false⟩]

/-- Without its last two bytes, the tape gives its first block, and counts nothing. -/
theorem read_cut_of_plainCalls :
    let ended := (Writer.idle.attach (.ofRoom 8) .blank).1.calls (plainCalls ++ [.finish 11])
    let last := ((Reader.idle .standard).openSource (.ofBytes (ended.1.sink.content.take 174))).1.drain
    Header.blank.IsListed ∧ (∀ b ∈ Call.blocks plainCalls, b.IsWhole Header.blank.format) ∧
      (∀ b ∈ Call.blocks plainCalls, Takes Writer.idle.packer Header.blank.form b) ∧
      Header.size ≤ 174 ∧ last.1.map Prod.fst = [⟨7, 1, [1, 2, 3, 4], false⟩] ∧
      last.2.counts.corrupted = 0 ∧ last.2.error? = none := by
  have hw : ∀ b ∈ Call.blocks plainCalls, b.IsWhole Header.blank.format := by
    simp only [Call.blocks, plainCalls, List.forall_mem_cons]
    exact ⟨⟨rfl, rfl⟩, ⟨rfl, rfl⟩, List.forall_mem_nil _⟩
  have hb : ∀ b ∈ Call.blocks plainCalls, Takes Writer.idle.packer Header.blank.form b := by
    simp only [Call.blocks, plainCalls, List.forall_mem_cons]
    exact ⟨⟨_, rfl, by decide⟩, ⟨_, rfl, by decide⟩, List.forall_mem_nil _⟩
  have hwhole : (cutAt Writer.idle.packer Header.blank.form (174 - Header.size)
      (Call.blocks plainCalls)).1 = [⟨7, 1, [1, 2, 3, 4], false⟩] := by decide +kernel
  have hsilent : Silent
      { Header.blank with total := Block.total (Call.blocks plainCalls), finish := 11 }
      (cutAt Writer.idle.packer Header.blank.form (174 - Header.size)
        (Call.blocks plainCalls)).2 := ⟨by decide +kernel, by decide +kernel⟩
  have hk : Header.size ≤ 174 := by decide
  obtain ⟨-, -, herror, -, -, hnothing⟩ := read_cut Writer.idle (Reader.idle .standard) 8
    Header.isListed_blank hw hb (by rintro ⟨⟩) 11 hk
  obtain ⟨hblocks, hcount⟩ := hnothing.2 hsilent
  exact ⟨Header.isListed_blank, hw, hb, hk, hblocks.trans hwhole, hcount, herror⟩

/-- A block whose payload begins like a frame. -/
def maskedBlock : Block := ⟨1000, 5, [0, 0, 0, 12] ++ List.replicate 16 0, false⟩

/-- The tape of that block. -/
def maskedTape : Bytes :=
  ((Writer.idle.attach (.ofRoom 8) .blank).1.calls
    ([.append maskedBlock] ++ [.finish 11])).1.sink.content

/-- **A payload that looks like a frame.**  A tape of one good block that has lost its last
byte has no whole block, and gives none; but what is left of the frame counts as damage. -/
theorem damage_in_cut_frame :
    let last := ((Reader.idle .standard).openSource (.ofBytes maskedTape.dropLast)).1.drain
    maskedBlock.IsWhole Header.blank.format ∧
      Takes Writer.idle.packer Header.blank.form maskedBlock ∧
      maskedTape.length = Header.size + maskedBlock.frameSize ∧
      last.1.map Prod.fst = [] ∧ last.2.counts.corrupted = 1 ∧ last.2.error? = none := by
  have hw : maskedBlock.IsWhole Header.blank.format := ⟨rfl, rfl⟩
  have ht : Takes Writer.idle.packer Header.blank.form maskedBlock := ⟨_, rfl, by decide⟩
  obtain ⟨known, hknown⟩ : ∃ known : Header, known =
    { Header.blank with total := Block.total (Call.blocks [.append maskedBlock]), finish := 11 } :=
    ⟨_, rfl⟩
  have hm := Header.length_encode known
  have hd : Header.decode known.encode = .ok known := by
    refine Header.decode_encode_self ?_
    rw [hknown]
    exact ⟨rfl, rfl, rfl, rfl⟩
  have hframes : framesOf Writer.idle.packer Header.blank.form (Call.blocks [.append maskedBlock]) =
      maskedBlock.frame := List.append_nil _
  have hcontent : maskedTape = known.encode ++ maskedBlock.frame := by
    rw [hknown, ← hframes]
    exact content_written Writer.idle 8 .blank (by simpa [Call.blocks] using ht) 11
  have hcut : maskedTape.dropLast =
      known.encode ++ ([].flatMap Block.frame ++ maskedBlock.frame.dropLast) := by
    rw [hcontent, List.dropLast_append_of_ne_nil (by decide +kernel)]
    rfl
  obtain ⟨-, -, herror, -, hjunk, -⟩ :=
    Reader.drain_of_cut (Reader.idle .standard) hm hd (List.forall_mem_nil _) (by decide +kernel)
      hcut
  have hmismatch : Mismatches known maskedBlock.frame.dropLast [] := by
    rw [hknown]
    decide +kernel
  obtain ⟨hblocks, hcount⟩ := hjunk (by rw [hknown]; decide +kernel)
  rw [decide_eq_true hmismatch] at hcount
  refine ⟨hw, ht, ?_, hblocks, hcount, herror⟩
  rw [hcontent, List.length_append, hm, Block.length_frame]

end Writer

end IqTape
