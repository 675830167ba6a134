import IqTape.Proofs.Tape.Damage
import IqTape.Proofs.Tape.Payload
import IqTape.Proofs.Tape.Writer

/-!
# What is written is read back

A tape that was written call by call and finished last gives back its header, with the
totals, and its blocks, whatever sink took it, whatever compressor packed it and whatever
window it is read through.

## Main results

* `Writer.isFrame_storedAs` — the frame of a whole block is read back as that block.
* `Writer.Tape.read_finished` — a finished tape is read back.
* `Writer.read_written` — **the round trip of a whole file**.
-/

namespace IqTape

namespace Header

theorem IsListed.ended {h : Header} (hl : h.IsListed) (total finish : UInt64) :
    IsListed { h with total := total, finish := finish } :=
  ⟨hl.version, hl.radio, hl.format, hl.form⟩

end Header

namespace Writer

/-- A raw block is unpacked from what is stored of it, if the compressor can be relied on. -/
theorem unpack_of_prepare {packer : Lz4.Packer} {form : PayloadForm} {b stored : Block}
    (hraw : b.packed = false) (hprepare : prepare packer form b = .ok stored)
    (hr : form.packs = true → packer.Rebuilds b.payload) :
    stored.packed = form.packs ∧ stored.unpack = .ok b := by
  unfold prepare at hprepare
  split at hprepare
  · next hform =>
    obtain ⟨hpacked, hunpack⟩ := Block.unpack_pack hraw hprepare (hr hform)
    exact ⟨hpacked.trans hform.symm, hunpack⟩
  · next hform =>
    cases hprepare
    exact ⟨hraw.trans (Bool.eq_false_iff.2 hform).symm, Block.unpack_raw hraw⟩

/-- The frame of a whole block gives the block, if the compressor can be relied on. -/
theorem isFrame_storedAs {packer : Lz4.Packer} {h : Header} {b : Block}
    (hw : b.IsWhole h.format) (ht : Takes packer h.form b)
    (hr : h.form.packs = true → packer.Rebuilds b.payload) :
    Segment.IsFrame h (storedAs packer h.form b).frame b := by
  obtain ⟨stored, hprepare, hsize⟩ := ht
  obtain ⟨hpacked, hunpack⟩ := unpack_of_prepare hw.raw hprepare hr
  rw [storedAs_of_prepare hprepare]
  refine Segment.isFrame_frame hpacked hsize ?_
  rw [Block.accept_of_unpack hw.raw hunpack, if_pos hw]

/-- **A finished tape is read back**: its header, its blocks, and nothing besides. -/
theorem Tape.read_finished {w : Writer} {bs : List Block} (ht : w.Tape bs)
    (hheld : w.sink.held = []) (hl : w.header.IsListed)
    (hw : ∀ b ∈ bs, b.IsWhole w.header.format) (hb : ∀ b ∈ bs, Takes w.packer w.header.form b)
    (hr : w.header.form.packs = true → ∀ b ∈ bs, w.packer.Rebuilds b.payload) (r : Reader) :
    let read := r.openSource (.ofBytes w.sink.content)
    let last := read.1.drain
    read.2 = none ∧ read.1.header = w.header ∧ last.1.map Prod.fst = bs ∧
      last.2.counts =
        ⟨bs.length.toUInt64, 0, Block.total bs, w.bytes - Header.size.toUInt64, 0⟩ ∧
      last.2.header = w.header ∧ last.2.error? = none := by
  have hm := Header.length_encode w.header
  have hd := Header.decode_encode_self hl
  have hframes : ∀ b ∈ bs, Segment.IsFrame w.header (storedAs w.packer w.header.form b).frame b :=
    fun b hmem => isFrame_storedAs (hw b hmem) (hb b hmem) fun hform => hr hform b hmem
  obtain ⟨hopen, hknown⟩ :=
    Reader.opens_of_reliable r hm hd (framesOf w.packer w.header.form bs)
  obtain ⟨hblocks, hcounts, hheader, herror⟩ := Reader.drain_of_frames r hm hd hframes
  -- Nothing is held back, so the header and the frames have arrived.
  have hbytes : w.bytes - Header.size.toUInt64 =
      (framesOf w.packer w.header.form bs).length.toUInt64 := by
    rw [ht.bytes, toUInt64_add, UInt64.add_comm, UInt64.add_sub_cancel]
  rw [ht.sink.content_eq hheld, hbytes]
  exact ⟨hopen, hknown, hblocks, hcounts, hheader, herror⟩

/-- A tape is finished after a series of calls: all of them succeed, and the header is the
one it was started with, but for the end of the session. -/
theorem Tape.calls_finish {w : Writer} {bs : List Block} (ht : w.Tape bs) {cs : List Call}
    (hcs : ∀ b ∈ Call.blocks cs, Takes w.packer w.header.form b) (second : UInt64) :
    let ended := w.calls (cs ++ [.finish second])
    ended.2 = true ∧ ended.1.Tape (bs ++ Call.blocks cs) ∧ ended.1.sink.held = [] ∧
      ended.1.packer = w.packer ∧
      ended.1.header =
        { w.header with total := Block.total (bs ++ Call.blocks cs), finish := second } := by
  intro ended
  obtain ⟨hok, hlast, hsame⟩ := ht.calls hcs
  obtain ⟨hdone, hended, hlater, hheader, hheld⟩ := hlast.finish second
  have hresult : ended = (((w.calls cs).1.finish second).1, true) := by
    simp only [ended, calls_append, hok, Writer.calls, call, hdone]
    rfl
  rw [hresult]
  exact ⟨rfl, hended, hheld, hlater.packer.trans hsame.packer,
    hheader.trans (hsame.header.ended_eq _ _)⟩

/-- **What is written is read back.**  Blocks that are appended to a new tape, with the tape
finished at any points in between and once at the end, come back in order through a window
of any size, and so does the header, with the totals and the end of the session.  Nothing is
counted as corrupted or skipped. -/
theorem read_written (w : Writer) (r : Reader) (room : Nat) {h : Header} (hl : h.IsListed)
    {cs : List Call} (hw : ∀ b ∈ Call.blocks cs, b.IsWhole h.format)
    (hb : ∀ b ∈ Call.blocks cs, Takes w.packer h.form b)
    (hr : h.form.packs = true → ∀ b ∈ Call.blocks cs, w.packer.Rebuilds b.payload)
    (second : UInt64) :
    let opened := w.attach (.ofRoom room) h
    let ended := opened.1.calls (cs ++ [.finish second])
    let read := r.openSource (.ofBytes ended.1.sink.content)
    let last := read.1.drain
    opened.2 = none ∧ ended.2 = true ∧ read.2 = none ∧
      read.1.header =
        { h with total := Block.total (Call.blocks cs), finish := second } ∧
      last.1.map Prod.fst = Call.blocks cs ∧
      last.2.counts.corrupted = 0 ∧ last.2.counts.skipped = 0 ∧
      last.2.counts.processed = ended.1.bytes - Header.size.toUInt64 ∧
      last.2.error? = none ∧ last.2.validateTotals = .ok () := by
  intro opened ended read last
  obtain ⟨hopened, htape, hpacker, hsession⟩ := tape_attach w room h
  have htakes : ∀ b ∈ Call.blocks cs, Takes opened.1.packer opened.1.header.form b := by
    intro b hmem
    rw [hpacker, hsession.form_eq]
    exact hb b hmem
  obtain ⟨hok, hended, hheld, hsame, hheader⟩ := htape.calls_finish htakes second
  rw [List.nil_append] at hended hheader
  have hknown : ended.1.header =
      { h with total := Block.total (Call.blocks cs), finish := second } :=
    hheader.trans (hsession.ended_eq _ _)
  have hread := hended.read_finished hheld (by rw [hknown]; exact hl.ended _ _)
    (by rw [hknown]; exact hw) (by rw [hknown, hsame, hpacker]; exact hb)
    (by rw [hknown, hsame, hpacker]; exact hr) r
  obtain ⟨hopen, hfirst, hblocks, hcounts, hlast, herror⟩ := hread
  -- The header that the reader keeps holds the total that it has counted.
  have htotals : last.2.validateTotals = .ok () := by
    have hcounted : last.2.counts.samples = last.2.header.total := by
      rw [hcounts, hlast, hknown]
    rw [Reader.validateTotals, hcounted]
    exact if_neg fun hfalse => hfalse.2 rfl
  refine ⟨hopened, hok, hopen, hfirst.trans hknown, hblocks, ?_, ?_, ?_, herror, htotals⟩
  · rw [hcounts]
  · rw [hcounts]
  · rw [hcounts]

/-- A header of a tape whose payloads are packed. -/
def sampleHeader : Header := { Header.blank with form := .lz4 }

/-- Two blocks with a finish in between. -/
def sampleCalls : List Call :=
  [.append ⟨7, 1, [1, 2, 3, 4], false⟩, .finish 5,
    .append ⟨9, 2, [8, 7, 6, 5, 4, 3, 2, 1], false⟩]

/-- The blocks of the sample come back from a packed tape, three bytes at a time. -/
theorem read_written_of_sampleCalls :
    let opened := Writer.idle.attach (.ofRoom 8) sampleHeader
    let ended := opened.1.calls (sampleCalls ++ [.finish 11])
    let read := (Reader.idle ⟨3, by decide⟩).openSource (.ofBytes ended.1.sink.content)
    sampleHeader.IsListed ∧
      (∀ b ∈ Call.blocks sampleCalls, b.IsWhole sampleHeader.format) ∧
      (∀ b ∈ Call.blocks sampleCalls, Takes Writer.idle.packer sampleHeader.form b) ∧
      (∀ b ∈ Call.blocks sampleCalls, Writer.idle.packer.Rebuilds b.payload) ∧
      read.1.header = { sampleHeader with total := 3, finish := 11 } ∧
      read.1.drain.1.map Prod.fst = Call.blocks sampleCalls := by
  have hl : sampleHeader.IsListed := ⟨rfl, rfl, rfl, rfl⟩
  have hw : ∀ b ∈ Call.blocks sampleCalls, b.IsWhole sampleHeader.format := by
    simp only [Call.blocks, sampleCalls, List.forall_mem_cons]
    exact ⟨⟨rfl, rfl⟩, ⟨rfl, rfl⟩, List.forall_mem_nil _⟩
  have hr : ∀ b ∈ Call.blocks sampleCalls, Writer.idle.packer.Rebuilds b.payload := by
    simp only [Call.blocks, sampleCalls, List.forall_mem_cons]
    exact ⟨by decide +kernel, by decide +kernel, List.forall_mem_nil _⟩
  have hb : ∀ b ∈ Call.blocks sampleCalls,
      Takes Writer.idle.packer sampleHeader.form b := by
    simp only [Call.blocks, sampleCalls, List.forall_mem_cons]
    exact ⟨⟨_, rfl, by decide +kernel⟩, ⟨_, rfl, by decide +kernel⟩, List.forall_mem_nil _⟩
  have htotal : Block.total (Call.blocks sampleCalls) = 3 := by decide +kernel
  obtain ⟨-, -, -, hheader, hblocks, -⟩ :=
    read_written Writer.idle (Reader.idle ⟨3, by decide⟩) 8 hl hw hb (fun _ => hr) 11
  rw [htotal] at hheader
  exact ⟨hl, hw, hb, hr, hheader, hblocks⟩

end Writer
end IqTape
