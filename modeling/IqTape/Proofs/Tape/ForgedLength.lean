import IqTape.Proofs.Tape.Truncation

/-!
# Frames with a forged length

Where the length in front of a frame has been damaged, the frame cannot be passed over as a
whole: it is searched byte by byte, and the next frame is found where it starts.  So the block
is lost and no other.  The loss is counted only if some checksum fails during the search.  That
is certain for a forged length that a frame may have and that the tape still has bytes for; any
other one is not looked at further, and then it depends on the bytes of the block itself
whether the loss shows in the count of damage or in the dropped bytes alone.

## Main results

* `Segment.damagedRuns_around` — one run of junk between frames.
* `Reader.drain_around` — frames, junk, and frames again.
* `Writer.read_forged_length` — **a frame whose length has been forged**.
* `Writer.unnoticed_loss` — a block that is lost without being counted.
-/

namespace IqTape

/-- Bytes written over the front of some bytes between others. -/
theorem Bytes.overwrite_between (front rest : Bytes) {old new : Bytes}
    (h : new.length ≤ old.length) :
    (front ++ (old ++ rest)).overwrite front.length new =
      front ++ (new ++ old.drop new.length ++ rest) := by
  rw [overwrite, List.take_left, ← List.drop_drop, List.drop_left,
    List.drop_append_of_le_length h]
  simp only [List.append_assoc]

namespace Segment

/-- Of junk in front of frames, only the junk can be damage. -/
theorem damagedRuns_runsFrom_ofBlocks (h : Header) (stored : Block → Block) (run : Bytes)
    (bs : List Block) :
    damagedRuns h (runsFrom run (ofBlocks stored bs)) =
      (decide (Mismatches h run (body (ofBlocks stored bs)))).toNat := by
  cases bs with
  | nil =>
    have hruns : runsFrom run (ofBlocks stored []) = [(run, [])] := rfl
    rw [hruns, damagedRuns_cons]
    rfl
  | cons b bs =>
    have hruns : runsFrom run (ofBlocks stored (b :: bs)) =
        (run, body (ofBlocks stored (b :: bs))) :: runsFrom [] (ofBlocks stored bs) := rfl
    rw [hruns, damagedRuns_cons, damagedRuns_ofBlocks]
    rfl

/-- **One run of junk between frames** is counted if a checksum fails in it. -/
theorem damagedRuns_around (h : Header) (stored : Block → Block) (before after : List Block)
    (run : Bytes) :
    damagedRuns h (runs (ofBlocks stored before ++ .junk run :: ofBlocks stored after)) =
      (decide (Mismatches h run (body (ofBlocks stored after)))).toNat := by
  rw [runs, damagedRuns_ofBlocks_append]
  exact damagedRuns_runsFrom_ofBlocks h stored run after

end Segment

namespace Reader

open Segment

/-- **Frames, junk, and frames again.**  The blocks of all the frames come out and nothing else;
the junk is dropped, but for the bytes at the end that are too few for a frame, and it counts as
damage once if a checksum fails in it. -/
theorem drain_around (r : Reader) {mark : Bytes} {h : Header} (hm : mark.length = Header.size)
    (hd : Header.decode mark = .ok h) (stored : Block → Block) {before after : List Block}
    (hbefore : ∀ b ∈ before, IsFrame h (stored b).frame b)
    (hafter : ∀ b ∈ after, IsFrame h (stored b).frame b) {run : Bytes}
    (hrun : ∀ k < run.length, Undecodable h ((run ++ body (ofBlocks stored after)).drop k)) :
    let read := r.openSource (.ofBytes
      (mark ++ (body (ofBlocks stored before) ++ (run ++ body (ofBlocks stored after)))))
    let last := read.1.drain
    read.2 = none ∧ read.1.header = h ∧ last.2.error? = none ∧
      last.1.map Prod.fst = before ++ after ∧
      last.2.counts.corrupted =
        (decide (Mismatches h run (body (ofBlocks stored after)))).toUInt64 ∧
      last.2.window.length ≤ run.length ∧
      last.2.counts.skipped = (run.length - last.2.window.length).toUInt64 ∧
      last.2.window.length < Block.overhead := by
  intro read last
  have hfits : Fits h (ofBlocks stored before ++ .junk run :: ofBlocks stored after) :=
    fits_ofBlocks_append hbefore ⟨hrun, fits_ofBlocks hafter⟩
  have hbody : body (ofBlocks stored before ++ .junk run :: ofBlocks stored after) =
      body (ofBlocks stored before) ++ (run ++ body (ofBlocks stored after)) :=
    List.flatMap_append
  obtain ⟨hopen, hblocks, -, hleft, hskipped, hshort, -, hcorrupted, -⟩ :=
    drain_of_segments r hm hd hfits
  obtain ⟨-, -, -, -, herror⟩ := drain_of_reliable r hm hd
    (body (ofBlocks stored before) ++ (run ++ body (ofBlocks stored after)))
  have hjunk : junkSize (ofBlocks stored before ++ .junk run :: ofBlocks stored after) =
      run.length := by
    rw [junkSize_ofBlocks_append]
    exact congrArg (run.length + ·) (junkSize_ofBlocks stored after)
  rw [hbody] at hopen hblocks hleft hskipped hshort hcorrupted
  rw [hjunk] at hleft hskipped
  refine ⟨hopen, (opens_of_reliable r hm hd _).2, herror, ?_, ?_, hleft, hskipped, hshort⟩
  · rw [hblocks, blocks_ofBlocks_append]
    exact congrArg (before ++ ·) (blocks_ofBlocks stored after)
  · rw [hcorrupted, damagedRuns_around]
    cases decide (Mismatches h run (body (ofBlocks stored after))) <;> rfl

end Reader

namespace Writer

open Segment

/-- The bytes in front of a forged length and behind it are as they were written. -/
theorem content_forged (w : Writer) (room : Nat) (h : Header) {cs : List Call}
    {before after : List Block} {lost : Block} (hcs : Call.blocks cs = before ++ lost :: after)
    (hb : ∀ b ∈ Call.blocks cs, Takes w.packer h.form b) (second : UInt64) {length : Bytes}
    (hlength : length.length = 4) :
    let known : Header := { h with total := Block.total (Call.blocks cs), finish := second }
    ((w.attach (.ofRoom room) h).1.calls (cs ++ [.finish second])).1.sink.content.overwrite
        (Header.size + (framesOf w.packer h.form before).length) length =
      known.encode ++ (framesOf w.packer h.form before ++
        (length ++ (storedAs w.packer h.form lost).frame.drop 4 ++
          framesOf w.packer h.form after)) := by
  intro known
  have hplace : Header.size + (framesOf w.packer h.form before).length =
      (known.encode ++ framesOf w.packer h.form before).length := by
    rw [List.length_append, Header.length_encode]
  have hframes : framesOf w.packer h.form (Call.blocks cs) = framesOf w.packer h.form before ++
      ((storedAs w.packer h.form lost).frame ++ framesOf w.packer h.form after) := by
    rw [hcs, framesOf_append, framesOf_cons]
  have hfour : length.length ≤ (storedAs w.packer h.form lost).frame.length := by
    rw [hlength, Block.length_frame, Block.frameSize]
    exact Nat.le_add_right_of_le (by decide)
  rw [content_written w room h hb second, hframes, ← List.append_assoc, hplace,
    Bytes.overwrite_between _ _ hfour, hlength, List.append_assoc]

/-- **A frame whose length has been forged.**  A reader that finds no frame in the damaged one
loses its block alone: the blocks before it and behind it come out in order, without an error,
and as many bytes as the frame has are dropped, but for some at the end of the tape that are too
few for a frame.  The loss is counted, once, if and only if a checksum fails somewhere in the
damaged frame; it does if the forged length is one that a frame may have and the tape still has
as many bytes. -/
theorem read_forged_length (w : Writer) (r : Reader) (room : Nat) {h : Header} (hl : h.IsListed)
    {cs : List Call} {before after : List Block} {lost : Block}
    (hcs : Call.blocks cs = before ++ lost :: after)
    (hw : ∀ b ∈ Call.blocks cs, b.IsWhole h.format)
    (hb : ∀ b ∈ Call.blocks cs, Takes w.packer h.form b)
    (hr : h.form.packs = true → ∀ b ∈ Call.blocks cs, w.packer.Rebuilds b.payload)
    (second : UInt64) {length : Bytes} (hlength : length.length = 4) :
    let ended := (w.attach (.ofRoom room) h).1.calls (cs ++ [.finish second])
    let known : Header := { h with total := Block.total (Call.blocks cs), finish := second }
    let place := Header.size + (framesOf w.packer h.form before).length
    let read := r.openSource (.ofBytes (ended.1.sink.content.overwrite place length))
    let last := read.1.drain
    let run := length ++ (storedAs w.packer h.form lost).frame.drop 4
    let behind := framesOf w.packer h.form after
    (∀ k < run.length, Undecodable known ((run ++ behind).drop k)) →
      read.2 = none ∧ read.1.header = known ∧ last.2.error? = none ∧
        last.1.map Prod.fst = before ++ after ∧
        last.2.counts.skipped.toNat + last.2.window.length =
          (storedAs w.packer h.form lost).frameSize ∧
        last.2.window.length < Block.overhead ∧
        last.2.counts.corrupted = (decide (Mismatches known run behind)).toUInt64 ∧
        (Block.Plausible (ByteOrder.big.decode length) →
          ByteOrder.big.decode length + Block.envelope ≤ (run ++ behind).length →
            last.2.counts.corrupted = 1) := by
  intro ended known place read last run behind hjunk
  have hm := Header.length_encode known
  have hd : Header.decode known.encode = .ok known := Header.decode_encode_self (hl.ended _ _)
  have hframe : ∀ b ∈ before ++ lost :: after,
      IsFrame known (storedAs w.packer h.form b).frame b := by
    rw [← hcs]
    exact fun b hmem =>
      isFrame_storedAs (h := known) (hw b hmem) (hb b hmem) fun hform => hr hform b hmem
  have hsize : Block.overhead ≤ (storedAs w.packer h.form lost).frame.length :=
    overhead_le_of_isFrame (hframe lost (List.mem_append_right _ List.mem_cons_self))
  have hrun : run.length = (storedAs w.packer h.form lost).frameSize := by
    rw [← Block.length_frame, List.length_append, List.length_drop, hlength]
    exact Nat.add_sub_cancel' (Nat.le_trans (by decide) hsize)
  have hcontent : ended.1.sink.content.overwrite place length =
      known.encode ++ (framesOf w.packer h.form before ++ (run ++ behind)) :=
    content_forged w room h hcs hb second hlength
  have hbody (bs : List Block) :
      framesOf w.packer h.form bs = body (ofBlocks (storedAs w.packer h.form) bs) :=
    (body_ofBlocks (storedAs w.packer h.form) bs).symm
  obtain ⟨hopen, hheader, herror, hblocks, hcorrupted, hleft, hskipped, hshort⟩ :=
    Reader.drain_around r hm hd (storedAs w.packer h.form)
      (fun b hmem => hframe b (List.mem_append_left _ hmem))
      (fun b hmem => hframe b (List.mem_append_right _ (List.mem_cons_of_mem lost hmem)))
      (by rw [← hbody]; exact hjunk)
  rw [← hbody, ← hbody, ← hcontent] at hopen hheader herror hblocks hcorrupted hleft hskipped hshort
  -- The frame is short enough for the counter to hold the number of its bytes.
  have hword : run.length < 2 ^ 64 := by
    obtain ⟨stored, hstored, hmost⟩ := hb lost (by rw [hcs]; simp)
    rw [hrun, storedAs_of_prepare hstored]
    exact Nat.lt_of_le_of_lt hmost (by decide)
  have hdropped : last.2.counts.skipped.toNat = run.length - last.2.window.length :=
    (congrArg UInt64.toNat hskipped).trans
      (UInt64.toNat_ofNat_of_lt' (Nat.lt_of_le_of_lt (Nat.sub_le _ _) hword))
  refine ⟨hopen, hheader, herror, hblocks, ?_, hshort, hcorrupted, ?_⟩
  · rw [hdropped, ← hrun]
    exact Nat.sub_add_cancel hleft
  intro hplausible hroom
  have hdeclared : Block.declared run = ByteOrder.big.decode length := by
    rw [Block.declared, List.take_append_of_le_length (Nat.le_of_eq hlength.symm),
      List.take_of_length_le (Nat.le_of_eq hlength)]
  have hmismatches : Mismatches known run behind :=
    mismatches_of_declared (by rw [hrun, ← Block.length_frame]; exact hsize)
      (by rw [hdeclared]; exact hplausible) (by rw [hdeclared]; exact hroom) hjunk
  exact hcorrupted.trans (congrArg Bool.toUInt64 (decide_eq_true hmismatches))

/-- A silent sample. -/
def quietBlock (stamp : UInt64) : Block := ⟨stamp, 1, [0, 0, 0, 0], false⟩

/-- Three silent samples. -/
def quietCalls : List Call :=
  [.append (quietBlock 1), .append (quietBlock 2), .append (quietBlock 3)]

/-- The header of their tape. -/
def quietHeader : Header :=
  { Header.blank with total := Block.total (Call.blocks quietCalls), finish := 11 }

/-- A sample as that tape stores it. -/
def quietStored (b : Block) : Block := storedAs Writer.idle.packer Header.blank.form b

/-- The frames of some samples on that tape. -/
def quietFrames (bs : List Block) : Bytes := framesOf Writer.idle.packer Header.blank.form bs

/-- The second frame, behind another length. -/
def forgedFrame (length : Bytes) : Bytes := length ++ (quietStored (quietBlock 2)).frame.drop 4

/-- The tape with that frame. -/
def forgedTape (length : Bytes) : Bytes :=
  ((Writer.idle.attach (.ofRoom 8) .blank).1.calls
    (quietCalls ++ [.finish 11])).1.sink.content.overwrite
      (Header.size + (quietFrames [quietBlock 1]).length) length

theorem blocks_quietCalls :
    Call.blocks quietCalls = [quietBlock 1] ++ quietBlock 2 :: [quietBlock 3] := rfl

theorem isWhole_of_quietCalls : ∀ b ∈ Call.blocks quietCalls, b.IsWhole Header.blank.format := by
  simp only [Call.blocks, quietCalls, List.forall_mem_cons]
  exact ⟨⟨rfl, rfl⟩, ⟨rfl, rfl⟩, ⟨rfl, rfl⟩, List.forall_mem_nil _⟩

theorem takes_of_quietCalls :
    ∀ b ∈ Call.blocks quietCalls, Takes Writer.idle.packer Header.blank.form b := by
  simp only [Call.blocks, quietCalls, List.forall_mem_cons]
  exact ⟨⟨_, rfl, by decide⟩, ⟨_, rfl, by decide⟩, ⟨_, rfl, by decide⟩, List.forall_mem_nil _⟩

theorem isFrame_of_quietCalls :
    ∀ b ∈ Call.blocks quietCalls, IsFrame quietHeader (quietStored b).frame b :=
  fun b hmem => isFrame_storedAs (h := quietHeader) (isWhole_of_quietCalls b hmem)
    (takes_of_quietCalls b hmem) (by rintro ⟨⟩)

/-- Behind a length of 12, the checksum of the second sample is looked for in the wrong place, and
the loss is counted. -/
theorem read_forged_length_of_quietCalls :
    let last := ((Reader.idle .standard).openSource (.ofBytes (forgedTape [0, 0, 0, 12]))).1.drain
    Header.blank.IsListed ∧ (∀ b ∈ Call.blocks quietCalls, b.IsWhole Header.blank.format) ∧
      (∀ b ∈ Call.blocks quietCalls, Takes Writer.idle.packer Header.blank.form b) ∧
      (∀ k < (forgedFrame [0, 0, 0, 12]).length, Undecodable quietHeader
        ((forgedFrame [0, 0, 0, 12] ++ quietFrames [quietBlock 3]).drop k)) ∧
      Block.Plausible (ByteOrder.big.decode [0, 0, 0, 12]) ∧
      ByteOrder.big.decode [0, 0, 0, 12] + Block.envelope ≤
        (forgedFrame [0, 0, 0, 12] ++ quietFrames [quietBlock 3]).length ∧
      last.1.map Prod.fst = [quietBlock 1, quietBlock 3] ∧ last.2.counts.corrupted = 1 := by
  have hjunk : ∀ k < (forgedFrame [0, 0, 0, 12]).length, Undecodable quietHeader
      ((forgedFrame [0, 0, 0, 12] ++ quietFrames [quietBlock 3]).drop k) := by decide +kernel
  have hplausible : Block.Plausible (ByteOrder.big.decode [0, 0, 0, 12]) := by decide
  have hroom : ByteOrder.big.decode [0, 0, 0, 12] + Block.envelope ≤
      (forgedFrame [0, 0, 0, 12] ++ quietFrames [quietBlock 3]).length := by decide +kernel
  obtain ⟨-, -, -, hblocks, -, -, -, hcount⟩ := read_forged_length Writer.idle
    (Reader.idle .standard) 8 Header.isListed_blank blocks_quietCalls isWhole_of_quietCalls
    takes_of_quietCalls (by rintro ⟨⟩) 11 (show ([0, 0, 0, 12] : Bytes).length = 4 from rfl) hjunk
  exact ⟨Header.isListed_blank, isWhole_of_quietCalls, takes_of_quietCalls, hjunk, hplausible,
    hroom, hblocks, hcount hplausible hroom⟩

/-- **A block lost without a count.**  Behind the largest length there is, no frame starts in the
bytes of the second sample.  The other two come back, and nothing has been counted as damage. -/
theorem unnoticed_loss :
    let last := ((Reader.idle .standard).openSource
      (.ofBytes (forgedTape [255, 255, 255, 255]))).1.drain
    Header.blank.IsListed ∧ (∀ b ∈ Call.blocks quietCalls, b.IsWhole Header.blank.format) ∧
      (∀ b ∈ Call.blocks quietCalls, Takes Writer.idle.packer Header.blank.form b) ∧
      (∀ k < (forgedFrame [255, 255, 255, 255]).length, Undecodable quietHeader
        ((forgedFrame [255, 255, 255, 255] ++ quietFrames [quietBlock 3]).drop k)) ∧
      last.1.map Prod.fst = [quietBlock 1, quietBlock 3] ∧ last.2.counts.corrupted = 0 := by
  have hjunk : ∀ k < (forgedFrame [255, 255, 255, 255]).length, Undecodable quietHeader
      ((forgedFrame [255, 255, 255, 255] ++ quietFrames [quietBlock 3]).drop k) := by
    decide +kernel
  have hunnoticed : ¬Mismatches quietHeader (forgedFrame [255, 255, 255, 255])
      (quietFrames [quietBlock 3]) := by decide +kernel
  have hcontent : forgedTape [255, 255, 255, 255] = quietHeader.encode ++
      (quietFrames [quietBlock 1] ++
        (forgedFrame [255, 255, 255, 255] ++ quietFrames [quietBlock 3])) :=
    content_forged Writer.idle 8 .blank blocks_quietCalls takes_of_quietCalls 11 rfl
  have hbody (bs : List Block) : quietFrames bs = body (ofBlocks quietStored bs) :=
    (body_ofBlocks quietStored bs).symm
  have hbefore : ∀ b ∈ [quietBlock 1], IsFrame quietHeader (quietStored b).frame b :=
    fun b hmem => isFrame_of_quietCalls b (List.mem_append_left _ hmem)
  have hafter : ∀ b ∈ [quietBlock 3], IsFrame quietHeader (quietStored b).frame b :=
    fun b hmem => isFrame_of_quietCalls b
      (List.mem_append_right [quietBlock 1] (List.mem_cons_of_mem (quietBlock 2) hmem))
  obtain ⟨-, -, -, hblocks, hcount, -⟩ :=
    Reader.drain_around (Reader.idle .standard) (Header.length_encode quietHeader)
      (Header.decode_encode_self (Header.isListed_blank.ended _ _)) quietStored hbefore hafter
      (by rw [← hbody]; exact hjunk)
  rw [← hbody, ← hbody, ← hcontent] at hblocks hcount
  rw [decide_eq_false hunnoticed] at hcount
  exact ⟨Header.isListed_blank, isWhole_of_quietCalls, takes_of_quietCalls, hjunk, hblocks, hcount⟩

end Writer
end IqTape
