import IqTape.Proofs.Capture.Cutter
import IqTape.Proofs.Capture.Session

/-!
# What comes in is written

However the chunks are cut and however a session ends, the blocks that reach the tape hold
the samples of the chunks that were taken in, in order.  All of them are full but perhaps
the last, which is never empty.

## Main definitions

* `Recording.Reblocked` — the state of a session, stage by stage.

## Main results

* `Recording.Reblocked.handle` — an event keeps to it.
* `Recording.Reblocked.run` — so does a run.
* `Recording.blocks_of_run` — **the blocks of a session**.
-/

namespace IqTape

/-- A checked configuration has blocks with samples. -/
theorem RecorderConfig.blockSamples_pos {c : RecorderConfig} (h : c.validate = none) :
    0 < c.blockSamples := by
  refine UInt32.pos_iff_ne_zero.2 ?_
  intro hzero
  unfold validate at h
  rw [if_pos hzero] at h
  split at h
  · cases h
  · cases h

namespace Recording

/-- All the chunks that the writer takes out of the queue. -/
def allTaken (r : Recording) (es : List Event) : List Chunk :=
  r.gather (fun r e => (r.taken e).toList) es

/-- The chunks that are taken in are those of the right size. -/
theorem allAccepted_eq (r : Recording) (es : List Event) :
    r.allAccepted es = (r.allTaken es).filter (·.isWhole r.sampleSize) := by
  induction es generalizing r with
  | nil => rfl
  | cons e es ih =>
    have hsize : (r.handle e).sampleSize = r.sampleSize := by
      rw [sampleSize, sampleSize, config_handle]
    have hrest := ih (r.handle e)
    rw [hsize] at hrest
    rw [allAccepted, allTaken, gather, gather, List.filter_append, ← Option.toList_filter]
    exact congrArg _ hrest

/-- The state of a session since its loop was entered: which chunks have been taken in and
which blocks handed on, and what the cutter still holds. -/
def Reblocked (start : Recording) (chunks : List Chunk) (blocks : List Block)
    (r : Recording) : Prop :=
  r.config = start.config ∧
    match r.stage with
    | .opening => False
    | .ready => chunks = [] ∧ blocks = [] ∧ r.writer = start.writer
    | .looping =>
      r.cutter.Underway start.config.format start.config.blockSamples chunks blocks ∧
        r.writer = start.writer.appendAll blocks
    | .joining =>
      Cutter.Reblocks start.config.format start.config.blockSamples chunks blocks ∧
        r.writer = start.writer.appendAll blocks
    | .ended => Cutter.Reblocks start.config.format start.config.blockSamples chunks blocks

namespace Reblocked

variable {start r : Recording} {chunks : List Chunk} {blocks : List Block}

/-- **An event keeps to it.** -/
theorem handle (hr : Reblocked start chunks blocks r) (hn : 0 < start.config.blockSamples)
    {e : Event}
    (hs : ∀ c ∈ r.accepted e, c.count.toNat + start.config.blockSamples.toNat < 2 ^ 32) :
    Reblocked start (chunks ++ (r.accepted e).toList) (blocks ++ r.handed e) (r.handle e) := by
  obtain ⟨hconfig, hstage⟩ := hr
  have hnext : (r.handle e).config = start.config := (config_handle r e).trans hconfig
  have hsize : r.sampleSize = start.config.format.bytesPerSample := by rw [sampleSize, hconfig]
  -- Only the three deeds of the loop touch the cutter; the others keep what is known.
  have hdeed := deed_handle r e
  generalize r.handle e = later, r.accepted e = found, r.handed e = bs at hnext hdeed hs ⊢
  refine ⟨hnext, ?_⟩
  cases hdeed with
  | passed stage cutter writer =>
    rw [Option.toList_none, List.append_nil, List.append_nil, stage, cutter, writer]
    exact hstage
  | opened stage next =>
    rw [stage] at hstage
    exact hstage.elim
  | entered stage next cutter writer =>
    rw [stage] at hstage
    obtain ⟨rfl, rfl, hwriter⟩ := hstage
    rw [next]
    simp only
    rw [cutter, writer]
    exact ⟨Cutter.underway_empty hn, hwriter⟩
  | took c stage next whole cutter writer =>
    rw [stage] at hstage
    obtain ⟨hunderway, hwriter⟩ := hstage
    rw [hsize] at whole
    rw [next]
    simp only
    rw [cutter, writer, hwriter, hsize, hconfig, Writer.appendAll_append]
    exact ⟨hunderway.take hn whole (hs c rfl), rfl⟩
  | left stage next writer =>
    rw [stage] at hstage
    obtain ⟨hunderway, hwriter⟩ := hstage
    rw [next]
    simp only
    rw [writer, hwriter, Writer.appendAll_append, Option.toList_none, List.append_nil]
    exact ⟨hunderway.reblocks hn, rfl⟩
  | finished stage next =>
    rw [stage] at hstage
    rw [next, Option.toList_none, List.append_nil, List.append_nil]
    exact hstage.1

/-- **So does a run.** -/
theorem run (hr : Reblocked start chunks blocks r) (hn : 0 < start.config.blockSamples)
    {es : List Event}
    (hs : ∀ c ∈ r.allAccepted es, c.count.toNat + start.config.blockSamples.toNat < 2 ^ 32) :
    Reblocked start (chunks ++ r.allAccepted es) (blocks ++ r.allHanded es) (r.run es) := by
  induction es generalizing r chunks blocks with
  | nil =>
    rw [allAccepted, allHanded, gather, gather, List.append_nil, List.append_nil]
    exact hr
  | cons e es ih =>
    rw [allAccepted, allHanded, gather, gather, ← List.append_assoc, ← List.append_assoc]
    rw [allAccepted, gather] at hs
    have hfirst := hr.handle hn fun c hc =>
      hs c (List.mem_append_left _ (Option.mem_toList.2 hc))
    exact ih hfirst fun c hc => hs c (List.mem_append_right _ hc)

/-- Every block has the bytes of its samples. -/
theorem whole (hr : Reblocked start chunks blocks r) :
    ∀ b ∈ blocks, b.IsWhole start.config.format := by
  obtain ⟨-, hstage⟩ := hr
  cases h : r.stage with
  | opening => rw [h] at hstage; exact hstage.elim
  | ready => rw [h] at hstage; rw [hstage.2.1]; nofun
  | looping => rw [h] at hstage; exact hstage.1.whole
  | joining => rw [h] at hstage; exact hstage.1.whole
  | ended => rw [h] at hstage; exact hstage.whole

/-- Once the loop has been left, the blocks are complete. -/
theorem reblocks (hr : Reblocked start chunks blocks r) (hleft : r.hasLeftLoop = true) :
    Cutter.Reblocks start.config.format start.config.blockSamples chunks blocks := by
  obtain ⟨-, hstage⟩ := hr
  rcases (hasLeftLoop_iff r).1 hleft with h | h
  · rw [h] at hstage
    exact hstage.1
  · rw [h] at hstage
    exact hstage

/-- Until the tape is closed, the writer is where the blocks have brought it. -/
theorem writer_eq (hr : Reblocked start chunks blocks r) (hopen : r.isOver = false) :
    r.writer = start.writer.appendAll blocks := by
  obtain ⟨-, hstage⟩ := hr
  cases h : r.stage with
  | opening => rw [h] at hstage; exact hstage.elim
  | ready =>
    rw [h] at hstage
    obtain ⟨-, rfl, hwriter⟩ := hstage
    exact hwriter
  | looping => rw [h] at hstage; exact hstage.2
  | joining => rw [h] at hstage; exact hstage.2
  | ended =>
    rw [(isOver_iff r).2 h] at hopen
    cases hopen

end Reblocked

/-- **The blocks of a session.**  Whatever chunks come, in whatever order the device, the
writer and requests to stop make their steps, and whatever ends the loop: the blocks that
are handed to the tape hold the samples of the chunks of the right size, none lost, none
twice and none out of order.  All of them are full but perhaps the last, which is not
empty; and between two steps of the loop the cutter has less than a block, with the bytes
and the samples in step. -/
theorem blocks_of_run {start : Recording} (hv : start.config.validate = none)
    (hp : start.phase = .starting) {es : List Event}
    (hs : ∀ c ∈ (start.allTaken es).filter (·.isWhole start.sampleSize),
      c.count.toNat + start.config.blockSamples.toNat < 2 ^ 32) :
    let last := start.run es
    let n := start.config.blockSamples
    let chunks := (start.allTaken es).filter (·.isWhole start.sampleSize)
    let blocks := start.allHanded es
    (last.stage = .looping →
      last.cutter.held.length = last.cutter.samples.toNat * start.sampleSize ∧
        last.cutter.samples < n ∧ (∀ b ∈ blocks, b.count = n) ∧
        Block.payloads blocks ++ last.cutter.held = Chunk.samples chunks) ∧
      (last.hasLeftLoop = true →
        Block.payloads blocks = Chunk.samples chunks ∧ (∀ b ∈ blocks.dropLast, b.count = n) ∧
          ∀ b ∈ blocks.getLast?, 0 < b.count ∧ b.count ≤ n) ∧
      (∀ b ∈ blocks, b.count.toNat * start.sampleSize = b.payload.length) ∧
      (last.isOver = false → last.writer = start.writer.appendAll blocks) := by
  intro last n chunks blocks
  have hn : 0 < start.config.blockSamples := RecorderConfig.blockSamples_pos hv
  have hready : Reblocked start [] [] start := by
    refine ⟨rfl, ?_⟩
    have hstage : start.stage = .ready := by rw [stage, hp]
    rw [hstage]
    exact ⟨rfl, rfl, rfl⟩
  have hchunks : start.allAccepted es = chunks := allAccepted_eq start es
  have hfits : ∀ c ∈ start.allAccepted es, c.count.toNat + n.toNat < 2 ^ 32 := by
    rw [hchunks]
    exact hs
  have hrun : Reblocked start chunks blocks last := by
    have hrun := hready.run hn hfits
    rwa [List.nil_append, List.nil_append, hchunks] at hrun
  refine ⟨?_, ?_, fun b hb => (hrun.whole b hb).size, hrun.writer_eq⟩
  · intro hloop
    obtain ⟨-, hstage⟩ := hrun
    rw [hloop] at hstage
    obtain ⟨⟨⟨hbytes, hshort⟩, hrejoined, hfull, -⟩, -⟩ := hstage
    exact ⟨hbytes, hshort, hfull, hrejoined⟩
  · intro hleft
    obtain ⟨hsame, hfull, hlast, -⟩ := hrun.reblocks hleft
    exact ⟨hsame, hfull, hlast⟩

/-- A recorder whose blocks have two samples, before the session is set up. -/
def sampleStart : Recording :=
  { idle { RecorderConfig.initial with blockSamples := 2, capacity := 1 } 0 with
    phase := .starting }

/-- A chunk of three samples is recorded, and then the session is asked to stop. -/
def sampleEvents : List Event :=
  [.step ⟨0, 0⟩, .offer ⟨7, 3, [1, 2, 3, 4, 5, 6, 7, 8, 9, 10, 11, 12]⟩, .step ⟨1, 0⟩,
    .step ⟨2, 0⟩, .requestStop, .step ⟨3, 0⟩, .step ⟨4, 0⟩]

/-- The three samples make a full block and a last one. -/
theorem blocks_of_run_of_sampleEvents :
    sampleStart.config.validate = none ∧ sampleStart.phase = .starting ∧
      (∀ c ∈ (sampleStart.allTaken sampleEvents).filter (·.isWhole sampleStart.sampleSize),
        c.count.toNat + sampleStart.config.blockSamples.toNat < 2 ^ 32) ∧
      (sampleStart.run sampleEvents).hasLeftLoop = true ∧
      (sampleStart.allHanded sampleEvents).length = 2 ∧
      Block.payloads (sampleStart.allHanded sampleEvents) =
        [1, 2, 3, 4, 5, 6, 7, 8, 9, 10, 11, 12] ∧
      ∀ b ∈ (sampleStart.allHanded sampleEvents).dropLast, b.count = 2 := by
  have hv : sampleStart.config.validate = none := by decide +kernel
  have hs : ∀ c ∈ (sampleStart.allTaken sampleEvents).filter (·.isWhole sampleStart.sampleSize),
      c.count.toNat + sampleStart.config.blockSamples.toNat < 2 ^ 32 := by decide +kernel
  have hleft : (sampleStart.run sampleEvents).hasLeftLoop = true := by decide +kernel
  have hchunks : Chunk.samples ((sampleStart.allTaken sampleEvents).filter
      (·.isWhole sampleStart.sampleSize)) = [1, 2, 3, 4, 5, 6, 7, 8, 9, 10, 11, 12] := by
    decide +kernel
  obtain ⟨-, hblocks, -, -⟩ := blocks_of_run hv rfl hs
  have htwo : (sampleStart.allHanded sampleEvents).length = 2 := by decide +kernel
  exact ⟨hv, rfl, hs, hleft, htwo, (hblocks hleft).1.trans hchunks, (hblocks hleft).2.1⟩

end Recording

end IqTape
