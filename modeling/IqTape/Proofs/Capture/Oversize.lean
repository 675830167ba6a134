import IqTape.Proofs.Capture.Conservation
import IqTape.Proofs.Lz4.Written

/-!
# Blocks that are too large for the tape

A configuration is checked so that the frame of a full block is not too large, and it is the raw
block that is checked.  So a raw block of a session always fits.  A packed one need not: the packed
form of samples that cannot be packed is larger than they are, and it has their number in front.
How much larger is bounded, so blocks that leave room for that fit in either form.

## Main definitions

* `Block.packedSize` — the size of a frame once its payload is packed.

## Main results

* `Writer.append_too_large_iff` — which blocks a tape refuses as too large.
* `Recording.frameSize_of_handed` — the frame of a raw block is never too large.
* `Recording.too_large_only_if_packed` — **only packed blocks are too large**, and only blocks near
  the limit.
-/

namespace IqTape

/-- The size of the frame of a block once its payload is packed. -/
def Block.packedSize (packer : Lz4.Packer) (b : Block) : Nat :=
  Block.overhead + (Payload.prefixSize + (packer.choose b.payload).length)

namespace Writer

/-- Whether a block can be taken depends on nothing that appending changes, but for the sink. -/
theorem settings_appendAll (w : Writer) (bs : List Block) :
    (w.appendAll bs).isOpen = w.isOpen ∧ (w.appendAll bs).header = w.header ∧
      (w.appendAll bs).packer = w.packer := by
  induction bs generalizing w with
  | nil => exact ⟨rfl, rfl, rfl⟩
  | cons b bs ih =>
    have hfirst : (w.append b).1.isOpen = w.isOpen ∧ (w.append b).1.header = w.header ∧
        (w.append b).1.packer = w.packer := by
      rcases append_cases w b with ⟨sink, f, h⟩ | ⟨sink, size, h⟩ <;> rw [h] <;>
        exact ⟨rfl, rfl, rfl⟩
    obtain ⟨hopen, hheader, hpacker⟩ := ih (w.append b).1
    exact ⟨hopen.trans hfirst.1, hheader.trans hfirst.2.1, hpacker.trans hfirst.2.2⟩

variable {w : Writer} {b stored : Block}

/-- A block is refused as too large by the size of the frame that it would have. -/
theorem append_invalid_iff (hopen : w.isOpen = true)
    (hprepare : prepare w.packer w.header.form b = .ok stored) :
    (w.append b).2 = some .invalidBlockSize ↔ Block.maxFrame < stored.frameSize := by
  have hclosed : ¬(!w.isOpen) = true := by
    rw [hopen]
    decide
  simp only [append]
  rw [if_neg hclosed, hprepare]
  simp only [Block.encode]
  by_cases hlarge : Block.maxFrame < stored.frameSize
  · rw [if_pos hlarge]
    exact ⟨fun _ => hlarge, fun _ => rfl⟩
  · rw [if_neg hlarge]
    refine ⟨fun h => ?_, fun h => absurd h hlarge⟩
    simp only at h
    split at h <;> cases h

/-- **A raw block that would fit as it is** is refused as too large just if it is to be packed and
its packed form does not fit. -/
theorem append_too_large_iff (hopen : w.isOpen = true) (hraw : b.packed = false)
    (hfits : b.frameSize ≤ Block.maxFrame) :
    (w.append b).2 = some .invalidBlockSize ↔
      w.header.form = .lz4 ∧ Block.maxFrame < b.packedSize w.packer := by
  by_cases hform : w.header.form = .lz4
  · have hpacks : w.header.form.packs = true := decide_eq_true hform
    have hsmall : ¬Payload.maxRaw < b.payload.length := by
      simp only [Block.frameSize, Block.maxFrame] at hfits
      simp only [Payload.maxRaw]
      omega
    have hprepare : prepare w.packer w.header.form b = .ok
        { b with
          payload := ByteOrder.little.encode Payload.prefixSize b.payload.length ++
            w.packer.choose b.payload
          packed := true } := by
      rw [prepare, if_pos hpacks, Block.pack, if_neg (Bool.eq_false_iff.1 hraw), Payload.pack,
        if_neg hsmall]
    rw [append_invalid_iff hopen hprepare, Block.frameSize, Block.packedSize, List.length_append,
      ByteOrder.length_encode]
    exact ⟨fun h => ⟨hform, h⟩, And.right⟩
  · have hpacks : ¬w.header.form.packs = true := fun h => hform (of_decide_eq_true h)
    have hprepare : prepare w.packer w.header.form b = .ok b := by rw [prepare, if_neg hpacks]
    rw [append_invalid_iff hopen hprepare]
    exact ⟨fun h => absurd h (Nat.not_lt_of_le hfits), fun h => absurd h.1 hform⟩

end Writer

/-- In a checked configuration a full block of raw samples has a frame. -/
theorem RecorderConfig.full_block_fits {c : RecorderConfig} (h : c.validate = none) :
    c.blockSamples.toNat * c.format.bytesPerSample + Block.overhead ≤ Block.maxFrame := by
  refine Nat.le_of_not_lt fun hlarge => ?_
  have hpos := RecorderConfig.blockSamples_pos h
  unfold validate at h
  rw [if_neg (UInt32.pos_iff_ne_zero.1 hpos), if_pos hlarge] at h
  split at h <;> cases h

/-- So has any other block that is whole and has no more samples. -/
theorem Block.IsWhole.fits {c : RecorderConfig} {b : Block} (h : b.IsWhole c.format)
    (hv : c.validate = none) (hcount : b.count ≤ c.blockSamples) :
    b.payload.length ≤ c.blockSamples.toNat * c.format.bytesPerSample ∧
      b.frameSize ≤ Block.maxFrame := by
  have hbytes := Nat.mul_le_mul_right c.format.bytesPerSample (UInt32.le_iff_toNat_le.1 hcount)
  rw [h.size] at hbytes
  have hfull := RecorderConfig.full_block_fits hv
  refine ⟨hbytes, ?_⟩
  rw [Block.frameSize]
  omega

/-- No block has more samples than a full one. -/
theorem Cutter.Reblocks.count_le {format : SampleFormat} {n : UInt32} {chunks : List Chunk}
    {blocks : List Block} (h : Reblocks format n chunks blocks) : ∀ b ∈ blocks, b.count ≤ n := by
  intro b hb
  cases hlast : blocks.getLast? with
  | none =>
    rw [List.getLast?_eq_none_iff.1 hlast] at hb
    cases hb
  | some last =>
    obtain ⟨front, rfl⟩ := List.getLast?_eq_some_iff.1 hlast
    rcases List.mem_append.1 hb with hb | hb
    · rw [h.full b (by rwa [List.dropLast_concat])]
      exact UInt32.le_refl n
    · rw [List.mem_singleton.1 hb]
      exact (h.last last hlast).2

namespace Recording

theorem Reblocked.count_le {start r : Recording} {chunks : List Chunk} {blocks : List Block}
    (hr : Reblocked start chunks blocks r) : ∀ b ∈ blocks, b.count ≤ start.config.blockSamples := by
  obtain ⟨-, hstage⟩ := hr
  cases h : r.stage with
  | opening => rw [h] at hstage; exact hstage.elim
  | ready =>
    rw [h] at hstage
    rw [hstage.2.1]
    exact List.forall_mem_nil _
  | looping =>
    rw [h] at hstage
    intro b hb
    rw [hstage.1.full b hb]
    exact UInt32.le_refl _
  | joining => rw [h] at hstage; exact hstage.1.count_le
  | ended => rw [h] at hstage; exact hstage.count_le

section

variable {r : Recording} {device : DeviceInfo} {file : Option Sink} {opened started : Moment}

/-- A session begins with an open tape in the form that was asked for, and no samples. -/
theorem of_setUp_looping (hopen : (r.setUp device file opened started).stage = .looping) :
    let start := r.setUp device file opened started
    start.cutter = .empty ∧ start.writer.isOpen = true ∧
      start.writer.header.form = r.config.form ∧ start.writer.packer = r.writer.packer := by
  have hfirst : (r.begin device file).handle (.step opened) =
      ((r.begin device file).openTape opened.second file).1 := rfl
  unfold setUp at hopen ⊢
  rw [run, run, run, hfirst] at hopen ⊢
  unfold openTape at hopen ⊢
  cases file with
  | none => cases hopen
  | some sink =>
    simp only [Writer.create, Writer.attach] at hopen ⊢
    by_cases hgood : (sink.put { (r.begin device (some sink)).header opened.second with
        total := 0, finish := 0 }.encode).good = true
    · rw [if_pos hgood] at hopen ⊢
      exact ⟨rfl, rfl, rfl, rfl⟩
    · rw [if_neg hgood] at hopen
      cases hopen

/-- **The frame of a raw block is never too large**, and until the tape is closed its writer is
where the blocks have brought it. -/
theorem frameSize_of_handed (hv : r.config.validate = none)
    (hopen : (r.setUp device file opened started).stage = .looping) {es : List Event}
    (hs : ∀ c ∈ (r.setUp device file opened started).allAccepted es,
      c.count.toNat + r.config.blockSamples.toNat < 2 ^ 32) :
    let start := r.setUp device file opened started
    (∀ b ∈ start.allHanded es, b.packed = false ∧
        b.payload.length ≤ r.config.blockSamples.toNat * r.config.format.bytesPerSample ∧
        b.frameSize ≤ Block.maxFrame) ∧
      ((start.run es).isOver = false →
        (start.run es).writer = start.writer.appendAll (start.allHanded es)) := by
  intro start
  have hconfig : start.config = r.config := config_setUp
  have hn : 0 < start.config.blockSamples := by
    rw [hconfig]
    exact RecorderConfig.blockSamples_pos hv
  have hready : Reblocked start [] [] start := by
    refine ⟨rfl, ?_⟩
    have hstage : start.stage = .looping := hopen
    rw [hstage]
    refine ⟨?_, rfl⟩
    rw [(of_setUp_looping hopen).1]
    exact Cutter.underway_empty hn
  rw [← hconfig] at hs
  have hrun := hready.run hn hs
  rw [List.nil_append, List.nil_append] at hrun
  refine ⟨fun b hb => ?_, hrun.writer_eq⟩
  have hwhole := hrun.whole b hb
  have hcount := hrun.count_le b hb
  rw [hconfig] at hwhole hcount
  exact ⟨hwhole.raw, hwhole.fits hv hcount⟩

/-- **Only packed blocks are too large.**  Whatever a session with a checked configuration records,
each block that it hands to the tape would fit as it is.  It is refused as too large just if it is
to be packed and its packed form does not fit; and if a full block leaves room for the worst packed
form then none is, whichever packed block the compressor chooses of those that rebuild it. -/
theorem too_large_only_if_packed (hv : r.config.validate = none)
    (hopen : (r.setUp device file opened started).stage = .looping) {es : List Event}
    (hs : ∀ c ∈ (r.setUp device file opened started).allAccepted es,
      c.count.toNat + r.config.blockSamples.toNat < 2 ^ 32) :
    let start := r.setUp device file opened started
    let packer := r.writer.packer
    let full := r.config.blockSamples.toNat * r.config.format.bytesPerSample
    ((start.run es).isOver = false →
        (start.run es).writer = start.writer.appendAll (start.allHanded es)) ∧
      ∀ before b after, start.allHanded es = before ++ b :: after →
        let refused := ((start.writer.appendAll before).append b).2 = some .invalidBlockSize
        b.frameSize ≤ Block.maxFrame ∧
          (refused ↔ r.config.form = .lz4 ∧ Block.maxFrame < b.packedSize packer) ∧
          (packer.Rebuilds b.payload →
            Block.overhead + (Payload.prefixSize + Lz4.bound full) ≤ Block.maxFrame →
              ¬refused) := by
  intro start packer full
  obtain ⟨hfits, hwriter⟩ := frameSize_of_handed hv hopen hs
  refine ⟨hwriter, ?_⟩
  intro before b after hblocks refused
  have hb : b ∈ start.allHanded es := by
    rw [hblocks]
    exact List.mem_append_right _ List.mem_cons_self
  obtain ⟨hraw, hbytes, hframe⟩ := hfits b hb
  obtain ⟨-, hstarted, hform, hpacker⟩ := of_setUp_looping hopen
  obtain ⟨hopened, hheader, hsame⟩ := start.writer.settings_appendAll before
  have hrefused : refused ↔ r.config.form = .lz4 ∧ Block.maxFrame < b.packedSize packer := by
    have hiff := Writer.append_too_large_iff (hopened.trans hstarted) hraw hframe
    rw [hheader, hsame, hform, hpacker] at hiff
    exact hiff
  refine ⟨hframe, hrefused, fun hrebuilds hroom hno => ?_⟩
  have hlarge := (hrefused.1 hno).2
  have hpacked := Lz4.length_le_of_decodeBlock hrebuilds
  have hbound : Lz4.bound b.payload.length ≤ Lz4.bound full :=
    Nat.add_le_add_right (Nat.add_le_add hbytes (Nat.div_le_div_right hbytes)) 16
  rw [Block.packedSize] at hlarge
  omega

end

/-- A recorder whose blocks have two samples and are packed. -/
def packedRecorder : Recording :=
  idle { RecorderConfig.initial with blockSamples := 2, capacity := 1, form := .lz4 } 0

/-- The session. -/
def packedSession : Recording :=
  packedRecorder.setUp default (some (.ofBytes [] none true)) ⟨0, 0⟩ ⟨1, 0⟩

/-- A chunk that makes a full block. -/
def packedEvents : List Event :=
  [.step ⟨2, 0⟩, .offer ⟨7, 2, [1, 2, 3, 4, 5, 6, 7, 8]⟩, .step ⟨3, 0⟩]

/-- The block is packed and fits. -/
theorem too_large_only_if_packed_of_packedEvents :
    let b : Block := ⟨7, 2, [1, 2, 3, 4, 5, 6, 7, 8], false⟩
    packedRecorder.config.validate = none ∧ packedSession.stage = .looping ∧
      (∀ c ∈ packedSession.allAccepted packedEvents,
        c.count.toNat + packedRecorder.config.blockSamples.toNat < 2 ^ 32) ∧
      packedSession.allHanded packedEvents = [b] ∧ b.frameSize ≤ Block.maxFrame ∧
      (packedSession.writer.append b).2 ≠ some .invalidBlockSize ∧
      (packedSession.run packedEvents).writer = packedSession.writer.appendAll [b] := by
  intro b
  have hv : packedRecorder.config.validate = none := by decide +kernel
  have hopen : packedSession.stage = .looping := by decide +kernel
  have hs : ∀ c ∈ packedSession.allAccepted packedEvents,
      c.count.toNat + packedRecorder.config.blockSamples.toNat < 2 ^ 32 := by decide +kernel
  have hblocks : packedSession.allHanded packedEvents = [b] := by decide +kernel
  have hrebuilds : packedRecorder.writer.packer.Rebuilds b.payload := by decide +kernel
  have hgoing : (packedSession.run packedEvents).isOver = false := by decide +kernel
  obtain ⟨hwriter, hrefused⟩ := too_large_only_if_packed hv hopen hs
  obtain ⟨hframe, -, hnever⟩ := hrefused [] b [] hblocks
  have hlast := hwriter hgoing
  unfold packedSession at *
  rw [hblocks] at hlast
  exact ⟨hv, hopen, hs, hblocks, hframe, hnever hrebuilds (by decide +kernel), hlast⟩

/-! ### A block at the limit -/

/-- A full block's chunk goes through the queue and the cutter as it is. -/
theorem handed_of_full {s : Recording} {deadline : Int} {c : Chunk} (hring : s.queue.IsRing)
    (hempty : s.queue.toList = []) (hroom : (s.queue.push c).1 = true)
    (hphase : s.phase = .waiting deadline) (hcutter : s.cutter = .empty)
    (hwhole : c.isWhole s.sampleSize = true) (hcount : c.count = s.config.blockSamples)
    (hpos : 0 < c.count) (now : Moment) :
    (s.offer c).2.handed (.step now) = [⟨c.timestamp, c.count, c.data, false⟩] := by
  have hoffer : (s.offer c).2 = { s with queue := (s.queue.push c).2 } := by
    have hpush : s.queue.push c = (true, (s.queue.push c).2) := Prod.ext hroom rfl
    rw [offer, publish, hpush]
  have hlist : (s.queue.push c).2.toList = [c] := by
    rw [Queue.toList_push hring, hempty, hroom]
    rfl
  have hfound := (Queue.poll_eq (Queue.isRing_push (c := c) hring)).1
  rw [hlist] at hfound
  have haccepted : (s.offer c).2.accepted (.step now) = some c := by
    rw [hoffer, accepted, taken]
    simp only [hphase]
    rw [hfound]
    exact Option.filter_some_pos hwhole
  -- The block takes all that there is.
  have hsize : c.data.length = c.count.toNat * s.sampleSize := eq_of_beq hwhole
  have hadd : Cutter.empty.add c = ⟨c.data, c.count, some c.timestamp⟩ := by
    rw [Cutter.add, Cutter.empty, UInt32.zero_add]
    rfl
  have hfront : (Cutter.empty.add c).front s.sampleSize c.count =
      ⟨c.timestamp, c.count, c.data, false⟩ := by
    rw [hadd, Cutter.front, ← hsize, List.take_length]
    rfl
  have hrest : ((Cutter.empty.add c).rest s.sampleSize c.count).samples < c.count := by
    rw [hadd, Cutter.rest, UInt32.sub_self]
    exact hpos
  have hcut : ((Cutter.empty.add c).cut s.sampleSize c.count).1 =
      [⟨c.timestamp, c.count, c.data, false⟩] := by
    rw [Cutter.cut_of_le hpos (by rw [hadd]; exact UInt32.le_refl _), Cutter.cut_of_lt hrest,
      hfront]
  rw [handed, haccepted, hoffer, hcutter, ← hcount]
  exact hcut

/-- A full block's chunk that is offered while the writer waits at an empty queue makes a block, and
the only one. -/
theorem allHanded_of_full {s : Recording} {capacity : Nat} {deadline : Int} {c : Chunk}
    (hqueue : s.queue = .empty capacity) (hphase : s.phase = .waiting deadline)
    (hcutter : s.cutter = .empty) (hwhole : c.isWhole s.sampleSize = true)
    (hcount : c.count = s.config.blockSamples) (hpos : 0 < c.count) (now : Moment) :
    s.allHanded [.offer c, .step now] = [⟨c.timestamp, c.count, c.data, false⟩] := by
  have hring : s.queue.IsRing := by
    rw [hqueue]
    exact Queue.isRing_empty capacity
  have hempty : s.queue.toList = [] := by
    rw [hqueue]
    exact Queue.toList_empty capacity
  have hroom : (s.queue.push c).1 = true := by
    have hopen : ¬(Queue.empty capacity).closed = true := nofun
    have hsome : ¬(Queue.empty capacity).capacity ≤ (Queue.empty capacity).size :=
      Nat.not_le_of_lt (Nat.le_max_left 1 capacity)
    rw [hqueue, Queue.push_eq, if_neg hopen, if_neg hsome]
  have hnothing : s.handed (.offer c) = [] := rfl
  have hblock := handed_of_full hring hempty hroom hphase hcutter hwhole hcount hpos now
  rw [allHanded, gather, gather, gather, hnothing, handle, hblock]
  rfl

/-- A compressor that writes all its input as literals. -/
def literalPacker : Lz4.Packer := ⟨fun raw => (Lz4.Plan.mk [] raw).encode⟩

/-- What it writes can be read back. -/
theorem rebuilds_literalPacker (raw : Bytes) : literalPacker.Rebuilds raw := by
  let plan : Lz4.Plan := ⟨[], raw⟩
  have hexpand : plan.expand = raw := by
    simp [plan, Lz4.Plan.expand]
  have hsize : plan.size = raw.length := by rw [← Lz4.Plan.length_expand, hexpand]
  have hback := Lz4.decodeBlock_of_isSaidBy (p := plan) trivial plan.isSaidBy_encode
  rw [hsize, hexpand] at hback
  exact hback

/-- It never makes anything smaller. -/
theorem length_le_literalPacker (raw : Bytes) : raw.length ≤ (literalPacker.choose raw).length := by
  have hall : literalPacker.choose raw = Lz4.encodeFinal raw := rfl
  rw [hall, Lz4.encodeFinal, List.length_cons, List.length_append]
  omega

/-- A recorder with the largest blocks that a frame has room for. -/
def oversizeRecorder : Recording :=
  { idle { RecorderConfig.initial with blockSamples := 262139, capacity := 1, form := .lz4 } 0 with
    writer := { Writer.idle with packer := literalPacker } }

/-- The session. -/
def oversizeSession : Recording :=
  oversizeRecorder.setUp default (some (.ofBytes [] none true)) ⟨0, 0⟩ ⟨1, 0⟩

/-- A chunk that makes a full block. -/
def oversizeChunk : Chunk := ⟨7, 262139, List.replicate 1048556 0⟩

theorem length_oversizeChunk : oversizeChunk.data.length = 1048556 := List.length_replicate

/-- It comes while the writer looks for it. -/
def oversizeEvents : List Event := [.step ⟨2, 0⟩, .offer oversizeChunk, .step ⟨3, 0⟩]

/-- The block that it makes is the only one. -/
theorem allHanded_oversizeEvents :
    oversizeSession.allHanded oversizeEvents =
      [⟨oversizeChunk.timestamp, oversizeChunk.count, oversizeChunk.data, false⟩] := by
  obtain ⟨waiting, hwaiting⟩ : ∃ s, oversizeSession.handle (.step ⟨2, 0⟩) = s := ⟨_, rfl⟩
  have hidle : oversizeSession.handed (.step ⟨2, 0⟩) = [] := by decide +kernel
  have hqueue : waiting.queue = .empty 1 := by rw [← hwaiting]; decide +kernel
  have hphase : waiting.phase = .waiting 100000002 := by rw [← hwaiting]; decide +kernel
  have hcutter : waiting.cutter = .empty := by rw [← hwaiting]; decide +kernel
  have hsize : waiting.sampleSize = 4 := by rw [← hwaiting]; decide +kernel
  have hfull : oversizeChunk.count = waiting.config.blockSamples := by
    rw [← hwaiting]
    decide +kernel
  have hwhole : oversizeChunk.isWhole waiting.sampleSize = true := by
    rw [hsize, Chunk.isWhole, length_oversizeChunk]
    decide
  have hblock := allHanded_of_full hqueue hphase hcutter hwhole hfull (by decide) ⟨3, 0⟩
  rw [allHanded, oversizeEvents, gather, hidle, hwaiting, List.nil_append]
  exact hblock

/-- The tape refuses any raw block of that size. -/
theorem oversizeSession_refuses {b : Block} (hraw : b.packed = false)
    (hlength : b.payload.length = 1048556) :
    (oversizeSession.writer.append b).2 = some .invalidBlockSize := by
  have hopen : oversizeSession.stage = .looping := by decide +kernel
  obtain ⟨-, hstarted, hform, hpacker⟩ := of_setUp_looping hopen
  have hfits : b.frameSize ≤ Block.maxFrame := by
    rw [Block.frameSize, hlength]
    decide
  have hleast := length_le_literalPacker b.payload
  have hlarge : Block.maxFrame < b.packedSize literalPacker := by
    rw [Block.packedSize, Block.maxFrame, Block.overhead, Payload.prefixSize]
    omega
  refine (Writer.append_too_large_iff hstarted hraw hfits).2 ⟨hform, ?_⟩
  rw [hpacker]
  exact hlarge

/-- **A full block of a checked configuration can be too large**, when a compressor that keeps to
the format finds nothing to pack in it. -/
theorem oversize_block_is_refused :
    oversizeRecorder.config.validate = none ∧ oversizeSession.stage = .looping ∧
      oversizeChunk.isWhole oversizeRecorder.sampleSize = true ∧
      ∃ b, oversizeSession.allHanded oversizeEvents = [b] ∧
        oversizeRecorder.writer.packer.Rebuilds b.payload ∧
        (oversizeRecorder.writer.packer.choose b.payload).length ≤
          Lz4.bound b.payload.length ∧
        (oversizeSession.writer.append b).2 = some .invalidBlockSize := by
  have hv : oversizeRecorder.config.validate = none := by decide +kernel
  have hopen : oversizeSession.stage = .looping := by decide +kernel
  have hwhole : oversizeChunk.isWhole oversizeRecorder.sampleSize = true := by
    rw [Chunk.isWhole, length_oversizeChunk]
    decide +kernel
  have hrebuilds := rebuilds_literalPacker oversizeChunk.data
  exact ⟨hv, hopen, hwhole, _, allHanded_oversizeEvents, hrebuilds,
    Lz4.length_le_of_decodeBlock hrebuilds, oversizeSession_refuses rfl length_oversizeChunk⟩

end Recording

end IqTape
