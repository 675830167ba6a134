import IqTape.Proofs.Capture.Oversize
import IqTape.Proofs.Capture.Recorded
import IqTape.Proofs.Capture.StopRequest
import IqTape.Proofs.Replay.Sending
import IqTape.Proofs.Tape.Accounting
import IqTape.Proofs.Tape.HeaderCodec
import IqTape.Proofs.Tape.RoundTrip

/-!
# Which recordings can be sent

Three limits bound a block.  A frame has at most a megabyte, a datagram has less than sixty-four
kilobytes, and the count in a datagram has sixteen bits.  The check of a configuration knows only
the first.  Since a sample has at least two bytes, the third never matters where the second is
kept; so a block that has been recorded can be sent exactly if its payload is small enough for a
datagram.  In a configuration whose full blocks are, every block can be sent, and in one whose full
blocks are not, the replay counts them as send errors and goes on.

## Main results

* `Datagram.encode_isOk_iff_of_isWhole` — the count fits if the payload does.
* `Recording.readAll_recorded` — the file of a session is read back.
* `ReplaySession.attempts_of_readAll` — what a replay tries.
* `Recording.sendable_iff_small` — **which recorded blocks can be sent.**
* `Recording.full_block_without_datagram` — not those of the configuration that is used when
  nothing is said.
-/

namespace IqTape

/-! ### The limits of a datagram -/

/-- A sample of a listed format has at least two bytes. -/
theorem SampleFormat.two_le_bytesPerSample {format : SampleFormat}
    (h : format.isListed = true) : 2 ≤ format.bytesPerSample := by
  simp only [isListed, Bool.or_eq_true, decide_eq_true_eq] at h
  rcases h with (rfl | rfl) | rfl <;> decide

namespace Datagram

variable {format : SampleFormat} {b : Block}

/-- **A whole block has a datagram exactly if its payload is small enough**: then its count is, as
well. -/
theorem encode_isOk_iff_of_isWhole (hlisted : format.isListed = true) (hw : b.IsWhole format) :
    (∃ datagram, encode b = .ok datagram) ↔ b.payload.length ≤ maxPayload := by
  rw [encode_isOk_iff]
  constructor
  · rintro ⟨-, hpayload, -⟩
    exact hpayload
  · intro hpayload
    refine ⟨hw.raw, hpayload, ?_⟩
    have htwo := Nat.mul_le_mul_left b.count.toNat (SampleFormat.two_le_bytesPerSample hlisted)
    rw [hw.size] at htwo
    simp only [maxPayload, maxSize, headerSize] at hpayload
    omega

/-- A raw block with a larger payload is refused, and it is said why. -/
theorem encode_of_large (hraw : b.packed = false) (h : maxPayload < b.payload.length) :
    encode b = .error .invalidBlockSize := by
  rw [encode, hraw, if_neg Bool.false_ne_true, if_pos (.inl h)]

end Datagram

/-! ### Reading a recording back -/

/-- The header of a session is listed if its format and its form are. -/
theorem Recording.isListed_header {r : Recording} (hformat : r.config.format.isListed = true)
    (hform : r.config.form.isListed = true) (second : UInt64) : (r.header second).IsListed := by
  have hradio : r.config.device.radio.isListed = true := by
    unfold DeviceKind.radio
    split
    · rfl
    · split <;> rfl
  exact ⟨rfl, hradio, hformat, hform⟩

/-- A tape can be read only if the format and the form in its header are listed. -/
theorem isListed_of_readAll {h : Header} {body : Bytes} {contents : Contents}
    (hread : readAll (some (.ofBytes (h.encode ++ body))) = .ok contents) :
    h.format.isListed = true ∧ h.form.isListed = true := by
  have hopen : ((Reader.idle .standard).openSource (.ofBytes (h.encode ++ body))).2 = none := by
    unfold readAll at hread
    split at hread
    · cases hread
    · next r hopened => exact congrArg Prod.snd hopened
  obtain ⟨mark, found, rest, breaks, hmark, hdecode, hsource⟩ :=
    Reader.of_openSource_eq_none hopen
  have hbytes : h.encode ++ body = mark ++ rest := congrArg Source.rest hsource
  have hfirst : h.encode = mark := by
    refine (List.append_inj hbytes ?_).1
    rw [Header.length_encode, hmark]
  rw [← hfirst, Header.encode_eq] at hdecode
  have hsize : Header.size ≤ Header.covered + 4 + (List.replicate 52 (0 : UInt8)).length := by
    rw [List.length_replicate]
    decide
  apply Decidable.byContradiction
  intro hunlisted
  have hrefused : ¬(h.version = Header.knownVersion ∧ h.format.isListed = true ∧
      h.form.isListed = true) := fun hall => hunlisted hall.2
  obtain ⟨f, hf⟩ := (Header.refused_iff hsize).2 hrefused
  rw [hdecode] at hf
  cases hf

/-! ### What a replay tries -/

/-- A block is left unframed exactly if it has no datagram. -/
theorem Attempt.IsHonest.unframed_iff {a : Attempt} (h : a.IsHonest) :
    a.fate = .unframed ↔ ¬∃ datagram, Datagram.encode a.block = .ok datagram := by
  obtain ⟨b, fate⟩ := a
  cases fate with
  | unframed => exact ⟨fun _ => h, fun _ => rfl⟩
  | refused datagram =>
    constructor
    · nofun
    · intro hno
      exact absurd ⟨datagram, h⟩ hno
  | sent datagram =>
    constructor
    · nofun
    · intro hno
      exact absurd ⟨datagram, h.1⟩ hno

/-- **A replay tries the blocks of its tape** and nothing else. -/
theorem ReplaySession.attempts_of_readAll {config : ReplayConfig} {created now : Int}
    {tape : Source} {net : SocketAnswers} {contents : Contents}
    (hread : readAll (some tape) = .ok contents)
    (hsetUp : ((idle config created).setUp now (some tape) net).2.2 = none) (start : Int)
    (es : List Event) :
    ∀ a ∈ (((idle config created).setUp now (some tape) net).1.begin start).1.attempts tape es,
      a.block ∈ contents.blocks ∧ a.IsHonest := by
  obtain ⟨hready, hfresh, -⟩ := of_setUp hsetUp
  have htallies : ((idle config created).setUp now (some tape) net).1.counters.Tallies [] := by
    rw [hfresh]
    exact ⟨rfl, rfl, rfl, rfl⟩
  have hplaying :=
    (playing_begin hready htallies start contents.blocks).run (plays_of_readAll hread) es
  rw [List.nil_append] at hplaying
  obtain ⟨rest, -, hplace⟩ := hplaying.stands.place
  intro a ha
  refine ⟨?_, hplaying.honest a ha⟩
  -- What has been tried is the beginning of the tape, once for each pass.
  have hmem : a.block ∈ List.map Attempt.block _ ++ rest :=
    List.mem_append_left rest (List.mem_map_of_mem ha)
  rw [hplace] at hmem
  obtain ⟨pass, hpass, hblock⟩ := List.mem_flatten.1 hmem
  rwa [List.eq_of_mem_replicate hpass] at hblock

namespace Recording

section

variable {r : Recording} {device : DeviceInfo} {opened started : Moment} {room : Nat}
  {es : List Event}

/-- **The file of a session is read back**: the blocks that were accepted, each with its bytes and
none with more samples than a full one.  It cannot be read just if the format or the form is not
listed. -/
theorem readAll_recorded (hv : r.config.validate = none)
    (hrebuilds : r.config.form.packs = true →
      ∀ b ∈ (r.setUp device (some (.ofRoom room)) opened started).allHanded es,
        b.payload.length ≤ Payload.maxRaw → r.writer.packer.Rebuilds b.payload)
    (hover : ((r.setUp device (some (.ofRoom room)) opened started).run es).isOver = true) :
    let start := r.setUp device (some (.ofRoom room)) opened started
    let tape : Source := .ofBytes (start.run es).writer.sink.content
    (r.config.format.isListed = true ∧ r.config.form.isListed = true →
        ∃ contents, readAll (some tape) = .ok contents) ∧
      ∀ contents, readAll (some tape) = .ok contents →
        r.config.format.isListed = true ∧
          contents.blocks = start.writer.accepted ((start.allHanded es).map .append) ∧
          ∀ b ∈ contents.blocks, b.IsWhole r.config.format ∧ b.count ≤ r.config.blockSamples := by
  intro start tape
  obtain ⟨⟨w, htape, hheld, hpacker, hsession, hcontent⟩, hkept⟩ := recorded hv hover
  have hformat : w.header.format = r.config.format := by
    rw [← hsession]
    rfl
  have hform : w.header.form = r.config.form := hsession.form_eq
  -- A header that is listed can be read, and then the whole tape can.
  have hread : r.config.format.isListed = true ∧ r.config.form.isListed = true →
      ∃ contents, readAll (some tape) = .ok contents ∧
        contents.blocks = start.writer.accepted ((start.allHanded es).map .append) := by
    rintro ⟨hlisted, hknown⟩
    have hl : w.header.IsListed := by
      rw [← hsession]
      exact (isListed_header hlisted hknown opened.second).ended _ _
    obtain ⟨hopen, -, hblocks, -⟩ := htape.read_finished hheld hl
      (by rw [hformat]; exact fun b hb => (hkept b hb).2.1)
      (by rw [hform, hpacker]; exact fun b hb => (hkept b hb).2.2.2)
      (by
        rw [hform, hpacker]
        intro hpacks b hb
        obtain ⟨hmem, hwhole, -, htake⟩ := hkept b hb
        exact hrebuilds hpacks b hmem (htake.length_le hwhole.raw))
      (Reader.idle .standard)
    rw [← hcontent] at hopen hblocks
    obtain ⟨contents, hall, hleft⟩ := ReplaySession.readAll_of_opens hopen
    exact ⟨contents, hall, hleft.trans hblocks⟩
  refine ⟨?_, ?_⟩
  · intro hlisted
    obtain ⟨contents, hall, -⟩ := hread hlisted
    exact ⟨contents, hall⟩
  · intro contents hall
    have hbytes : tape = .ofBytes (w.header.encode ++
        Writer.framesOf w.packer w.header.form
          (start.writer.accepted ((start.allHanded es).map .append))) := by
      rw [← htape.sink.content_eq hheld, ← hcontent]
    have hlisted : r.config.format.isListed = true ∧ r.config.form.isListed = true := by
      rw [hbytes] at hall
      have hlisted := isListed_of_readAll hall
      rwa [hformat, hform] at hlisted
    obtain ⟨found, hfound, hblocks⟩ := hread hlisted
    rw [hall] at hfound
    cases hfound
    refine ⟨hlisted.1, hblocks, ?_⟩
    intro b hb
    rw [hblocks] at hb
    exact ⟨(hkept b hb).2.1, (hkept b hb).2.2.1⟩

/-- **Which recorded blocks can be sent.**  A session with a checked configuration records into a
new file, in any order of what its device, its writer and requests to stop do, until it is over.
If the format and the form of the configuration are listed then the file can be read.  A block that
is read back can be sent exactly if its payload is small enough for a datagram; and a replay of the
file, whatever its settings, leaves exactly the others unframed.  So if the full blocks of the
configuration are small enough then every block can be sent, and no replay of the file counts a
block that could not be framed. -/
theorem sendable_iff_small (hv : r.config.validate = none)
    (hrebuilds : r.config.form.packs = true →
      ∀ b ∈ (r.setUp device (some (.ofRoom room)) opened started).allHanded es,
        b.payload.length ≤ Payload.maxRaw → r.writer.packer.Rebuilds b.payload)
    (hover : ((r.setUp device (some (.ofRoom room)) opened started).run es).isOver = true) :
    let start := r.setUp device (some (.ofRoom room)) opened started
    let tape : Source := .ofBytes (start.run es).writer.sink.content
    let full := r.config.blockSamples.toNat * r.config.format.bytesPerSample
    (r.config.format.isListed = true ∧ r.config.form.isListed = true →
        ∃ contents, readAll (some tape) = .ok contents) ∧
      ∀ contents, readAll (some tape) = .ok contents →
        contents.blocks = start.writer.accepted ((start.allHanded es).map .append) ∧
          (∀ b ∈ contents.blocks,
            ((∃ datagram, Datagram.encode b = .ok datagram) ↔
                b.payload.length ≤ Datagram.maxPayload) ∧
              (Datagram.maxPayload < b.payload.length →
                Datagram.encode b = .error .invalidBlockSize) ∧
              (full ≤ Datagram.maxPayload → ∃ datagram, Datagram.encode b = .ok datagram)) ∧
          ∀ (config : ReplayConfig) (created now begins : Int) (net : SocketAnswers)
              (events : List ReplaySession.Event),
            let ready := (ReplaySession.idle config created).setUp now (some tape) net
            ready.2.2 = none →
              ∀ a ∈ (ready.1.begin begins).1.attempts tape events,
                a.block ∈ contents.blocks ∧
                  (a.fate = .unframed ↔ Datagram.maxPayload < a.block.payload.length) ∧
                  (full ≤ Datagram.maxPayload → a.fate ≠ .unframed) := by
  intro start tape full
  obtain ⟨hreadable, hread⟩ := readAll_recorded hv hrebuilds hover
  refine ⟨hreadable, ?_⟩
  intro contents hall
  obtain ⟨hlisted, hblocks, hwhole⟩ := hread contents hall
  -- The three limits meet here: no block is larger than a full one.
  have hsmall : full ≤ Datagram.maxPayload →
      ∀ b ∈ contents.blocks, b.payload.length ≤ Datagram.maxPayload := by
    intro hfull b hb
    exact Nat.le_trans ((hwhole b hb).1.fits hv (hwhole b hb).2).1 hfull
  have hiff : ∀ b ∈ contents.blocks, (∃ datagram, Datagram.encode b = .ok datagram) ↔
      b.payload.length ≤ Datagram.maxPayload := by
    intro b hb
    exact Datagram.encode_isOk_iff_of_isWhole hlisted (hwhole b hb).1
  refine ⟨hblocks, ?_, ?_⟩
  · intro b hb
    refine ⟨hiff b hb, ?_, ?_⟩
    · intro hlarge
      exact Datagram.encode_of_large (hwhole b hb).1.raw hlarge
    · intro hfull
      exact (hiff b hb).2 (hsmall hfull b hb)
  · intro config created now begins net events ready hsetUp a ha
    obtain ⟨hmem, hhonest⟩ := ReplaySession.attempts_of_readAll hall hsetUp begins events a ha
    have hunframed : a.fate = .unframed ↔ Datagram.maxPayload < a.block.payload.length := by
      rw [hhonest.unframed_iff, hiff a.block hmem, Nat.not_le]
    refine ⟨hmem, hunframed, ?_⟩
    intro hfull hno
    exact Nat.not_le_of_lt (hunframed.1 hno) (hsmall hfull a.block hmem)

end

/-- A recorder whose blocks have two samples and are packed. -/
def shortRecorder : Recording :=
  idle { RecorderConfig.initial with blockSamples := 2, capacity := 1, form := .lz4 } 0

/-- Its session, in a file that holds some bytes back. -/
def shortSession : Recording :=
  shortRecorder.setUp default (some (.ofRoom 8)) ⟨0, 0⟩ ⟨1, 0⟩

/-- A chunk that makes a full block, and the end of the device. -/
def shortEvents : List Event :=
  [.step ⟨2, 0⟩, .offer ⟨7, 2, [1, 2, 3, 4, 5, 6, 7, 8]⟩, .step ⟨3, 0⟩, .deviceDone true,
    .step ⟨4, 0⟩, .step ⟨5, 0⟩, .step ⟨6, 0⟩, .step ⟨7, 0⟩]

/-- The block is packed, read back and sent. -/
theorem sendable_iff_small_of_shortEvents :
    let b : Block := ⟨7, 2, [1, 2, 3, 4, 5, 6, 7, 8], false⟩
    (shortSession.run shortEvents).isOver = true ∧
      ∃ contents, readAll (some (.ofBytes (shortSession.run shortEvents).writer.sink.content)) =
          .ok contents ∧
        contents.blocks = [b] ∧ ∃ datagram, Datagram.encode b = .ok datagram := by
  intro b
  have hv : shortRecorder.config.validate = none := by decide +kernel
  have hhanded : shortSession.allHanded shortEvents = [b] := by decide +kernel
  have hrebuilds : ∀ c ∈ shortSession.allHanded shortEvents, c.payload.length ≤ Payload.maxRaw →
      shortRecorder.writer.packer.Rebuilds c.payload := by
    rw [hhanded]
    intro c hc _
    rw [List.mem_singleton.1 hc]
    decide +kernel
  have hover : (shortSession.run shortEvents).isOver = true := by decide +kernel
  have hkept : shortSession.writer.accepted ((shortSession.allHanded shortEvents).map .append) =
      [b] := by decide +kernel
  unfold shortSession at *
  obtain ⟨hreadable, hsends⟩ := sendable_iff_small hv (fun _ => hrebuilds) hover
  obtain ⟨contents, hread⟩ := hreadable ⟨rfl, rfl⟩
  obtain ⟨hblocks, hfits, -⟩ := hsends contents hread
  have hone : contents.blocks = [b] := by
    rw [hblocks]
    exact hkept
  have hmem : b ∈ contents.blocks := by
    rw [hone]
    exact List.mem_singleton_self b
  exact ⟨hover, contents, hread, hone, (hfits b hmem).1.2 (by decide)⟩

/-! ### A block that cannot be sent -/

/-- A session with the configuration that is used when nothing is said. -/
def plainSession : Recording :=
  (idle RecorderConfig.initial 0).setUp default (some (.ofRoom Sink.fileRoom)) ⟨0, 0⟩ ⟨1, 0⟩

/-- A chunk that makes a full block. -/
def fullChunk : Chunk := ⟨7, 50000, List.replicate 200000 0⟩

/-- The block that it makes. -/
def fullBlock : Block := ⟨7, 50000, fullChunk.data, false⟩

theorem length_fullChunk : fullChunk.data.length = 200000 := List.length_replicate

/-- The chunk comes while the writer looks for it. -/
def fullEvents : List Event := [.step ⟨2, 0⟩, .offer fullChunk, .step ⟨3, 0⟩]

/-- When the writer makes its last steps. -/
def lastMoments : List Moment := [⟨4, 0⟩, ⟨5, 0⟩, ⟨6, 0⟩, ⟨7, 0⟩]

/-- Before that the session is asked to stop, and the device ends. -/
def lastEvents : List Event := .requestStop :: .deviceDone true :: lastMoments.map .step

theorem isSetUp_plainSession : plainSession.IsSetUp := by
  unfold IsSetUp
  decide +kernel

/-- The block of the chunk is handed on. -/
theorem allHanded_fullEvents : plainSession.allHanded fullEvents = [fullBlock] := by
  obtain ⟨waiting, hwaiting⟩ : ∃ s, plainSession.handle (.step ⟨2, 0⟩) = s := ⟨_, rfl⟩
  have hidle : plainSession.handed (.step ⟨2, 0⟩) = [] := by decide +kernel
  have hphase : waiting.phase = .waiting 100000002 := by rw [← hwaiting]; decide +kernel
  have hcutter : waiting.cutter = .empty := by rw [← hwaiting]; decide +kernel
  have hsize : waiting.sampleSize = 4 := by rw [← hwaiting]; decide +kernel
  have hfull : fullChunk.count = waiting.config.blockSamples := by
    rw [← hwaiting]
    decide +kernel
  -- Looking at an empty queue leaves it as it is.
  have hqueue : waiting.queue = .empty 256 := by
    have hfirst : plainSession.queue = .empty 256 :=
      (tape_of_setUp (idle RecorderConfig.initial 0) default Sink.fileRoom ⟨0, 0⟩ ⟨1, 0⟩).2.2.1
    have hpoll : (Queue.empty 256).poll.2 = .empty 256 := by
      rw [Queue.poll_of_toList_eq_nil (Queue.isRing_empty 256) (Queue.toList_empty 256)]
    rw [← hwaiting, handle]
    rcases queue_step isSetUp_plainSession ⟨2, 0⟩ with h | h
    · rw [h, hfirst]
    · rw [h, hfirst, hpoll]
  have hwhole : fullChunk.isWhole waiting.sampleSize = true := by
    rw [hsize, Chunk.isWhole, length_fullChunk]
    decide
  have hblock := allHanded_of_full hqueue hphase hcutter hwhole hfull (by decide) ⟨3, 0⟩
  rw [allHanded, fullEvents, gather, hidle, hwaiting, List.nil_append]
  exact hblock

/-- Then the session comes to its end. -/
theorem over_of_lastEvents : (plainSession.run (fullEvents ++ lastEvents)).isOver = true := by
  rw [run_append, lastEvents]
  exact over_of_requestStop (isSetUp_plainSession.run fullEvents) lastMoments (by decide)

/-- **The full blocks of the configuration that is used when nothing is said cannot be sent.**
Such a block is recorded and read back, and there is no datagram for it. -/
theorem full_block_without_datagram :
    RecorderConfig.initial.validate = none ∧
      (plainSession.run (fullEvents ++ lastEvents)).isOver = true ∧
      ∃ contents,
        readAll (some (.ofBytes
          (plainSession.run (fullEvents ++ lastEvents)).writer.sink.content)) = .ok contents ∧
        fullBlock ∈ contents.blocks ∧ Datagram.encode fullBlock = .error .invalidBlockSize := by
  have hover := over_of_lastEvents
  have hblocks := allHanded_fullEvents
  have hv : RecorderConfig.initial.validate = none := by decide +kernel
  have hraw : ¬RecorderConfig.initial.form.packs = true := by decide
  have hlength : fullBlock.payload.length = 200000 := length_fullChunk
  -- A full block has a frame, so the tape accepts it.
  have hframe : fullBlock.frameSize ≤ Block.maxFrame := by
    rw [Block.frameSize, hlength]
    decide
  have hok : (plainSession.writer.append fullBlock).2 = none := by
    unfold plainSession
    exact accepts_first _ _ _ _ _ ⟨fullBlock, if_neg hraw, hframe⟩
  have hmem : fullBlock ∈ plainSession.writer.accepted
      ((plainSession.allHanded (fullEvents ++ lastEvents)).map .append) := by
    have hfirst : plainSession.allHanded (fullEvents ++ lastEvents) =
        fullBlock :: (plainSession.run fullEvents).allHanded lastEvents := by
      rw [allHanded] at hblocks
      rw [allHanded, gather_append, hblocks, List.singleton_append]
      rfl
    rw [hfirst, List.map_cons, Writer.accepted, (Writer.taken_of_ok hok).1]
    exact List.mem_append_left _ (List.mem_singleton_self fullBlock)
  unfold plainSession at *
  obtain ⟨hreadable, hread⟩ :=
    readAll_recorded hv (fun hpacks => absurd hpacks hraw) hover
  obtain ⟨contents, hall⟩ := hreadable ⟨rfl, rfl⟩
  obtain ⟨-, hkept, -⟩ := hread contents hall
  refine ⟨hv, hover, contents, hall, ?_, ?_⟩
  · rw [hkept]
    exact hmem
  · apply Datagram.encode_of_large rfl
    rw [hlength]
    decide

end Recording

end IqTape
