import IqTape.Proofs.Capture.Conservation
import IqTape.Proofs.Tape.FullSink

/-!
# What a session leaves in its file

A session hands blocks to its tape while the loop runs, and finishes the tape when it is over.  In
a new file that takes everything the file then holds a finished tape, with the blocks that the
writer accepted of those it was handed, in order.

The count of the samples that wait in the cutter has thirty-two bits.  A device whose chunks are
large enough can make it wrap around, and then the last block has more bytes than its samples take.
But they are so many more that no tape accepts it: whatever chunks come, what is on the tape is
whole.

## Main definitions

* `Bytes.Counts` — the bytes of samples whose count may have wrapped around.
* `Block.IsMeasured` — a raw block with such a count.
* `Recording.Measured` — the state of a session, stage by stage, whatever chunks come.

## Main results

* `Recording.Measured.run` — every block has the bytes of its samples, but for turns of the count.
* `Block.IsMeasured.isWhole` — such a block is whole if a tape takes it.
* `Writer.Tape.appendAll` — blocks are accepted or refused, and the tape holds the accepted ones.
* `Recording.exists_finish` — a session that is over has finished its tape.
* `Recording.recorded` — the file of a session that is over.
-/

namespace IqTape

/-! ### Counts that wrap around -/

/-- The bytes of samples whose count, in thirty-two bits, is `n`: what `n` samples take, and what
belongs to the turns that the count has made. -/
def Bytes.Counts (size : Nat) (n : UInt32) (bs : Bytes) : Prop :=
  ∃ turns, bs.length = (n.toNat + turns * 2 ^ 32) * size

namespace Bytes.Counts

variable {size : Nat} {n m : UInt32} {bs more : Bytes}

theorem nil (size : Nat) : Counts size 0 [] := ⟨0, (Nat.zero_mul size).symm⟩

theorem of_length (h : bs.length = n.toNat * size) : Counts size n bs := ⟨0, h⟩

/-- More samples may make the count wrap around. -/
theorem append (h : Counts size n bs) (hmore : more.length = m.toNat * size) :
    Counts size (n + m) (bs ++ more) := by
  obtain ⟨turns, hturns⟩ := h
  refine ⟨turns + (n.toNat + m.toNat) / 2 ^ 32, ?_⟩
  have hsum : (n + m).toNat + (turns + (n.toNat + m.toNat) / 2 ^ 32) * 2 ^ 32 =
      n.toNat + turns * 2 ^ 32 + m.toNat := by
    rw [UInt32.toNat_add]
    omega
  rw [List.length_append, hturns, hmore, hsum, Nat.add_mul _ m.toNat]

/-- There are always the bytes of as many samples as the count says. -/
theorem length_take (h : Counts size n bs) (hle : m ≤ n) :
    (bs.take (m.toNat * size)).length = m.toNat * size := by
  obtain ⟨turns, hturns⟩ := h
  apply List.length_take_of_le
  rw [hturns]
  have hle := UInt32.le_iff_toNat_le.1 hle
  exact Nat.mul_le_mul_right size (by omega)

theorem drop (h : Counts size n bs) (hle : m ≤ n) :
    Counts size (n - m) (bs.drop (m.toNat * size)) := by
  obtain ⟨turns, hturns⟩ := h
  refine ⟨turns, ?_⟩
  have hsub : n.toNat + turns * 2 ^ 32 - m.toNat = (n - m).toNat + turns * 2 ^ 32 := by
    have hle' := UInt32.le_iff_toNat_le.1 hle
    rw [UInt32.toNat_sub_of_le _ _ hle]
    omega
  rw [List.length_drop, hturns, ← Nat.sub_mul, hsub]

/-- **A turn takes more bytes than any payload has**, so without so many the count is right. -/
theorem length_eq (h : Counts size n bs) (hshort : bs.length < 2 ^ 32) :
    bs.length = n.toNat * size := by
  obtain ⟨turns, hturns⟩ := h
  rcases Nat.eq_zero_or_pos turns with rfl | hpos
  · rw [hturns, Nat.zero_mul, Nat.add_zero]
  · rcases Nat.eq_zero_or_pos size with rfl | hsize
    · rw [hturns, Nat.mul_zero, Nat.mul_zero]
    · have hleast : 2 ^ 32 * 1 ≤ (n.toNat + turns * 2 ^ 32) * size :=
        Nat.mul_le_mul (by omega) hsize
      omega

end Bytes.Counts

/-- A raw block of at most `n` samples, with their bytes but for turns of their count. -/
structure Block.IsMeasured (format : SampleFormat) (n : UInt32) (b : Block) : Prop where
  raw : b.packed = false
  count_le : b.count ≤ n
  bytes : Bytes.Counts format.bytesPerSample b.count b.payload

/-- A raw block that has a frame on a tape has no larger payload than can be packed. -/
theorem Writer.Takes.length_le {packer : Lz4.Packer} {form : PayloadForm} {b : Block}
    (h : Takes packer form b) (hraw : b.packed = false) : b.payload.length ≤ Payload.maxRaw := by
  obtain ⟨stored, hprepare, hsize⟩ := h
  apply Nat.le_of_not_lt
  intro hlarge
  by_cases hpacks : form.packs = true
  · rw [prepare, if_pos hpacks, Block.pack, if_neg (Bool.eq_false_iff.1 hraw), Payload.pack,
      if_pos hlarge] at hprepare
    cases hprepare
  · rw [prepare, if_neg hpacks] at hprepare
    cases hprepare
    simp only [Block.frameSize, Block.maxFrame] at hsize
    simp only [Payload.maxRaw] at hlarge
    omega

/-- **A block that a tape takes is whole**, whatever the count did. -/
theorem Block.IsMeasured.isWhole {format : SampleFormat} {n : UInt32} {b : Block}
    (h : b.IsMeasured format n) {packer : Lz4.Packer} {form : PayloadForm}
    (ht : Writer.Takes packer form b) : b.IsWhole format := by
  have hshort : b.payload.length < 2 ^ 32 :=
    Nat.lt_of_le_of_lt (ht.length_le h.raw) (by decide)
  exact ⟨h.raw, (h.bytes.length_eq hshort).symm⟩

namespace Cutter

variable {format : SampleFormat} {n : UInt32} {c : Cutter}

/-- **Cutting** makes measured blocks, and leaves less than a block by the count. -/
theorem measured_cut (hn : 0 < n) (hc : Bytes.Counts format.bytesPerSample c.samples c.held) :
    let pieces := c.cut format.bytesPerSample n
    (∀ b ∈ pieces.1, b.IsMeasured format n) ∧
      Bytes.Counts format.bytesPerSample pieces.2.samples pieces.2.held ∧ pieces.2.samples < n := by
  induction c using cut_induction format.bytesPerSample hn with
  | short c h =>
    rw [cut_of_lt h]
    exact ⟨List.forall_mem_nil _, hc, h⟩
  | block c h ih =>
    obtain ⟨hmeasured, hleft⟩ := ih (hc.drop h)
    rw [cut_of_le hn h]
    refine ⟨?_, hleft⟩
    intro b hb
    rcases List.mem_cons.1 hb with rfl | hb
    · exact ⟨rfl, UInt32.le_refl n, .of_length (hc.length_take h)⟩
    · exact hmeasured b hb

/-- So is the last block. -/
theorem measured_tail (hc : Bytes.Counts format.bytesPerSample c.samples c.held)
    (hshort : c.samples < n) : ∀ b ∈ c.tail.toList, b.IsMeasured format n := by
  intro b hb
  rw [Option.mem_toList, tail] at hb
  split at hb
  · cases hb
  · cases hb
    exact ⟨rfl, UInt32.le_of_lt hshort, hc⟩

end Cutter

/-- The state of a session whose loop has been entered, whatever chunks come: the blocks are
measured, and until the tape is closed the writer is where they have brought it. -/
structure Recording.Measured (start : Recording) (blocks : List Block) (r : Recording) : Prop where
  config : r.config = start.config
  entered : r.IsSetUp
  measured : ∀ b ∈ blocks, b.IsMeasured start.config.format start.config.blockSamples
  cutter : r.stage = .looping →
    Bytes.Counts start.config.format.bytesPerSample r.cutter.samples r.cutter.held ∧
      r.cutter.samples < start.config.blockSamples
  writer : r.stage ≠ .ended → r.writer = start.writer.appendAll blocks

namespace Recording.Measured

variable {start r : Recording} {blocks : List Block}

/-- **An event keeps to it.** -/
theorem handle (hr : Measured start blocks r) (hn : 0 < start.config.blockSamples) (e : Event) :
    Measured start (blocks ++ r.handed e) (r.handle e) := by
  have hconfig := (config_handle r e).trans hr.config
  have hentered := hr.entered.handle e
  have hsize : r.sampleSize = start.config.format.bytesPerSample := by rw [sampleSize, hr.config]
  have hdeed := deed_handle r e
  generalize r.handle e = later, r.accepted e = found, r.handed e = bs at hconfig hentered hdeed ⊢
  cases hdeed with
  | passed stage cutter writer =>
    rw [List.append_nil]
    refine ⟨hconfig, hentered, hr.measured, ?_, ?_⟩
    · rw [stage, cutter]
      exact hr.cutter
    · rw [stage, writer]
      exact hr.writer
  | opened stage => exact absurd stage hr.entered.1
  | entered stage => exact absurd stage hr.entered.2
  | took c stage next whole cutter writer =>
    have hgoing : r.stage ≠ .ended := by
      rw [stage]
      rintro ⟨⟩
    rw [hsize] at whole
    obtain ⟨hmeasured, hleft⟩ :=
      Cutter.measured_cut (c := r.cutter.add c) hn ((hr.cutter stage).1.append (eq_of_beq whole))
    rw [hsize, hr.config] at cutter writer ⊢
    refine ⟨hconfig, hentered, ?_, ?_, ?_⟩
    · exact List.forall_mem_append.2 ⟨hr.measured, hmeasured⟩
    · intro _
      rw [cutter]
      exact hleft
    · intro _
      rw [writer, hr.writer hgoing, Writer.appendAll_append]
  | left stage next writer =>
    have hgoing : r.stage ≠ .ended := by
      rw [stage]
      rintro ⟨⟩
    obtain ⟨hheld, hshort⟩ := hr.cutter stage
    refine ⟨hconfig, hentered, ?_, ?_, ?_⟩
    · exact List.forall_mem_append.2 ⟨hr.measured, Cutter.measured_tail hheld hshort⟩
    · intro hlooping
      rw [next] at hlooping
      cases hlooping
    · intro _
      rw [writer, hr.writer hgoing, Writer.appendAll_append]
  | finished stage next =>
    rw [List.append_nil]
    refine ⟨hconfig, hentered, hr.measured, ?_, ?_⟩
    · intro hlooping
      rw [next] at hlooping
      cases hlooping
    · intro hgoing
      exact absurd next hgoing

/-- **So does a run.** -/
theorem run (hr : Measured start blocks r) (hn : 0 < start.config.blockSamples)
    (es : List Event) : Measured start (blocks ++ r.allHanded es) (r.run es) := by
  induction es generalizing r blocks with
  | nil =>
    rw [allHanded, gather, List.append_nil]
    exact hr
  | cons e es ih =>
    rw [allHanded, gather, ← List.append_assoc]
    exact ih (hr.handle hn e)

end Recording.Measured

namespace Writer

/-- A block that is accepted has a frame. -/
theorem takes_of_accepted {w : Writer} {b : Block} (hopen : w.isOpen = true)
    (h : (w.append b).2 = none) : Takes w.packer w.header.form b := by
  rcases append_eq w hopen b with ⟨f, -, happend⟩ | ⟨stored, hprepare, hsize, -⟩
  · rw [happend] at h
    cases h
  · exact ⟨stored, hprepare, hsize⟩

/-- A block that is refused by a tape in a file that takes everything leaves the writer alone. -/
theorem Tape.append_of_refused {w : Writer} {bs : List Block} {b : Block} {f : Fault}
    (ht : w.Tape bs) (h : (w.append b).2 = some f) : (w.append b).1 = w := by
  rcases append_eq w ht.isOpen b with ⟨_, -, happend⟩ | ⟨stored, hprepare, hsize, -⟩
  · rw [happend]
  · -- A block with a frame would have been accepted.
    rw [(ht.append ⟨stored, hprepare, hsize⟩).1] at h
    cases h

/-- **The tape holds the blocks that were accepted**, whichever were refused. -/
theorem Tape.appendAll {w : Writer} {bs : List Block} (ht : w.Tape bs) (cs : List Block) :
    (w.appendAll cs).Tape (bs ++ w.accepted (cs.map .append)) ∧
      Continues w (w.appendAll cs) ∧
      ∀ b ∈ w.accepted (cs.map .append), b ∈ cs ∧ Takes w.packer w.header.form b := by
  induction cs generalizing w bs with
  | nil =>
    rw [List.map_nil, accepted, List.append_nil]
    exact ⟨ht, .refl w, List.forall_mem_nil _⟩
  | cons c cs ih =>
    rw [List.map_cons, accepted, Writer.call]
    cases hresult : (w.append c).2 with
    | some f =>
      have hnext : w.appendAll (c :: cs) = w.appendAll cs := by
        rw [Writer.appendAll, List.foldl_cons, ht.append_of_refused hresult]
        rfl
      obtain ⟨hlast, hsame, htakes⟩ := ih ht
      rw [(taken_of_error hresult).1, ht.append_of_refused hresult, List.nil_append, hnext]
      refine ⟨hlast, hsame, ?_⟩
      intro b hb
      obtain ⟨hmem, htake⟩ := htakes b hb
      exact ⟨List.mem_cons_of_mem c hmem, htake⟩
    | none =>
      have htake := takes_of_accepted ht.isOpen hresult
      obtain ⟨-, hnext, hfirst⟩ := ht.append htake
      obtain ⟨hlast, hrest, htakes⟩ := ih hnext
      rw [(taken_of_ok hresult).1, ← List.append_assoc]
      refine ⟨hlast, hfirst.trans hrest, ?_⟩
      intro b hb
      rcases List.mem_append.1 hb with hb | hb
      · rw [List.mem_singleton.1 hb]
        exact ⟨List.mem_cons_self, htake⟩
      · obtain ⟨hmem, hlater⟩ := htakes b hb
        rw [hfirst.packer, hfirst.header.form_eq] at hlater
        exact ⟨List.mem_cons_of_mem c hmem, hlater⟩

/-- Closing a finished tape leaves its file alone. -/
theorem content_close {w : Writer} (hheld : w.sink.held = []) :
    w.close.sink.content = w.sink.content := by
  unfold close
  split
  · simp [Sink.flush, hheld]
  · rfl

end Writer

namespace Recording

variable {r : Recording} {es : List Event}

/-! ### The end of a session -/

/-- A session that is over does nothing more. -/
theorem run_of_isOver (hover : r.isOver = true) (es : List Event) :
    (r.run es).writer = r.writer ∧ r.allHanded es = [] := by
  induction es generalizing r with
  | nil => exact ⟨rfl, rfl⟩
  | cons e es ih =>
    have hended := (isOver_iff r).1 hover
    have hkeeps : (r.handle e).stage = .ended ∧ (r.handle e).writer = r.writer ∧
        r.handed e = [] := by
      have hdeed := deed_handle r e
      generalize r.handle e = later, r.accepted e = found, r.handed e = bs at hdeed ⊢
      cases hdeed with
      | passed stage cutter writer => exact ⟨stage.trans hended, writer, rfl⟩
      | opened stage => rw [hended] at stage; cases stage
      | entered stage => rw [hended] at stage; cases stage
      | took c stage => rw [hended] at stage; cases stage
      | left stage => rw [hended] at stage; cases stage
      | finished stage => rw [hended] at stage; cases stage
    obtain ⟨hstage, hwriter, hhanded⟩ := hkeeps
    obtain ⟨hlast, hnone⟩ := ih ((isOver_iff _).2 hstage)
    refine ⟨hlast.trans hwriter, ?_⟩
    rw [allHanded, gather, hhanded]
    exact hnone

/-- **A session ends by finishing its tape.** -/
theorem finish_of_isOver (hr : r.IsSetUp) (hgoing : r.isOver = false) {e : Event}
    (hover : (r.handle e).isOver = true) :
    (∃ second, (r.handle e).writer = (r.writer.finish second).1.close) ∧ r.handed e = [] := by
  have hended := (isOver_iff _).1 hover
  have hnot : r.stage ≠ .ended := by
    intro h
    rw [(isOver_iff r).2 h] at hgoing
    cases hgoing
  have hjoining : r.stage = .joining ∧ r.handed e = [] := by
    have hdeed := deed_handle r e
    generalize r.handle e = later, r.accepted e = found, r.handed e = bs at hdeed hended ⊢
    cases hdeed with
    | passed stage => exact absurd (stage.symm.trans hended) hnot
    | opened stage => exact absurd stage hr.1
    | entered stage => exact absurd stage hr.2
    | took c stage next => rw [next] at hended; cases hended
    | left stage next => rw [next] at hended; cases hended
    | finished stage => exact ⟨stage, rfl⟩
  refine ⟨?_, hjoining.2⟩
  -- Only a step changes the phase, and only the step that finishes the tape ends the session.
  cases e with
  | offer c => exact absurd hended hnot
  | requestStop => exact absurd hended hnot
  | deviceDone ok => cases ok <;> exact absurd hended hnot
  | step now =>
    have hphase : r.phase = .joining := by
      have hstage := hjoining.1
      unfold stage at hstage
      split at hstage
      all_goals first
        | assumption
        | cases hstage
    by_cases hclosed : r.queue.closed = true
    · obtain ⟨ok, hfinish⟩ := finish_eq now.second r
      refine ⟨now.second, ?_⟩
      simp only [handle, step, hphase, if_pos hclosed]
      rw [hfinish]
    · have hsame : r.handle (.step now) = r := by
        simp only [handle, step, hphase, if_neg hclosed]
      rw [hsame] at hended
      exact absurd hended hnot

/-- **A session that is over has finished its tape**, when every block had been handed on. -/
theorem exists_finish (hr : r.IsSetUp) (hgoing : r.isOver = false)
    (hover : (r.run es).isOver = true) :
    ∃ before second, (r.run before).isOver = false ∧ r.allHanded before = r.allHanded es ∧
      (r.run es).writer = ((r.run before).writer.finish second).1.close := by
  induction es generalizing r with
  | nil =>
    rw [run, hgoing] at hover
    cases hover
  | cons e es ih =>
    cases hlater : (r.handle e).isOver with
    | true =>
      obtain ⟨⟨second, hwriter⟩, hhanded⟩ := finish_of_isOver hr hgoing hlater
      obtain ⟨hlast, hnone⟩ := run_of_isOver hlater es
      refine ⟨[], second, hgoing, ?_, hlast.trans hwriter⟩
      rw [allHanded, allHanded, gather, gather, hhanded]
      exact hnone.symm
    | false =>
      obtain ⟨before, second, hopen, hhanded, hlast⟩ := ih (hr.handle e) hlater hover
      refine ⟨e :: before, second, hopen, ?_, hlast⟩
      rw [allHanded, allHanded] at hhanded
      rw [allHanded, allHanded, gather, gather, hhanded]

/-! ### The file -/

section

variable {device : DeviceInfo} {opened started : Moment} {room : Nat}

/-- In a new file that takes everything, a session begins with nothing in its cutter and its queue,
and with a tape without blocks. -/
theorem tape_of_setUp (r : Recording) (device : DeviceInfo) (room : Nat)
    (opened started : Moment) :
    let start := r.setUp device (some (.ofRoom room)) opened started
    start.stage = .looping ∧ start.cutter = .empty ∧ start.queue = .empty r.config.capacity.toNat ∧
      start.writer.Tape [] ∧ start.writer.packer = r.writer.packer ∧
      (r.header opened.second).SameSession start.writer.header := by
  intro start
  let fresh : Writer := { ({ Writer.idle with packer := r.writer.packer } : Writer).close with
    name := r.config.output }
  obtain ⟨hopen, htape, hpacker, hsession⟩ :=
    Writer.tape_attach fresh room (r.header opened.second)
  have hcreate : ({ Writer.idle with packer := r.writer.packer } : Writer).create r.config.output
      (some (.ofRoom room)) (r.header opened.second) =
        ((fresh.attach (.ofRoom room) (r.header opened.second)).1, none) :=
    Prod.ext rfl hopen
  have hopened : ((r.begin device (some (.ofRoom room))).openTape opened.second
      (some (.ofRoom room))).1 =
        { r.begin device (some (.ofRoom room)) with
          writer := (fresh.attach (.ofRoom room) (r.header opened.second)).1
          phase := .starting } := by
    unfold openTape
    simp only
    have hsame : (r.begin device (some (.ofRoom room))).header opened.second =
        r.header opened.second := rfl
    have hwriter : (r.begin device (some (.ofRoom room))).writer = r.writer := rfl
    have hconfig : (r.begin device (some (.ofRoom room))).config = r.config := rfl
    rw [hsame, hwriter, hconfig, hcreate]
  have hstart : start = ((({ r.begin device (some (.ofRoom room)) with
      writer := (fresh.attach (.ofRoom room) (r.header opened.second)).1
      phase := .starting } : Recording).start started.steady).1) := by
    have hfirst : (r.begin device (some (.ofRoom room))).handle (.step opened) =
        ((r.begin device (some (.ofRoom room))).openTape opened.second
          (some (.ofRoom room))).1 := rfl
    simp only [start, setUp]
    rw [run, run, run, hfirst, hopened]
    rfl
  rw [hstart]
  exact ⟨rfl, rfl, rfl, htape, hpacker, hsession⟩

/-- The first block that has a frame is accepted. -/
theorem accepts_first (r : Recording) (device : DeviceInfo) (room : Nat)
    (opened started : Moment) {b : Block}
    (hb : Writer.Takes r.writer.packer r.config.form b) :
    ((r.setUp device (some (.ofRoom room)) opened started).writer.append b).2 = none := by
  obtain ⟨-, -, -, htape, hpacker, hsession⟩ := tape_of_setUp r device room opened started
  refine (htape.append ?_).1
  rw [hpacker, hsession.form_eq]
  exact hb

/-- **The file of a session that is over**, if it took everything: a finished tape, with the
blocks that were accepted of those that the loop handed on, and they are whole. -/
theorem recorded (hv : r.config.validate = none)
    (hover : ((r.setUp device (some (.ofRoom room)) opened started).run es).isOver = true) :
    let start := r.setUp device (some (.ofRoom room)) opened started
    let kept := start.writer.accepted ((start.allHanded es).map .append)
    (∃ w : Writer, w.Tape kept ∧ w.sink.held = [] ∧ w.packer = r.writer.packer ∧
        (r.header opened.second).SameSession w.header ∧
        (start.run es).writer.sink.content = w.sink.content) ∧
      ∀ b ∈ kept, b ∈ start.allHanded es ∧ b.IsWhole r.config.format ∧
        b.count ≤ r.config.blockSamples ∧ Writer.Takes r.writer.packer r.config.form b := by
  intro start kept
  obtain ⟨hstage, hcutter, -, htape, hpacker, hsession⟩ :=
    tape_of_setUp r device room opened started
  have hconfig : start.config = r.config := config_setUp
  have hn : 0 < start.config.blockSamples := by
    rw [hconfig]
    exact RecorderConfig.blockSamples_pos hv
  have hsetUp : start.IsSetUp := by
    unfold IsSetUp
    rw [hstage]
    exact ⟨nofun, nofun⟩
  have hgoing : start.isOver = false := by
    cases h : start.isOver with
    | false => rfl
    | true =>
      have hended := (isOver_iff start).1 h
      rw [hstage] at hended
      cases hended
  have hstart : Measured start [] start := by
    refine ⟨rfl, hsetUp, List.forall_mem_nil _, ?_, fun _ => rfl⟩
    intro _
    rw [hcutter]
    exact ⟨.nil _, hn⟩
  -- Every block of the session had been handed on before the tape was finished.
  obtain ⟨before, second, hopen, hhanded, hlast⟩ := exists_finish hsetUp hgoing hover
  have hrun := hstart.run hn before
  rw [List.nil_append, hhanded] at hrun
  have hwriter : (start.run before).writer = start.writer.appendAll (start.allHanded es) := by
    apply hrun.writer
    intro hended
    rw [(isOver_iff _).2 hended] at hopen
    cases hopen
  obtain ⟨hkept, hsame, htakes⟩ := htape.appendAll (start.allHanded es)
  rw [List.nil_append, ← hwriter] at hkept
  rw [← hwriter] at hsame
  obtain ⟨-, hfinished, hmore, -, hheld⟩ := hkept.finish second
  refine ⟨⟨_, hfinished, hheld, ?_, ?_, ?_⟩, ?_⟩
  · rw [hmore.packer, hsame.packer, hpacker]
  · exact (hsession.trans hsame.header).trans hmore.header
  · rw [hlast, Writer.content_close hheld]
  · intro b hb
    obtain ⟨hmem, htake⟩ := htakes b hb
    have hmeasured := hrun.measured b hmem
    rw [hconfig] at hmeasured
    have hwhole := hmeasured.isWhole htake
    rw [hpacker, hsession.form_eq] at htake
    exact ⟨hmem, hwhole, hmeasured.count_le, htake⟩

end

end Recording

end IqTape
