import IqTape.Proofs.Capture.Queue
import IqTape.Proofs.Capture.Reblocking
import IqTape.Proofs.Tape.Writer

/-!
# The samples of a session are conserved

A sample that a device offers is dropped, waits in the queue, is discarded with a chunk of
the wrong size, or is counted as recorded.  A recorded sample is still in the cutter, or is
in a block that has been handed to the tape, which is written or refused.  Every count is a
word of 64 bits, and no schedule, capacity, write error or ending makes the sums differ.

## Main definitions

* `Chunk.total` — how many samples some chunks have.
* `Recording.allOffered`, `Recording.allDiscarded`, `Recording.allRefused` — what a run shows.
* `Writer.Tallied` — the counters agree with the writer.
* `Recording.Books` — the sums of a session.
* `Recording.setUp` — a session that has just been set up.

## Main results

* `Writer.Tallied.appendAll` — blocks are written or refused, and counted.
* `Cutter.total_cut` — cutting loses no sample.
* `Recording.Books.step`, `Recording.Books.handle`, `Recording.Books.run` — a step, an event and
  a run keep the books.
* `Recording.Shut.run` — a queue that was found closed stays empty.
* `Recording.samples_conserved` — **the sums of a session**.
-/

namespace IqTape

/-! ### Sums over chunks -/

/-- How many samples some chunks have, counted in a word of 64 bits. -/
def Chunk.total : List Chunk → UInt64
  | [] => 0
  | c :: cs => c.count.toUInt64 + total cs

@[simp] theorem Chunk.total_nil : total [] = 0 := rfl

@[simp] theorem Chunk.total_cons (c : Chunk) (cs : List Chunk) :
    total (c :: cs) = c.count.toUInt64 + total cs := rfl

theorem Chunk.total_append (as bs : List Chunk) : total (as ++ bs) = total as + total bs := by
  induction as with
  | nil => rw [List.nil_append, total_nil, UInt64.zero_add]
  | cons a as ih => rw [List.cons_append, total_cons, total_cons, ih, UInt64.add_assoc]

/-- Counting in a word of 64 bits forgets what is too large for it. -/
theorem Block.total_eq_amount (bs : List Block) : total bs = UInt64.ofNat (amount bs) := by
  induction bs with
  | nil => rfl
  | cons b bs ih =>
    have hsum : amount (b :: bs) = b.count.toNat + amount bs := List.sum_cons
    rw [total_cons, ih, hsum, ← UInt64.ofNat_uInt32ToNat]
    exact (toUInt64_add _ _).symm

/-- A chunk has one of two properties. -/
theorem Chunk.total_filter (p : Chunk → Bool) (found : Option Chunk) :
    total found.toList =
      total (found.filter p).toList + total (found.filter fun c => !p c).toList := by
  cases found with
  | none => rfl
  | some c => cases h : p c <;> simp [Option.filter, h]

/-! ### The writer's figures -/

namespace Writer

/-- The blocks that a writer cannot take, of some that it is given one after the other. -/
def refused (w : Writer) : List Block → List Block
  | [] => []
  | b :: bs => (if (w.append b).2.isSome then [b] else []) ++ (w.append b).1.refused bs

/-- The counters agree with the writer that has been handed some blocks and has refused
some of them. -/
structure Tallied (w : Writer) (handed refused : List Block) (c : CaptureCounters) : Prop where
  /-- A sample that was handed on is written or refused. -/
  samples : Block.total handed = w.samples + Block.total refused
  /-- The blocks are counted on both sides. -/
  blocks : c.blocks = w.blocks
  /-- Only the writer counts the header. -/
  bytes : c.bytes + Header.size.toUInt64 = w.bytes
  /-- A refused block is a write error. -/
  errors : c.writeErrors = refused.length.toUInt64

@[simp] theorem samples_tallyAll (w : Writer) (bs : List Block) (c : CaptureCounters) :
    (w.tallyAll bs c).samples = c.samples := by
  induction bs generalizing w c with
  | nil => rfl
  | cons b bs ih =>
    rw [tallyAll, ih, tally]
    split <;> rfl

@[simp] theorem droppedSamples_tallyAll (w : Writer) (bs : List Block) (c : CaptureCounters) :
    (w.tallyAll bs c).droppedSamples = c.droppedSamples := by
  induction bs generalizing w c with
  | nil => rfl
  | cons b bs ih =>
    rw [tallyAll, ih, tally]
    split <;> rfl

namespace Tallied

variable {w : Writer} {handed refused : List Block} {c : CaptureCounters}

/-- Nothing has been written when a tape has just been started. -/
theorem of_create {name : String} {file : Option Sink} {h : Header}
    (hopen : (w.create name file h).2 = none) (now : Int) :
    (w.create name file h).1.Tallied [] [] (.fresh now) := by
  cases file with
  | none => cases hopen
  | some sink =>
    simp only [create, attach] at hopen ⊢
    split at hopen
    · next hgood =>
      rw [if_pos hgood]
      exact ⟨rfl, rfl, rfl, rfl⟩
    · cases hopen

/-- What does not touch the figures keeps them in step. -/
theorem congr {later : Writer} {c' : CaptureCounters} (ht : w.Tallied handed refused c)
    (hw : later.samples = w.samples ∧ later.blocks = w.blocks ∧ later.bytes = w.bytes)
    (hc : c'.blocks = c.blocks ∧ c'.bytes = c.bytes ∧ c'.writeErrors = c.writeErrors) :
    later.Tallied handed refused c' := by
  obtain ⟨hsamples, hblocks, hbytes, herrors⟩ := ht
  obtain ⟨h1, h2, h3⟩ := hw
  obtain ⟨h4, h5, h6⟩ := hc
  exact ⟨by rw [hsamples, h1], by rw [h4, h2, hblocks], by rw [h5, h3, hbytes], by rw [h6, herrors]⟩

/-- **A block is written or refused**, and the counters go along. -/
theorem append (ht : w.Tallied handed refused c) (b : Block) :
    (w.append b).1.Tallied (handed ++ [b]) (refused ++ w.refused [b]) (w.tally b c) := by
  obtain ⟨hsamples, hblocks, hbytes, herrors⟩ := ht
  rcases append_cases w b with ⟨sink, f, h⟩ | ⟨sink, size, h⟩
  · have hone : w.refused [b] = [b] := by simp [Writer.refused, h]
    rw [tally, hone, h]
    refine ⟨?_, hblocks, hbytes, ?_⟩
    · rw [Block.total_append, Block.total_append, hsamples, UInt64.add_assoc]
    · simp only [CaptureCounters.addWriteError, List.length_append, List.length_singleton, herrors]
      exact (toUInt64_add _ _).symm
  · have hnone : w.refused [b] = [] := by simp [Writer.refused, h]
    rw [tally, hnone, h, List.append_nil]
    refine ⟨?_, ?_, ?_, herrors⟩
    · rw [Block.total_append, hsamples, Block.total_cons, Block.total_nil]
      grind
    · simp only [CaptureCounters.addBytes, CaptureCounters.addBlock, hblocks]
    · simp only [CaptureCounters.addBytes, CaptureCounters.addBlock, ← hbytes]
      grind

/-- So are some blocks. -/
theorem appendAll (ht : w.Tallied handed refused c) (bs : List Block) :
    (w.appendAll bs).Tallied (handed ++ bs) (refused ++ w.refused bs) (w.tallyAll bs c) := by
  induction bs generalizing w handed refused c with
  | nil =>
    rw [Writer.refused, List.append_nil, List.append_nil]
    exact ht
  | cons b bs ih =>
    have hrest := ih (ht.append b)
    have hsplit : w.refused (b :: bs) = w.refused [b] ++ (w.append b).1.refused bs := by
      simp only [Writer.refused, List.append_nil]
    rw [List.append_assoc, List.append_assoc, ← hsplit] at hrest
    exact hrest

end Tallied

/-- Finishing and closing a tape leave the figures alone. -/
theorem figures_close (w : Writer) :
    w.close.samples = w.samples ∧ w.close.blocks = w.blocks ∧ w.close.bytes = w.bytes := by
  unfold close
  split <;> exact ⟨rfl, rfl, rfl⟩

theorem figures_finish (w : Writer) (second : UInt64) :
    (w.finish second).1.samples = w.samples ∧ (w.finish second).1.blocks = w.blocks ∧
      (w.finish second).1.bytes = w.bytes := by
  unfold finish
  simp only
  split
  · exact ⟨rfl, rfl, rfl⟩
  · split
    · exact ⟨rfl, rfl, rfl⟩
    · split
      · exact ⟨rfl, rfl, rfl⟩
      · split <;> exact ⟨rfl, rfl, rfl⟩

end Writer

/-! ### The cutter's samples -/

namespace Cutter

variable {n : UInt32}

/-- What is cut off and what is left make up the samples, in words of 64 bits too. -/
theorem total_cut (size : Nat) (hn : 0 < n) (c : Cutter) :
    c.samples.toUInt64 = Block.total (c.cut size n).1 + (c.cut size n).2.samples.toUInt64 := by
  have hsum := congrArg UInt64.ofNat (amount_cut size hn c).1
  rw [Block.total_eq_amount, ← UInt64.ofNat_uInt32ToNat, ← UInt64.ofNat_uInt32ToNat, ← hsum]
  exact toUInt64_add _ _

/-- The samples of a chunk are added, unless their number wraps around. -/
theorem samples_add {c : Cutter} {chunk : Chunk}
    (h : c.samples.toNat + chunk.count.toNat < 2 ^ 32) :
    (c.add chunk).samples.toUInt64 = c.samples.toUInt64 + chunk.count.toUInt64 := by
  refine UInt64.toNat_inj.1 ?_
  simp only [add, UInt64.toNat_add, UInt32.toNat_toUInt64, UInt32.toNat_add]
  omega

/-- The last block has what is left. -/
theorem total_tail (c : Cutter) : Block.total c.tail.toList = c.samples.toUInt64 := by
  unfold tail
  split
  · next h =>
    rw [h]
    rfl
  · exact UInt64.add_zero _

end Cutter

/-! ### Looks at the queue -/

/-- A look at the queue takes out the first chunk, if there is one. -/
theorem Queue.poll_eq {q : Queue} (hq : q.IsRing) :
    PopResult.chunk? q.poll.1 = q.toList.head? ∧ q.poll.2.IsRing ∧
      q.poll.2.toList = q.toList.tail ∧ q.poll.2.closed = q.closed := by
  cases h : q.toList with
  | nil =>
    rw [poll_of_toList_eq_nil hq h]
    refine ⟨?_, hq, h, rfl⟩
    split <;> rfl
  | cons c cs =>
    obtain ⟨hpoll, hring, hrest⟩ := poll_of_toList_eq_cons hq h
    rw [hpoll]
    exact ⟨rfl, hring, hrest, rfl⟩

namespace Recording

/-! ### What a run shows -/

/-- The chunk that the device offers. -/
def Event.offered : Event → Option Chunk
  | .offer c => some c
  | _ => none

/-- The chunk that the writer takes out and discards, because it has the wrong size. -/
def discarded (r : Recording) (e : Event) : Option Chunk :=
  (r.taken e).filter fun c => !c.isWhole r.sampleSize

/-- The blocks that are handed to the tape and refused. -/
def refused (r : Recording) (e : Event) : List Block := r.writer.refused (r.handed e)

/-- All the chunks that the device offers. -/
def allOffered (es : List Event) : List Chunk := es.flatMap fun e => e.offered.toList

/-- All the chunks that are discarded. -/
def allDiscarded (r : Recording) (es : List Event) : List Chunk :=
  r.gather (fun r e => (r.discarded e).toList) es

/-- All the blocks that are refused. -/
def allRefused (r : Recording) (es : List Event) : List Block := r.gather refused es

/-- A look takes the first chunk out of the queue, and it is taken in or discarded. -/
theorem total_look {r : Recording} {deadline : Int} (hring : r.queue.IsRing)
    (hp : r.phase = .waiting deadline) (now : Moment) :
    Chunk.total r.queue.toList = Chunk.total (r.accepted (.step now)).toList +
      Chunk.total (r.discarded (.step now)).toList + Chunk.total r.queue.poll.2.toList := by
  obtain ⟨hfirst, -, htail, -⟩ := Queue.poll_eq hring
  have htaken : r.taken (.step now) = r.queue.toList.head? := by rw [taken, hp, ← hfirst]
  have hone := Chunk.total_filter (fun c => c.isWhole r.sampleSize) (r.taken (.step now))
  rw [accepted, discarded, ← hone, htaken, htail]
  cases r.queue.toList with
  | nil => rfl
  | cons c cs => simp

/-! ### Sessions that have been set up -/

/-- The loop of the writer has been entered. -/
def IsSetUp (r : Recording) : Prop := r.stage ≠ .opening ∧ r.stage ≠ .ready

theorem IsSetUp.handle {r : Recording} (hr : r.IsSetUp) (e : Event) : (r.handle e).IsSetUp := by
  obtain ⟨hopening, hready⟩ := hr
  have hdeed := deed_handle r e
  generalize r.handle e = later, r.accepted e = found, r.handed e = bs at hdeed ⊢
  unfold IsSetUp
  cases hdeed with
  | passed stage => rw [stage]; exact ⟨hopening, hready⟩
  | opened stage => exact absurd stage hopening
  | entered stage => exact absurd stage hready
  | took c stage next => rw [next]; exact ⟨nofun, nofun⟩
  | left stage next => rw [next]; exact ⟨nofun, nofun⟩
  | finished stage next => rw [next]; exact ⟨nofun, nofun⟩

theorem IsSetUp.run {r : Recording} (hr : r.IsSetUp) (es : List Event) : (r.run es).IsSetUp := by
  induction es generalizing r with
  | nil => exact hr
  | cons e es ih => exact ih (hr.handle e)

/-- Only a look changes the queue, until there is a new session. -/
theorem queue_step {r : Recording} (hr : r.IsSetUp) (now : Moment) :
    (r.step now).1.queue = r.queue ∨ (r.step now).1.queue = r.queue.poll.2 := by
  unfold step
  split
  · next hp => exact absurd (by rw [stage, hp]) hr.1
  · next hp => exact absurd (by rw [stage, hp]) hr.2
  · obtain ⟨_, h, -⟩ := check_eq now.steady r
    rw [h]
    exact .inl rfl
  · next deadline _ =>
    rcases look_cases now.steady deadline r with ⟨_, _, -, -, h⟩ | ⟨_, -, h, -⟩
    · rw [h]
      exact .inr rfl
    · rw [h]
      exact .inr rfl
  · obtain ⟨_, -, h⟩ := flush_eq r
    rw [h]
    exact .inl rfl
  · split
    · obtain ⟨_, h⟩ := finish_eq now.second r
      rw [h]
      exact .inl rfl
    · exact .inl rfl
  · exact .inl rfl

/-! ### The books -/

/-- The sums of a session that has been set up, with the chunks that have been offered and
discarded so far and the blocks that have been handed to the tape and refused. -/
structure Books (offered discarded : List Chunk) (handed refused : List Block)
    (r : Recording) : Prop where
  /-- The queue holds a list of chunks. -/
  ring : r.queue.IsRing
  /-- A sample is dropped, waits, is discarded or recorded. -/
  chunks : Chunk.total offered = r.counters.droppedSamples + Chunk.total r.queue.toList +
    Chunk.total discarded + r.counters.samples
  /-- A recorded sample is handed on in a block, or is still there. -/
  blocks : r.counters.samples = Block.total handed + r.cutter.samples.toUInt64
  /-- The blocks are written or refused. -/
  written : r.writer.Tallied handed refused r.counters
  /-- What is still there does not fill a block. -/
  short : r.cutter.samples < r.config.blockSamples
  /-- When the loop has been left, nothing is still there. -/
  left : r.hasLeftLoop = true → r.cutter.samples = 0

namespace Books

variable {offered discarded : List Chunk} {handed refused : List Block} {r : Recording}

/-- An offered chunk waits in the queue or is dropped. -/
theorem offer (hb : Books offered discarded handed refused r) (c : Chunk) :
    Books (offered ++ [c]) discarded handed refused (r.offer c).2 := by
  obtain ⟨hring, hchunks, hblocks, hwritten, hshort, hleft⟩ := hb
  have hlist := Queue.toList_push (c := c) hring
  have hkept := Queue.isRing_push (c := c) hring
  unfold Recording.offer publish
  split at hlist
  · next haccepted =>
    have hpush : r.queue.push c = (true, (r.queue.push c).2) := Prod.ext haccepted rfl
    rw [hpush]
    refine ⟨hkept, ?_, hblocks, hwritten, hshort, hleft⟩
    simp only [hlist, Chunk.total_append, Chunk.total_cons, Chunk.total_nil, hchunks]
    grind
  · next hrefused =>
    have hpush : r.queue.push c = (false, (r.queue.push c).2) :=
      Prod.ext (Bool.eq_false_iff.2 hrefused) rfl
    rw [List.append_nil] at hlist
    rw [hpush]
    refine ⟨hkept, ?_, hblocks, ?_, hshort, hleft⟩
    · simp only [CaptureCounters.drop, hlist, Chunk.total_append, Chunk.total_cons,
        Chunk.total_nil, hchunks]
      grind
    · exact hwritten.congr ⟨rfl, rfl, rfl⟩ ⟨rfl, rfl, rfl⟩

/-- **A look at the queue** moves the first chunk out of it: into the cutter, with the
blocks that it fills, or away. -/
theorem look (hb : Books offered discarded handed refused r) {now : Moment} {deadline : Int}
    (hp : r.phase = .waiting deadline)
    (hs : ∀ c ∈ r.accepted (.step now), c.count.toNat + r.config.blockSamples.toNat < 2 ^ 32) :
    Books offered (discarded ++ (r.discarded (.step now)).toList)
      (handed ++ r.handed (.step now)) (refused ++ r.refused (.step now))
      (r.look now.steady deadline).1 := by
  obtain ⟨hring, hchunks, hblocks, hwritten, hshort, hleft⟩ := hb
  have hlist := total_look hring hp now
  have hkept := (Queue.poll_eq hring).2.1
  unfold Recording.refused
  rcases look_of_waiting r now hp with
    ⟨c, _, haccepted, hhanded, -, h⟩ | ⟨phase, haccepted, hhanded, h, hphase⟩
  · have hn : 0 < r.config.blockSamples := UInt32.lt_of_le_of_lt UInt32.zero_le hshort
    have hlt := UInt32.lt_iff_toNat_lt.1 hshort
    have hfits := hs c haccepted
    have hadd : (r.cutter.add c).samples.toUInt64 = r.cutter.samples.toUInt64 + c.count.toUInt64 :=
      Cutter.samples_add (by omega)
    have hcut := Cutter.total_cut r.sampleSize hn (r.cutter.add c)
    have hnext := (Cutter.amount_cut r.sampleSize hn (r.cutter.add c)).2
    have hcounted : r.writer.Tallied handed refused (r.counters.addSamples c.count.toUInt64) :=
      hwritten.congr ⟨rfl, rfl, rfl⟩ ⟨rfl, rfl, rfl⟩
    rw [haccepted, Option.toList_some, Chunk.total_cons, Chunk.total_nil] at hlist
    rw [← hhanded] at hcut
    rw [h]
    refine ⟨hkept, ?_, ?_, hcounted.appendAll _, hnext, nofun⟩
    · simp only [Writer.samples_tallyAll, Writer.droppedSamples_tallyAll,
        CaptureCounters.addSamples, Chunk.total_append, hchunks, hlist]
      grind
    · simp only [Writer.samples_tallyAll, CaptureCounters.addSamples, Block.total_append, hblocks]
      grind
  · rw [haccepted, Option.toList_none, Chunk.total_nil] at hlist
    rw [h, hhanded, Writer.refused, List.append_nil, List.append_nil]
    refine ⟨hkept, ?_, hblocks, hwritten, hshort, ?_⟩
    · simp only [Chunk.total_append, hchunks, hlist]
      grind
    · rcases hphase with rfl | rfl | rfl <;> nofun

/-- The last block takes what is still there. -/
theorem flush (hb : Books offered discarded handed refused r) :
    Books offered discarded (handed ++ r.cutter.tail.toList)
      (refused ++ r.writer.refused r.cutter.tail.toList) r.flush.1 := by
  obtain ⟨hring, hchunks, hblocks, hwritten, hshort, -⟩ := hb
  obtain ⟨cutter, hzero, h⟩ := flush_eq r
  have hn : 0 < r.config.blockSamples := UInt32.lt_of_le_of_lt UInt32.zero_le hshort
  rw [h]
  refine ⟨hring, ?_, ?_, hwritten.appendAll _, ?_, fun _ => hzero⟩
  · simp only [Writer.samples_tallyAll, Writer.droppedSamples_tallyAll, hchunks]
  · simp only [Writer.samples_tallyAll, Block.total_append, Cutter.total_tail, hblocks, hzero]
    exact (UInt64.add_zero _).symm
  · simp only [hzero]
    exact hn

/-- Finishing the tape changes no sum. -/
theorem finish (hb : Books offered discarded handed refused r) (second : UInt64)
    (hp : r.phase = .joining) : Books offered discarded handed refused (r.finish second).1 := by
  obtain ⟨hring, hchunks, hblocks, hwritten, hshort, hleft⟩ := hb
  obtain ⟨ok, h⟩ := finish_eq second r
  obtain ⟨hsamples, hcount, hbytes⟩ := r.writer.figures_finish second
  obtain ⟨hsamples', hcount', hbytes'⟩ := (r.writer.finish second).1.figures_close
  have hzero := hleft ((hasLeftLoop_iff r).2 (.inl (by rw [stage, hp])))
  rw [h]
  refine ⟨hring, hchunks, hblocks, ?_, hshort, fun _ => hzero⟩
  exact hwritten.congr
    ⟨hsamples'.trans hsamples, hcount'.trans hcount, hbytes'.trans hbytes⟩ ⟨rfl, rfl, rfl⟩

/-- An event that takes no chunk and hands no block on adds nothing. -/
theorem of_idle {later : Recording} {e : Event}
    (hb : Books offered discarded handed refused later) (htaken : r.taken e = none)
    (hhanded : r.handed e = []) :
    Books offered (discarded ++ (r.discarded e).toList) (handed ++ r.handed e)
      (refused ++ r.refused e) later := by
  have hdiscarded : r.discarded e = none := by
    rw [Recording.discarded, htaken]
    rfl
  rw [hdiscarded, Recording.refused, hhanded, Writer.refused, Option.toList_none,
    List.append_nil, List.append_nil, List.append_nil]
  exact hb

/-- **A step of the writer keeps the books.** -/
theorem step (hb : Books offered discarded handed refused r) (hr : r.IsSetUp) (now : Moment)
    (hs : ∀ c ∈ r.accepted (.step now), c.count.toNat + r.config.blockSamples.toNat < 2 ^ 32) :
    Books offered (discarded ++ (r.discarded (.step now)).toList)
      (handed ++ r.handed (.step now)) (refused ++ r.refused (.step now)) (r.step now).1 := by
  -- A step that does not look and does not flush takes no chunk and hands no block on.
  have hidle (later : Recording) (hlater : Books offered discarded handed refused later)
      (hwaiting : ∀ deadline, r.phase ≠ .waiting deadline) (hflushing : r.phase ≠ .flushing) :
      Books offered (discarded ++ (r.discarded (.step now)).toList)
        (handed ++ r.handed (.step now)) (refused ++ r.refused (.step now)) later :=
    of_idle hlater (by simp only [taken])
      (handed_of_not_flushing (accepted_of_not_waiting now hwaiting) hflushing)
  unfold Recording.step
  cases hp : r.phase with
  | opening file => exact absurd (by rw [stage, hp]) hr.1
  | starting => exact absurd (by rw [stage, hp]) hr.2
  | checking =>
    refine hidle _ ?_ (by simp [hp]) (by simp [hp])
    obtain ⟨phase, h, hphase⟩ := check_eq now.steady r
    simp only
    rw [h]
    refine ⟨hb.ring, hb.chunks, hb.blocks, hb.written, hb.short, ?_⟩
    rcases hphase with rfl | rfl <;> rintro ⟨⟩
  | waiting deadline => exact hb.look hp hs
  | flushing =>
    have hnone := accepted_of_not_waiting now (r := r) (by simp [hp])
    have hhanded : r.handed (.step now) = r.cutter.tail.toList := by
      simp only [Recording.handed, hnone, hp]
    have hdiscarded : r.discarded (.step now) = none := by
      simp only [Recording.discarded, taken, hp]
      rfl
    rw [hdiscarded, Recording.refused, hhanded, Option.toList_none, List.append_nil]
    exact hb.flush
  | joining =>
    refine hidle _ ?_ (by simp [hp]) (by simp [hp])
    simp only
    split
    · exact hb.finish now.second hp
    · exact hb
  | «over» ok => exact hidle _ hb (by simp [hp]) (by simp [hp])

/-- **An event keeps the books.** -/
theorem handle (hb : Books offered discarded handed refused r) (hr : r.IsSetUp) (e : Event)
    (hs : ∀ c ∈ r.accepted e, c.count.toNat + r.config.blockSamples.toNat < 2 ^ 32) :
    Books (offered ++ e.offered.toList) (discarded ++ (r.discarded e).toList)
      (handed ++ r.handed e) (refused ++ r.refused e) (r.handle e) := by
  -- Only an offer adds a chunk to those that were offered.
  have hnothing (he : e.offered = none) : offered ++ e.offered.toList = offered := by
    rw [he, Option.toList_none, List.append_nil]
  cases e with
  | offer c => exact of_idle (hb.offer c) rfl rfl
  | requestStop =>
    have hsame : Books offered discarded handed refused r.requestStop :=
      ⟨hb.ring, hb.chunks, hb.blocks, hb.written, hb.short, hb.left⟩
    rw [hnothing rfl]
    exact of_idle hsame rfl rfl
  | deviceDone ok =>
    have hclosed : Books offered discarded handed refused (r.deviceDone ok).1 := by
      have hring := Queue.isRing_close hb.ring
      cases ok <;> exact ⟨hring, hb.chunks, hb.blocks, hb.written, hb.short, hb.left⟩
    rw [hnothing rfl]
    exact of_idle hclosed rfl rfl
  | step now =>
    rw [hnothing rfl]
    exact hb.step hr now hs

/-- **So does a run.** -/
theorem run (hb : Books offered discarded handed refused r) (hr : r.IsSetUp) {es : List Event}
    (hs : ∀ c ∈ r.allAccepted es, c.count.toNat + r.config.blockSamples.toNat < 2 ^ 32) :
    Books (offered ++ allOffered es) (discarded ++ r.allDiscarded es) (handed ++ r.allHanded es)
      (refused ++ r.allRefused es) (r.run es) := by
  induction es generalizing r offered discarded handed refused with
  | nil =>
    simp only [allOffered, allDiscarded, allHanded, allRefused, gather, List.flatMap_nil,
      List.append_nil]
    exact hb
  | cons e es ih =>
    simp only [allOffered, allDiscarded, allHanded, allRefused, gather, List.flatMap_cons,
      ← List.append_assoc]
    simp only [allAccepted, gather] at hs
    have hfirst := hb.handle hr e fun c hc =>
      hs c (List.mem_append_left _ (Option.mem_toList.2 hc))
    refine ih hfirst (hr.handle e) fun c hc => ?_
    rw [config_handle]
    exact hs c (List.mem_append_right _ hc)

end Books

/-! ### A queue that was found closed -/

/-- The queue can be found closed: it is empty and takes nothing more. -/
structure Shut (r : Recording) : Prop where
  /-- The session has been set up. -/
  setUp : r.IsSetUp
  /-- The queue holds a list of chunks. -/
  ring : r.queue.IsRing
  /-- No chunk is taken any more. -/
  closed : r.queue.closed = true
  /-- None is left. -/
  empty : r.queue.toList = []

namespace Shut

variable {r : Recording}

/-- Whoever finds the queue closed finds it empty. -/
theorem of_poll (hr : r.IsSetUp) (hring : r.queue.IsRing) (h : r.queue.poll.1 = some .closed) :
    r.Shut := by
  cases hlist : r.queue.toList with
  | nil =>
    rw [Queue.poll_of_toList_eq_nil hring hlist] at h
    split at h
    · next hclosed => exact ⟨hr, hring, hclosed, hlist⟩
    · cases h
  | cons c cs =>
    obtain ⟨hpoll, -, -⟩ := Queue.poll_of_toList_eq_cons hring hlist
    rw [hpoll] at h
    cases h

theorem handle (hq : r.Shut) (e : Event) : (r.handle e).Shut := by
  obtain ⟨hr, hring, hclosed, hempty⟩ := hq
  have hsame : (r.handle e).queue = r.queue ∨ (r.handle e).queue = r.queue.close := by
    cases e with
    | offer c =>
      refine .inl ?_
      simp only [Recording.handle, offer, publish, Queue.push_of_closed hclosed]
    | requestStop => exact .inl rfl
    | deviceDone ok => cases ok <;> exact .inr rfl
    | step now =>
      have hpoll : r.queue.poll.2 = r.queue := by rw [Queue.poll_of_toList_eq_nil hring hempty]
      rcases queue_step hr now with h | h
      · exact .inl h
      · exact .inl (h.trans hpoll)
  rcases hsame with h | h
  · exact ⟨hr.handle e, by rwa [h], by rwa [h], by rwa [h]⟩
  · exact ⟨hr.handle e, by rw [h]; exact Queue.isRing_close hring, by rw [h]; rfl, by rwa [h]⟩

theorem run (hq : r.Shut) (es : List Event) : (r.run es).Shut := by
  induction es generalizing r with
  | nil => exact hq
  | cons e es ih => exact ih (hq.handle e)

end Shut

/-! ### A whole session -/

/-- A session with a device, when its tape has been opened and its loop entered. -/
def setUp (device : DeviceInfo) (file : Option Sink) (opened started : Moment) (r : Recording) :
    Recording :=
  (r.begin device file).run [.step opened, .step started]

section

variable {r : Recording} {device : DeviceInfo} {file : Option Sink} {opened started : Moment}

/-- A session begins with empty books. -/
theorem books_setUp (hn : 0 < r.config.blockSamples)
    (hopen : (r.setUp device file opened started).stage = .looping) :
    Books [] [] [] [] (r.setUp device file opened started) := by
  have hfirst : (r.begin device file).handle (.step opened) =
      ((r.begin device file).openTape opened.second file).1 := rfl
  unfold setUp at hopen ⊢
  rw [run, run, run, hfirst] at hopen ⊢
  unfold openTape at hopen ⊢
  simp only at hopen ⊢
  split at hopen
  · next w hcreated =>
    have htallied := Writer.Tallied.of_create (congrArg Prod.snd hcreated) started.steady
    rw [hcreated] at htallied
    simp only
    refine ⟨Queue.isRing_empty _, rfl, rfl, htallied, hn, ?_⟩
    rintro ⟨⟩
  · cases hopen

theorem config_setUp : (r.setUp device file opened started).config = r.config :=
  config_run _ _

/-- **The sums of a session.**  Whatever the device offers, in whatever order it, the writer
and requests to stop make their steps, however large the queue is, whichever blocks the tape
refuses and whatever ends the loop: a sample that was offered has been dropped, waits in the
queue, was discarded with its chunk or is counted as recorded.  Once the loop has been left,
the recorded samples are those on the tape and those in refused blocks, and the counters
agree with the writer.  And from when a look has found the queue closed, which is what ends
the loop then, no sample waits. -/
theorem samples_conserved (hn : 0 < r.config.blockSamples)
    (hopen : (r.setUp device file opened started).stage = .looping) {es : List Event}
    (hs : ∀ c ∈ (r.setUp device file opened started).allAccepted es,
      c.count.toNat + r.config.blockSamples.toNat < 2 ^ 32) :
    let start := r.setUp device file opened started
    let last := start.run es
    let counters := last.counters
    Chunk.total (allOffered es) =
        counters.droppedSamples + Chunk.total last.queue.toList +
          Chunk.total (start.allDiscarded es) + counters.samples ∧
      (last.hasLeftLoop = true →
        counters.samples = last.writer.samples + Block.total (start.allRefused es) ∧
          counters.blocks = last.writer.blocks ∧
          counters.bytes + 128 = last.writer.bytes ∧
          counters.writeErrors = (start.allRefused es).length.toUInt64) ∧
      ∀ before after, es = before ++ after →
        (start.run before).queue.poll.1 = some .closed →
        last.queue.toList = [] ∧
          Chunk.total (allOffered es) =
            counters.samples + counters.droppedSamples + Chunk.total (start.allDiscarded es) := by
  intro start last counters
  have hr : start.IsSetUp := by
    unfold IsSetUp
    rw [hopen]
    exact ⟨nofun, nofun⟩
  have hempty : Books [] [] [] [] start := books_setUp hn hopen
  have hconfig : start.config = r.config := config_setUp
  rw [← hconfig] at hs
  have hbooks : Books (allOffered es) (start.allDiscarded es) (start.allHanded es)
      (start.allRefused es) last := hempty.run hr hs
  refine ⟨hbooks.chunks, ?_, ?_⟩
  · intro hleft
    obtain ⟨hsamples, hblocks, hbytes, herrors⟩ := hbooks.written
    refine ⟨?_, hblocks, hbytes, herrors⟩
    rw [hbooks.blocks, hbooks.left hleft, hsamples]
    exact UInt64.add_zero _
  · rintro before after rfl hclosed
    rw [allAccepted, gather_append] at hs
    have hring := (hempty.run hr fun c hc => hs c (List.mem_append_left _ hc)).ring
    have hshut := (Shut.of_poll (hr.run before) hring hclosed).run after
    rw [← run_append] at hshut
    have hchunks := hbooks.chunks
    rw [hshut.empty, Chunk.total_nil] at hchunks
    refine ⟨hshut.empty, ?_⟩
    rw [hchunks]
    grind

end

/-- A recorder with room for one chunk. -/
def crampedRecorder : Recording :=
  idle { RecorderConfig.initial with blockSamples := 2, capacity := 1 } 0

/-- Its session, with a tape that has room for one block. -/
def crampedSession : Recording :=
  crampedRecorder.setUp default (some (.ofBytes [] (some 160) true)) ⟨0, 0⟩ ⟨1, 0⟩

/-- A chunk of three samples is taken in and the next one is dropped, one of the wrong size is
discarded, and the device ends. -/
def crampedEvents : List Event :=
  let chunk : Chunk := ⟨7, 3, [1, 2, 3, 4, 5, 6, 7, 8, 9, 10, 11, 12]⟩
  [.offer chunk, .offer chunk, .step ⟨2, 0⟩, .step ⟨3, 0⟩, .offer ⟨8, 5, [1]⟩, .step ⟨4, 0⟩,
    .step ⟨5, 0⟩, .deviceDone true, .step ⟨6, 0⟩, .step ⟨7, 0⟩, .step ⟨8, 0⟩, .step ⟨9, 0⟩]

/-- Of eleven samples three are dropped, five discarded and three recorded, two of them on the
tape and one in a block that was refused. -/
theorem samples_conserved_of_crampedEvents :
    0 < crampedRecorder.config.blockSamples ∧ crampedSession.stage = .looping ∧
      (∀ c ∈ crampedSession.allAccepted crampedEvents,
        c.count.toNat + crampedRecorder.config.blockSamples.toNat < 2 ^ 32) ∧
      (crampedSession.run crampedEvents).hasLeftLoop = true ∧
      Chunk.total (allOffered crampedEvents) = 11 ∧
      (crampedSession.run crampedEvents).queue.toList = [] ∧
      Chunk.total (allOffered crampedEvents) =
        (crampedSession.run crampedEvents).counters.samples +
          (crampedSession.run crampedEvents).counters.droppedSamples +
          Chunk.total (crampedSession.allDiscarded crampedEvents) ∧
      (crampedSession.run crampedEvents).counters.samples =
        (crampedSession.run crampedEvents).writer.samples +
          Block.total (crampedSession.allRefused crampedEvents) ∧
      Block.total (crampedSession.allRefused crampedEvents) = 1 := by
  have hn : 0 < crampedRecorder.config.blockSamples := by decide
  have hopen : crampedSession.stage = .looping := by decide +kernel
  have hs : ∀ c ∈ crampedSession.allAccepted crampedEvents,
      c.count.toNat + crampedRecorder.config.blockSamples.toNat < 2 ^ 32 := by decide +kernel
  have hleft : (crampedSession.run crampedEvents).hasLeftLoop = true := by decide +kernel
  have htotal : Chunk.total (allOffered crampedEvents) = 11 := by decide +kernel
  have hrefused : Block.total (crampedSession.allRefused crampedEvents) = 1 := by decide +kernel
  obtain ⟨-, hwritten, hclosed⟩ := samples_conserved hn hopen hs
  obtain ⟨hempty, hsum⟩ := hclosed (crampedEvents.take 9) (crampedEvents.drop 9)
    (List.take_append_drop 9 crampedEvents).symm (by decide +kernel)
  unfold crampedSession
  exact ⟨hn, hopen, hs, hleft, htotal, hempty, hsum, (hwritten hleft).1, hrefused⟩

end Recording

end IqTape
