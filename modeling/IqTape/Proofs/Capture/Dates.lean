import Mathlib.Data.List.Induction
import IqTape.Proofs.Capture.Reblocking

/-!
# The dates of blocks

The log of a session says in which order chunks arrived and blocks were cut.  A block has
the date of the first chunk that arrived after the block before it, and the date zero if no
chunk has arrived since then.  As long as a chunk arrives between any two blocks, the dates of
the blocks are those of chunks, and in order if those of the chunks are; a chunk that is long
enough for two blocks leaves the second one without a date.

## Main definitions

* `Mark`, `Mark.chunks`, `Mark.blocks` — logs.
* `Mark.untilCut`, `Mark.sinceCut` — the chunks before and after the last block of a log.
* `Mark.AtCuts`, `Mark.Fits` — what holds of every block and the log before it.
* `Recording.log` — the log of a run.

## Main results

* `Cutter.dated_cut` — the blocks that a chunk fills.
* `Recording.Logged.handle`, `Recording.Logged.run` — an event, and a run, keep to the log.
* `Mark.sorted_of_dated` — dates in order.
* `Recording.dates_of_run` — **the dates of a session**.
* `Recording.undated_block_of_long_chunk` — a chunk for two blocks.
-/

namespace IqTape

/-- What happens to the samples of a session. -/
inductive Mark
  /-- A chunk is taken in. -/
  | arrived (c : Chunk)
  /-- A block is cut. -/
  | cut (b : Block)
  deriving DecidableEq, Repr

namespace Mark

/-! ### Logs -/

/-- The chunks of a log. -/
def chunks (log : List Mark) : List Chunk :=
  log.filterMap fun m => match m with
    | .arrived c => some c
    | .cut _ => none

/-- The blocks of a log. -/
def blocks (log : List Mark) : List Block :=
  log.filterMap fun m => match m with
    | .arrived _ => none
    | .cut b => some b

/-- The chunks that arrived before the last block was cut, and those that arrived after. -/
def divide (log : List Mark) : List Chunk × List Chunk :=
  log.foldl
    (fun found m =>
      match m with
      | .arrived c => (found.1, found.2 ++ [c])
      | .cut _ => (found.1 ++ found.2, []))
    ([], [])

/-- The chunks that arrived before the last block was cut. -/
def untilCut (log : List Mark) : List Chunk := (divide log).1

/-- The chunks that have arrived since the last block was cut. -/
def sinceCut (log : List Mark) : List Chunk := (divide log).2

/-- The date for the next block: that of the first chunk since the last block. -/
def date (log : List Mark) : Option UInt64 := (sinceCut log).head?.map fun c => c.timestamp

variable {log : List Mark}

@[simp] theorem chunks_append (as bs : List Mark) : chunks (as ++ bs) = chunks as ++ chunks bs :=
  List.filterMap_append

@[simp] theorem blocks_append (as bs : List Mark) : blocks (as ++ bs) = blocks as ++ blocks bs :=
  List.filterMap_append

@[simp] theorem chunks_arrived (c : Chunk) : chunks [.arrived c] = [c] := rfl

@[simp] theorem blocks_arrived (c : Chunk) : blocks [.arrived c] = [] := rfl

@[simp] theorem blocks_cut (b : Block) : blocks [.cut b] = [b] := rfl

@[simp] theorem chunks_map_cut (bs : List Block) : chunks (bs.map .cut) = [] := by
  induction bs with
  | nil => rfl
  | cons b bs ih => exact ih

@[simp] theorem blocks_map_cut (bs : List Block) : blocks (bs.map .cut) = bs := by
  induction bs with
  | nil => rfl
  | cons b bs ih => exact congrArg (b :: ·) ih

@[simp] theorem chunks_map_arrived (cs : List Chunk) : chunks (cs.map .arrived) = cs := by
  induction cs with
  | nil => rfl
  | cons c cs ih => exact congrArg (c :: ·) ih

@[simp] theorem blocks_map_arrived (cs : List Chunk) : blocks (cs.map .arrived) = [] := by
  induction cs with
  | nil => rfl
  | cons c cs ih => exact ih

@[simp] theorem untilCut_arrived (log : List Mark) (c : Chunk) :
    untilCut (log ++ [.arrived c]) = untilCut log := by
  simp [divide, untilCut]

@[simp] theorem sinceCut_arrived (log : List Mark) (c : Chunk) :
    sinceCut (log ++ [.arrived c]) = sinceCut log ++ [c] := by
  simp [divide, sinceCut]

@[simp] theorem untilCut_cut (log : List Mark) (b : Block) :
    untilCut (log ++ [.cut b]) = untilCut log ++ sinceCut log := by
  simp [divide, untilCut, sinceCut]

@[simp] theorem sinceCut_cut (log : List Mark) (b : Block) : sinceCut (log ++ [.cut b]) = [] := by
  simp [divide, sinceCut]

/-- The chunks of a log are those before the last block and those after it. -/
theorem untilCut_append_sinceCut (log : List Mark) :
    untilCut log ++ sinceCut log = chunks log := by
  induction log using List.reverseRecOn with
  | nil => rfl
  | append_singleton log m ih =>
    rw [chunks_append, ← ih]
    cases m with
    | arrived c => rw [untilCut_arrived, sinceCut_arrived, ← List.append_assoc]; rfl
    | cut b => rw [untilCut_cut, sinceCut_cut]; rfl

/-- A chunk that arrives gives the next block its date, if it has none. -/
theorem date_arrived (log : List Mark) (c : Chunk) :
    date (log ++ [.arrived c]) = some ((date log).getD c.timestamp) := by
  rw [date, date, sinceCut_arrived]
  cases sinceCut log <;> rfl

theorem date_cut (log : List Mark) (b : Block) : date (log ++ [.cut b]) = none := by
  rw [date, sinceCut_cut]
  rfl

/-! ### What holds of every block -/

/-- Every block of a log stands in some relation to the log before it. -/
def AtCuts (P : List Mark → Block → Prop) (log : List Mark) : Prop :=
  ∀ before b after, log = before ++ .cut b :: after → P before b

variable {P : List Mark → Block → Prop}

theorem atCuts_nil : AtCuts P [] := by
  intro before b after h
  simp at h

/-- What ends a log that ends with a mark. -/
theorem eq_of_concat_eq {m : Mark} {before after : List Mark} {b : Block}
    (h : log ++ [m] = before ++ .cut b :: after) :
    (log = before ∧ m = .cut b) ∨ ∃ rest, log = before ++ .cut b :: rest := by
  induction after using List.reverseRecOn with
  | nil =>
    obtain ⟨hlog, hm⟩ := List.append_inj' h rfl
    exact .inl ⟨hlog, List.singleton_inj.1 hm⟩
  | append_singleton rest last =>
    rw [← List.cons_append, ← List.append_assoc] at h
    exact .inr ⟨rest, (List.append_inj' h rfl).1⟩

theorem atCuts_arrived (h : AtCuts P log) (c : Chunk) : AtCuts P (log ++ [.arrived c]) := by
  intro before b after heq
  rcases eq_of_concat_eq heq with ⟨-, hm⟩ | ⟨rest, hlog⟩
  · cases hm
  · exact h before b rest hlog

theorem atCuts_cut {b : Block} (h : AtCuts P log) (hb : P log b) : AtCuts P (log ++ [.cut b]) := by
  intro before b' after heq
  rcases eq_of_concat_eq heq with ⟨rfl, hm⟩ | ⟨rest, hlog⟩
  · cases hm
    exact hb
  · exact h before b' rest hlog

/-- A log without its last mark has fewer blocks to speak of. -/
theorem AtCuts.of_append {more : List Mark} (h : AtCuts P (log ++ more)) : AtCuts P log := by
  rintro before b after rfl
  exact h before b (after ++ more) (by simp)

/-- No chunk of a log, added to what does not fill a block of `n` samples, makes the number of
samples wrap around. -/
def Bounded (n : UInt32) (log : List Mark) : Prop :=
  ∀ c ∈ chunks log, c.count.toNat + n.toNat < 2 ^ 32

theorem Bounded.of_append {n : UInt32} {more : List Mark} (h : Bounded n (log ++ more)) :
    Bounded n log := by
  intro c hc
  refine h c ?_
  rw [chunks_append]
  exact List.mem_append_left _ hc

/-- A block follows the log before it. -/
structure Fits (n : UInt32) (before : List Mark) (b : Block) : Prop where
  /-- It has the date of the first chunk since the last block, or the date zero. -/
  date : b.timestamp = (Mark.date before).getD 0
  /-- If the chunks since then have samples, the first of them begins before the block ends. -/
  timely : Bounded n before → (∃ c ∈ sinceCut before, 0 < c.count) →
    Chunk.amount (untilCut before) < Block.amount (blocks before ++ [b])

/-- If a chunk arrives between any two blocks and the chunks are in order, so are the blocks,
and each has the date of a chunk that has arrived before it. -/
theorem sorted_of_dated (hfits : AtCuts (fun before b => b.timestamp = (date before).getD 0) log)
    (hfresh : AtCuts (fun before _ => sinceCut before ≠ []) log)
    (hsorted : (chunks log).Pairwise fun c c' => c.timestamp ≤ c'.timestamp) :
    ((blocks log).Pairwise fun b b' => b.timestamp ≤ b'.timestamp) ∧
      ∀ b ∈ blocks log, ∃ c ∈ untilCut log, b.timestamp = c.timestamp := by
  induction log using List.reverseRecOn with
  | nil => exact ⟨List.Pairwise.nil, nofun⟩
  | append_singleton log m ih =>
    rw [chunks_append, List.pairwise_append] at hsorted
    obtain ⟨hpairs, hdates⟩ := ih hfits.of_append hfresh.of_append hsorted.1
    rw [blocks_append]
    cases m with
    | arrived c =>
      rw [untilCut_arrived, blocks_arrived, List.append_nil]
      exact ⟨hpairs, hdates⟩
    | cut b =>
      -- The new block takes its date from behind the chunks that the others are dated by.
      obtain ⟨first, rest, hsince⟩ := List.exists_cons_of_ne_nil (hfresh log b [] rfl)
      have hdate : b.timestamp = first.timestamp := by
        rw [hfits log b [] rfl, date, hsince]
        rfl
      have hlater : ∀ c ∈ untilCut log, c.timestamp ≤ first.timestamp := by
        have hall := hsorted.1
        rw [← untilCut_append_sinceCut, List.pairwise_append, hsince] at hall
        exact fun c hc => hall.2.2 c hc first List.mem_cons_self
      rw [untilCut_cut, blocks_cut, List.pairwise_append]
      refine ⟨⟨hpairs, List.pairwise_singleton _ _, ?_⟩, ?_⟩
      · intro b' hb' b'' hb''
        obtain ⟨c, hc, hsame⟩ := hdates b' hb'
        rw [List.mem_singleton.1 hb'', hsame, hdate]
        exact hlater c hc
      · intro b' hb'
        rcases List.mem_append.1 hb' with hb' | hb'
        · obtain ⟨c, hc, hsame⟩ := hdates b' hb'
          exact ⟨c, List.mem_append_left _ hc, hsame⟩
        · rw [List.mem_singleton.1 hb']
          refine ⟨first, List.mem_append_right _ ?_, hdate⟩
          rw [hsince]
          exact List.mem_cons_self

end Mark

namespace Cutter

open Mark

/-- A cutter has what has arrived and has not been cut, and the date for the next block. -/
structure Follows (n : UInt32) (log : List Mark) (c : Cutter) : Prop where
  /-- The date is that of the first chunk since the last block. -/
  date : c.date = Mark.date log
  /-- The samples are those of the chunks, without those of the blocks. -/
  amount : Bounded n log →
    Chunk.amount (chunks log) = Block.amount (blocks log) + c.samples.toNat
  /-- They do not fill a block. -/
  short : c.samples < n

variable {n : UInt32} {c : Cutter} {log : List Mark}

/-- **The blocks that are cut one after the other**: the first is dated by the chunks since the
last block, and the others have no date. -/
theorem fits_cut (size : Nat) (hn : 0 < n) (hdate : c.date = Mark.date log)
    (hnear : Bounded n log → sinceCut log ≠ [] →
      Chunk.amount (untilCut log) < Block.amount (blocks log) + n.toNat)
    (hfits : AtCuts (Fits n) log) :
    AtCuts (Fits n) (log ++ (c.cut size n).1.map .cut) ∧
      (c.cut size n).2.date = Mark.date (log ++ (c.cut size n).1.map .cut) := by
  induction c using cut_induction size hn generalizing log with
  | short c h =>
    rw [cut_of_lt h, List.map_nil, List.append_nil]
    exact ⟨hfits, hdate⟩
  | block c h ih =>
    have hfirst : Fits n log (c.front size n) := by
      refine ⟨?_, ?_⟩
      · rw [← hdate]
        rfl
      · rintro hbound ⟨found, hfound, -⟩
        rw [Block.amount_append]
        exact hnear hbound (List.ne_nil_of_mem hfound)
    rw [cut_of_le hn h, List.map_cons, ← List.singleton_append, ← List.append_assoc]
    -- Nothing arrives before the next block, so it has no date.
    refine ih (date_cut log _).symm ?_ (atCuts_cut hfits hfirst)
    intro _ hsince
    exact absurd (sinceCut_cut log _) hsince

namespace Follows

/-- One more chunk, and the blocks that it fills. -/
theorem take {chunk : Chunk} (hc : c.Follows n log) (size : Nat) (hn : 0 < n)
    (hfits : AtCuts (Fits n) log) :
    let later := log ++ [.arrived chunk] ++ ((c.add chunk).cut size n).1.map .cut
    AtCuts (Fits n) later ∧ ((c.add chunk).cut size n).2.Follows n later := by
  obtain ⟨hdate, hamount, hshort⟩ := hc
  have hlt := UInt32.lt_iff_toNat_lt.1 hshort
  have hadded : (c.add chunk).date = Mark.date (log ++ [.arrived chunk]) := by
    rw [date_arrived, ← hdate]
    rfl
  have hnear (hbound : Bounded n (log ++ [.arrived chunk])) :
      Chunk.amount (untilCut (log ++ [.arrived chunk])) <
        Block.amount (blocks (log ++ [.arrived chunk])) + n.toNat := by
    have hamount := hamount hbound.of_append
    rw [← untilCut_append_sinceCut, Chunk.amount_append] at hamount
    rw [untilCut_arrived, blocks_append, blocks_arrived, List.append_nil]
    omega
  obtain ⟨hcuts, hleft⟩ :=
    fits_cut size hn hadded (fun hbound _ => hnear hbound) (atCuts_arrived hfits chunk)
  obtain ⟨hsum, hless⟩ := amount_cut size hn (c.add chunk)
  refine ⟨hcuts, hleft, ?_, hless⟩
  intro hbound
  have hamount := hamount hbound.of_append.of_append
  have hs : chunk.count.toNat + n.toNat < 2 ^ 32 := hbound.of_append chunk (by simp)
  have hsamples : (c.add chunk).samples.toNat = c.samples.toNat + chunk.count.toNat := by
    simp only [add, UInt32.toNat_add]
    omega
  simp only [chunks_append, blocks_append, chunks_arrived, blocks_arrived, chunks_map_cut,
    blocks_map_cut, List.append_nil, Chunk.amount_append, Block.amount_append,
    Chunk.amount_singleton]
  omega

/-- The last block. -/
theorem tail (hc : c.Follows n log) (hfits : AtCuts (Fits n) log) :
    AtCuts (Fits n) (log ++ c.tail.toList.map .cut) := by
  obtain ⟨hdate, hamount, -⟩ := hc
  cases h : c.tail with
  | none =>
    rw [Option.toList_none, List.map_nil, List.append_nil]
    exact hfits
  | some b =>
    unfold Cutter.tail at h
    split at h
    · cases h
    · cases h
      refine atCuts_cut hfits ⟨by rw [← hdate], ?_⟩
      rintro hbound ⟨found, hfound, hpos⟩
      have hamount := hamount hbound
      have hsince : 0 < Chunk.amount (sinceCut log) := Chunk.amount_pos hfound hpos
      rw [← untilCut_append_sinceCut, Chunk.amount_append] at hamount
      rw [Block.amount_append, Block.amount_singleton]
      simp only
      omega

end Follows

end Cutter

namespace Recording

open Mark

/-- What an event adds to the log. -/
def marks (r : Recording) (e : Event) : List Mark :=
  (r.accepted e).toList.map .arrived ++ (r.handed e).map .cut

/-- The log of a run. -/
def log (r : Recording) (es : List Event) : List Mark := r.gather marks es

theorem chunks_log (r : Recording) (es : List Event) : chunks (r.log es) = r.allAccepted es := by
  induction es generalizing r with
  | nil => rfl
  | cons e es ih =>
    have hrest := ih (r.handle e)
    simp only [log, allAccepted, gather, marks, chunks_append, chunks_map_arrived,
      chunks_map_cut, List.append_nil] at hrest ⊢
    rw [hrest]

theorem blocks_log (r : Recording) (es : List Event) : blocks (r.log es) = r.allHanded es := by
  induction es generalizing r with
  | nil => rfl
  | cons e es ih =>
    have hrest := ih (r.handle e)
    simp only [log, allHanded, gather, marks, blocks_append, blocks_map_arrived,
      blocks_map_cut, List.nil_append] at hrest ⊢
    rw [hrest]

/-- The state of a session that has a log: every block follows it, and the next one will. -/
structure Logged (n : UInt32) (log : List Mark) (r : Recording) : Prop where
  /-- The blocks have one size. -/
  config : r.config.blockSamples = n
  /-- The tape is open. -/
  opened : r.stage ≠ .opening
  /-- Nothing has happened before the loop is entered. -/
  fresh : r.stage = .ready → log = []
  /-- The cutter has what has not been cut. -/
  follows : r.stage = .looping → r.cutter.Follows n log
  /-- The blocks follow the log. -/
  fits : AtCuts (Fits n) log

namespace Logged

variable {n : UInt32} {r : Recording} {log : List Mark}

/-- **An event keeps to the log.** -/
theorem handle (hr : Logged n log r) (hn : 0 < n) (e : Event) :
    Logged n (log ++ r.marks e) (r.handle e) := by
  obtain ⟨hconfig, hopened, hfresh, hfollows, hfits⟩ := hr
  have hnext : (r.handle e).config.blockSamples = n := by rw [config_handle, hconfig]
  have hdeed := deed_handle r e
  unfold marks
  generalize r.handle e = later, r.accepted e = found, r.handed e = bs at hnext hdeed ⊢
  cases hdeed with
  | passed stage cutter =>
    rw [← stage] at hopened hfresh hfollows
    rw [← cutter] at hfollows
    rw [Option.toList_none, List.map_nil, List.map_nil, List.append_nil, List.append_nil]
    exact ⟨hnext, hopened, hfresh, hfollows, hfits⟩
  | opened stage => exact absurd stage hopened
  | entered stage next cutter =>
    rw [hfresh stage]
    refine ⟨hnext, by simp [next], by simp [next], fun _ => ?_, atCuts_nil⟩
    rw [cutter]
    exact ⟨rfl, fun _ => rfl, hn⟩
  | took c stage next whole cutter =>
    rw [hconfig] at cutter ⊢
    obtain ⟨hcuts, hleft⟩ := (hfollows stage).take r.sampleSize hn hfits
    rw [Option.toList_some, List.map_singleton, ← List.append_assoc]
    refine ⟨hnext, by simp [next], by simp [next], fun _ => ?_, hcuts⟩
    rw [cutter]
    exact hleft
  | left stage next =>
    rw [Option.toList_none, List.map_nil, List.nil_append]
    exact ⟨hnext, by simp [next], by simp [next], by simp [next], (hfollows stage).tail hfits⟩
  | finished stage next =>
    rw [Option.toList_none, List.map_nil, List.map_nil, List.append_nil, List.append_nil]
    exact ⟨hnext, by simp [next], by simp [next], by simp [next], hfits⟩

/-- **So does a run.** -/
theorem run (hr : Logged n log r) (hn : 0 < n) (es : List Event) :
    Logged n (log ++ r.log es) (r.run es) := by
  induction es generalizing r log with
  | nil =>
    rw [Recording.log, gather, List.append_nil]
    exact hr
  | cons e es ih =>
    have hrest := ih (hr.handle hn e)
    rw [List.append_assoc] at hrest
    exact hrest

end Logged

/-- **The dates of a session.**  Whatever the sizes of the chunks and of the blocks, and
whatever ends the loop: a block has the date of the first chunk that arrived after the block
before it was cut, and the date zero if none did; such a chunk, if samples have come with it
or after it and their number does not wrap around, begins before the block ends.  So if a chunk
arrives between any two blocks and the chunks are in order, the dates of the blocks are dates
of chunks and in order too. -/
theorem dates_of_run {start : Recording} (hv : start.config.validate = none)
    (hp : start.phase = .starting) (es : List Event) :
    let log := start.log es
    chunks log = start.allAccepted es ∧ blocks log = start.allHanded es ∧
      (∀ before b after, log = before ++ .cut b :: after →
        b.timestamp = ((sinceCut before).head?.map fun c => c.timestamp).getD 0 ∧
          ((∀ c ∈ chunks before, c.count.toNat + start.config.blockSamples.toNat < 2 ^ 32) →
            (∃ c ∈ sinceCut before, 0 < c.count) →
            Chunk.amount (untilCut before) < Block.amount (blocks before ++ [b]))) ∧
      ((∀ before b after, log = before ++ .cut b :: after → sinceCut before ≠ []) →
        ((start.allAccepted es).Pairwise fun c c' => c.timestamp ≤ c'.timestamp) →
        ((start.allHanded es).Pairwise fun b b' => b.timestamp ≤ b'.timestamp) ∧
          ∀ b ∈ start.allHanded es, ∃ c ∈ start.allAccepted es, b.timestamp = c.timestamp) := by
  intro log
  have hn : 0 < start.config.blockSamples := RecorderConfig.blockSamples_pos hv
  have hstage : start.stage = .ready := by rw [stage, hp]
  have hready : Logged start.config.blockSamples [] start :=
    ⟨rfl, by simp [hstage], fun _ => rfl, by simp [hstage], atCuts_nil⟩
  have hfits : AtCuts (Fits start.config.blockSamples) log := (hready.run hn es).fits
  refine ⟨chunks_log start es, blocks_log start es, ?_, ?_⟩
  · intro before b after h
    exact ⟨(hfits before b after h).date, (hfits before b after h).timely⟩
  · intro hfresh hsorted
    rw [← chunks_log] at hsorted
    have hdates : AtCuts (fun before b => b.timestamp = (Mark.date before).getD 0) log :=
      fun before b after h => (hfits before b after h).date
    obtain ⟨hpairs, hfound⟩ := sorted_of_dated hdates hfresh hsorted
    rw [← blocks_log, ← chunks_log, ← untilCut_append_sinceCut]
    refine ⟨hpairs, ?_⟩
    intro b hb
    obtain ⟨c, hc, hsame⟩ := hfound b hb
    exact ⟨c, List.mem_append_left _ hc, hsame⟩

/-- Three chunks in order, of three samples, two and one. -/
def datedEvents : List Event :=
  [.step ⟨0, 0⟩, .offer ⟨7, 3, [1, 2, 3, 4, 5, 6, 7, 8, 9, 10, 11, 12]⟩, .step ⟨1, 0⟩,
    .step ⟨2, 0⟩, .offer ⟨9, 2, [1, 2, 3, 4, 5, 6, 7, 8]⟩, .step ⟨3, 0⟩, .step ⟨4, 0⟩,
    .offer ⟨12, 1, [1, 2, 3, 4]⟩, .step ⟨5, 0⟩, .step ⟨6, 0⟩]

/-- They fill three blocks of two samples, with the date of one chunk each. -/
theorem dates_of_run_of_datedEvents :
    sampleStart.config.validate = none ∧ sampleStart.phase = .starting ∧
      (∀ before b after, sampleStart.log datedEvents = before ++ .cut b :: after →
        sinceCut before ≠ []) ∧
      ((sampleStart.allAccepted datedEvents).Pairwise fun c c' => c.timestamp ≤ c'.timestamp) ∧
      ((sampleStart.allHanded datedEvents).map fun b => b.timestamp) = [7, 9, 12] ∧
      ((sampleStart.allHanded datedEvents).Pairwise fun b b' => b.timestamp ≤ b'.timestamp) ∧
      ∀ b ∈ sampleStart.allHanded datedEvents, ∃ c ∈ sampleStart.allAccepted datedEvents,
        b.timestamp = c.timestamp := by
  have hv : sampleStart.config.validate = none := by decide +kernel
  have hlog : sampleStart.log datedEvents =
      [] ++ [.arrived ⟨7, 3, [1, 2, 3, 4, 5, 6, 7, 8, 9, 10, 11, 12]⟩] ++
        [.cut ⟨7, 2, [1, 2, 3, 4, 5, 6, 7, 8], false⟩] ++
        [.arrived ⟨9, 2, [1, 2, 3, 4, 5, 6, 7, 8]⟩] ++
        [.cut ⟨9, 2, [9, 10, 11, 12, 1, 2, 3, 4], false⟩] ++ [.arrived ⟨12, 1, [1, 2, 3, 4]⟩] ++
        [.cut ⟨12, 2, [5, 6, 7, 8, 1, 2, 3, 4], false⟩] := by decide +kernel
  have hfresh : AtCuts (fun before _ => sinceCut before ≠ []) (sampleStart.log datedEvents) := by
    rw [hlog]
    refine atCuts_cut (atCuts_arrived (atCuts_cut (atCuts_arrived (atCuts_cut
      (atCuts_arrived atCuts_nil _) ?_) _) ?_) _) ?_ <;> decide
  have hsorted : (sampleStart.allAccepted datedEvents).Pairwise
      fun c c' => c.timestamp ≤ c'.timestamp := by decide +kernel
  have hthree : ((sampleStart.allHanded datedEvents).map fun b => b.timestamp) = [7, 9, 12] := by
    decide +kernel
  obtain ⟨-, -, -, horder⟩ := dates_of_run hv rfl datedEvents
  obtain ⟨hpairs, hfound⟩ := horder hfresh hsorted
  exact ⟨hv, rfl, hfresh, hsorted, hthree, hpairs, hfound⟩

/-- A recorder whose blocks have one sample, before the session is set up. -/
def singleStart : Recording :=
  { idle { RecorderConfig.initial with blockSamples := 1, capacity := 64 } 0 with
    phase := .starting }

/-- A chunk of two samples is recorded, and the device ends. -/
def singleEvents : List Event :=
  [.step ⟨0, 0⟩, .offer ⟨7, 2, [1, 2, 3, 4, 5, 6, 7, 8]⟩, .step ⟨1, 0⟩, .step ⟨2, 0⟩,
    .deviceDone true, .step ⟨3, 0⟩, .step ⟨4, 0⟩, .step ⟨5, 0⟩]

/-- **A chunk for two blocks.**  The settings are valid and there is only one chunk, so the
chunks are in order; but the second of its blocks has a date that no chunk has, and the dates
of the blocks go back. -/
theorem undated_block_of_long_chunk :
    singleStart.config.validate = none ∧
      ((singleStart.allAccepted singleEvents).map fun c => c.timestamp) = [7] ∧
      (singleStart.run singleEvents).hasLeftLoop = true ∧
      ((singleStart.allHanded singleEvents).map fun b => b.timestamp) = [7, 0] ∧
      (∃ b ∈ singleStart.allHanded singleEvents,
        ∀ c ∈ singleStart.allAccepted singleEvents, b.timestamp ≠ c.timestamp) ∧
      ¬(singleStart.allHanded singleEvents).Pairwise fun b b' => b.timestamp ≤ b'.timestamp := by
  decide +kernel

end Recording

end IqTape
