import IqTape.Proofs.Tape.Window

/-!
# Damage stays where it is

The body of a damaged tape is a mixture of frames and junk.  As long as no frame starts
inside the junk, a scan drops the junk byte by byte and comes out exactly at the next
frame, so the damage costs only what it touched.

## Main definitions

* `Segment` — a stretch of a body, a frame or junk.
* `Segment.Fits` — the stretches are what they say.
* `Segment.runs` — the runs of junk between the frames.
* `Segment.Mismatches` — somewhere in a run a checksum fails.
* `Segment.IsDamagedFrame` — a run is one frame whose length is intact.

## Main results

* `Scan.next_run` — a run of junk is passed over.
* `Segment.drainFor_runsFrom` — what a scan finds in a damaged body.
* `Segment.mismatches_of_isDamagedFrame` — a damaged frame is noticed.
* `Reader.drain_of_segments` — **damage stays local**.
-/

namespace IqTape

/-- A stretch of the body of a tape. -/
inductive Segment
  /-- A frame, and the block that it gives. -/
  | frame (bytes : Bytes) (b : Block)
  /-- Bytes at which no frame starts. -/
  | junk (bytes : Bytes)
  deriving DecidableEq, Repr, Inhabited

namespace Segment

/-- The bytes of a stretch. -/
def bytes : Segment → Bytes
  | frame bs _ => bs
  | junk bs => bs

/-- The body that some stretches make up. -/
def body (segments : List Segment) : Bytes := segments.flatMap bytes

@[simp] theorem body_nil : body [] = [] := rfl

@[simp] theorem body_frame (bs : Bytes) (b : Block) (segments : List Segment) :
    body (.frame bs b :: segments) = bs ++ body segments := rfl

@[simp] theorem body_junk (bs : Bytes) (segments : List Segment) :
    body (.junk bs :: segments) = bs ++ body segments := rfl

/-- The blocks of the frames. -/
def blocks : List Segment → List Block
  | [] => []
  | .frame _ b :: rest => b :: blocks rest
  | .junk _ :: rest => blocks rest

/-- How many bytes the frames have. -/
def framedSize : List Segment → Nat
  | [] => 0
  | .frame bs _ :: rest => bs.length + framedSize rest
  | .junk _ :: rest => framedSize rest

/-- How many bytes are junk. -/
def junkSize : List Segment → Nat
  | [] => 0
  | .frame _ _ :: rest => junkSize rest
  | .junk bs :: rest => bs.length + junkSize rest

/-- Whether some bytes are the frame of a block that comes out. -/
def IsFrame (h : Header) (bs : Bytes) (b : Block) : Prop :=
  ∃ d, Block.decode h.form.packs bs = .ok (d, bs.length) ∧ d.accept h.format = .ok b

/-- Whether no frame starts at the front of some bytes. -/
def Undecodable (h : Header) (bs : Bytes) : Prop :=
  ∀ r, Block.decode h.form.packs bs ≠ .ok r

theorem undecodable_iff {h : Header} {bs : Bytes} :
    Undecodable h bs ↔ faultOf (Block.decode h.form.packs bs) ≠ none := by
  unfold Undecodable
  cases Block.decode h.form.packs bs with
  | ok r => exact iff_of_false (fun hr => hr r rfl) (fun hr => hr rfl)
  | error f => exact iff_of_true nofun nofun

instance (h : Header) (bs : Bytes) : Decidable (Undecodable h bs) :=
  decidable_of_iff' _ undecodable_iff

/-- Whether every frame is one and none starts inside the junk, whatever follows it. -/
def Fits (h : Header) : List Segment → Prop
  | [] => True
  | .frame bs b :: rest => IsFrame h bs b ∧ Fits h rest
  | .junk bs :: rest =>
    (∀ k < bs.length, Undecodable h ((bs ++ body rest).drop k)) ∧ Fits h rest

/-! ### Runs of junk -/

/-- The runs of junk in front of, between and behind the frames, each with the bytes
that follow it; `run` is junk that stands in front.  Where two frames touch, the run is
empty. -/
def runsFrom (run : Bytes) : List Segment → List (Bytes × Bytes)
  | [] => [(run, [])]
  | .frame bs _ :: rest => (run, bs ++ body rest) :: runsFrom [] rest
  | .junk bs :: rest => runsFrom (run ++ bs) rest

/-- The longest runs of junk in a body, each with the bytes that follow it. -/
def runs (segments : List Segment) : List (Bytes × Bytes) := runsFrom [] segments

/-- Whether a checksum fails somewhere in a run of junk.  Where too few bytes are left for
a frame, none does. -/
def Mismatches (h : Header) (run after : Bytes) : Prop :=
  ∃ k < run.length,
    faultOf (Block.decode h.form.packs ((run ++ after).drop k)) = some .checksumMismatch

instance (h : Header) (run after : Bytes) : Decidable (Mismatches h run after) :=
  inferInstanceAs (Decidable (∃ k < run.length, _))

/-- How many runs of junk have a checksum that fails. -/
def damagedRuns (h : Header) (rs : List (Bytes × Bytes)) : Nat :=
  rs.countP fun p => decide (Mismatches h p.1 p.2)

@[simp] theorem damagedRuns_cons (h : Header) (run after : Bytes) (rs : List (Bytes × Bytes)) :
    damagedRuns h ((run, after) :: rs) =
      (decide (Mismatches h run after)).toNat + damagedRuns h rs := by
  rw [damagedRuns, List.countP_cons, Nat.add_comm]
  cases decide (Mismatches h run after) <;> rfl

/-- Whether some bytes are a frame that has been damaged behind its length. -/
def IsDamagedFrame (h : Header) (run : Bytes) : Prop :=
  ∃ whole b, IsFrame h whole b ∧ run.length = whole.length ∧ run.take 4 = whole.take 4

/-! ### Frames and damage at the front -/

theorem overhead_le_of_isFrame {h : Header} {bs : Bytes} {b : Block} (hf : IsFrame h bs b) :
    Block.overhead ≤ bs.length := by
  obtain ⟨d, hd, -⟩ := hf
  exact Block.overhead_le_of_decode hd

/-- The frame of a block is one, if the block as it is stored comes out as `b`. -/
theorem isFrame_frame {h : Header} {stored b : Block} (hp : stored.packed = h.form.packs)
    (hs : stored.frameSize ≤ Block.maxFrame) (ha : stored.accept h.format = .ok b) :
    IsFrame h stored.frame b := by
  refine ⟨stored, ?_, ha⟩
  have hdecode := Block.decode_frame h.form.packs stored [] hs
  rw [List.append_nil, ← hp] at hdecode
  rw [← hp, hdecode, Block.length_frame]

/-- A frame shows its block, whatever follows. -/
theorem examine_of_isFrame {h : Header} {bs : Bytes} {b : Block} (hf : IsFrame h bs b)
    (more : Bytes) : Reader.examine h (bs ++ more) = .good b bs.length := by
  obtain ⟨d, hd, ha⟩ := hf
  rw [Reader.examine, Block.decode_append more (by rw [hd]; nofun), hd]
  simp only [ha]

theorem examine_of_undecodable {h : Header} {bs : Bytes} (hu : Undecodable h bs) :
    ∃ f, Reader.examine h bs = .nothing f ∧
      faultOf (Block.decode h.form.packs bs) = some f := by
  cases hd : Block.decode h.form.packs bs with
  | ok r => exact absurd hd (hu r)
  | error f => exact ⟨f, by rw [Reader.examine, hd], rfl⟩

/-- Nothing is damaged in an empty run. -/
theorem not_mismatches_nil (h : Header) (after : Bytes) : ¬Mismatches h [] after := by
  rintro ⟨k, hk, -⟩
  exact absurd hk (Nat.not_lt_zero k)

/-- The first byte of a run decides, or those behind it do. -/
theorem mismatches_cons {h : Header} {x : UInt8} {run after : Bytes} :
    Mismatches h (x :: run) after ↔
      faultOf (Block.decode h.form.packs (x :: (run ++ after))) = some .checksumMismatch ∨
        Mismatches h run after := by
  constructor
  · rintro ⟨k, hk, hf⟩
    cases k with
    | zero => exact .inl hf
    | succ k => exact .inr ⟨k, Nat.lt_of_succ_lt_succ hk, hf⟩
  · rintro (hf | ⟨k, hk, hf⟩)
    · exact ⟨0, Nat.succ_pos _, hf⟩
    · exact ⟨k + 1, Nat.succ_lt_succ hk, hf⟩

/-- The last bytes of a body cannot hold a frame, so no checksum fails there. -/
theorem mismatches_append_of_short (h : Header) (run : Bytes) {post : Bytes}
    (hp : post.length < Block.overhead) :
    Mismatches h (run ++ post) [] ↔ Mismatches h run post := by
  simp only [Mismatches, List.append_nil]
  constructor
  · rintro ⟨k, hk, hf⟩
    by_cases hrun : k < run.length
    · exact ⟨k, hrun, hf⟩
    · rw [Block.decode_of_short (by rw [List.length_drop]; simp at hk ⊢; omega)] at hf
      cases hf
  · rintro ⟨k, hk, hf⟩
    exact ⟨k, by rw [List.length_append]; omega, hf⟩

end Segment

namespace ReadCounts

/-- The counters after a run of junk. -/
def passed (c : ReadCounts) (n : Nat) (damaged : Bool) : ReadCounts :=
  { c with
    corrupted := c.corrupted + damaged.toNat.toUInt64
    skipped := c.skipped + n.toUInt64 }

@[simp] theorem passed_zero (c : ReadCounts) : c.passed 0 false = c := by simp [passed]

/-- A run of junk is its first byte and the run behind it, and counts once. -/
theorem passed_dropped (c : ReadCounts) (n : Nat) (counted first later : Bool) :
    (c.dropped (first && !counted)).passed n (later && !(counted || (first && !counted))) =
      c.passed (n + 1) ((first || later) && !counted) := by
  have hskipped := add_one_add_toUInt64 c.skipped n
  cases counted <;> cases first <;> cases later <;> simp [passed, dropped, hskipped]

end ReadCounts

namespace Scan

open Segment

/-- **A run of junk is passed over**, and is counted if a checksum fails in it. -/
theorem next_run {h : Header} (run after : Bytes)
    (hjunk : ∀ k < run.length, Undecodable h ((run ++ after).drop k))
    (hroom : run ≠ [] → Block.overhead ≤ after.length + 1) (counted : Bool) (c : ReadCounts) :
    next h ⟨run ++ after, counted, c⟩ =
      next h ⟨after, counted || decide (Mismatches h run after),
        c.passed run.length (decide (Mismatches h run after) && !counted)⟩ := by
  induction run generalizing counted c with
  | nil =>
    rw [decide_eq_false (not_mismatches_nil h after), Bool.or_false, Bool.false_and,
      List.length_nil, ReadCounts.passed_zero]
    rfl
  | cons x run ih =>
    have hafter := hroom (List.cons_ne_nil x run)
    have hc : Bytes.covers (x :: (run ++ after)) Block.overhead = true := by
      rw [Bytes.covers_iff, List.length_cons, List.length_append]
      omega
    have hfront : Undecodable h (x :: (run ++ after)) := hjunk 0 (Nat.succ_pos _)
    obtain ⟨f, he, hf⟩ := examine_of_undecodable hfront
    have hlater : ∀ k < run.length, Undecodable h ((run ++ after).drop k) :=
      fun k hk => hjunk (k + 1) (Nat.succ_lt_succ hk)
    have hfirst : decide (Mismatches h (x :: run) after) =
        (decide (f = .checksumMismatch) || decide (Mismatches h run after)) := by
      rw [← Bool.decide_or]
      refine decide_eq_decide.2 (mismatches_cons.trans (or_congr_left ?_))
      rw [hf, Option.some.injEq]
    -- The first byte is dropped, and the run behind it knows whether it has been counted.
    rw [List.cons_append, next_of_nothing hc he, drop, List.drop_one, List.tail_cons,
      ih hlater fun _ => hafter, ReadCounts.passed_dropped, hfirst, List.length_cons]
    congr 2
    cases counted <;> simp

/-- Junk at the end of a body is dropped up to the bytes that are too few for a frame. -/
theorem next_of_junk {h : Header} {run : Bytes}
    (hjunk : ∀ k < run.length, Undecodable h (run.drop k)) (c : ReadCounts) :
    next h ⟨run, false, c⟩ =
      (none, ⟨run.drop (run.length - 19), decide (Mismatches h run []),
        c.passed (run.length - 19) (decide (Mismatches h run []))⟩) := by
  have hcut : run.take (run.length - 19) ++ run.drop (run.length - 19) = run :=
    List.take_append_drop _ _
  have hshort : (run.drop (run.length - 19)).length < Block.overhead := by
    rw [List.length_drop, Block.overhead]
    omega
  have hlen : (run.take (run.length - 19)).length = run.length - 19 :=
    List.length_take_of_le (Nat.sub_le _ _)
  have hpass := next_run (h := h) (run.take (run.length - 19)) (run.drop (run.length - 19))
    (by rw [hcut, hlen]; exact fun k hk => hjunk k (by omega))
    (by
      intro hne
      have hpos := List.length_pos_iff.2 hne
      rw [hlen] at hpos
      rw [List.length_drop, Block.overhead]
      omega) false c
  have hsame := mismatches_append_of_short h (run.take (run.length - 19)) hshort
  rw [hcut] at hsame hpass
  rw [hpass, next_of_short hshort, hlen, Bool.not_false, Bool.and_true, Bool.false_or,
    decide_eq_decide.2 hsame]

end Scan

namespace Segment

variable {h : Header} {segments : List Segment}

/-- Junk in front of junk is junk. -/
theorem undecodable_append {run bs : Bytes} {rest : List Segment}
    (hrun : ∀ k < run.length, Undecodable h ((run ++ body (.junk bs :: rest)).drop k))
    (hbs : ∀ k < bs.length, Undecodable h ((bs ++ body rest).drop k)) :
    ∀ k < (run ++ bs).length, Undecodable h ((run ++ bs ++ body rest).drop k) := by
  intro k hk
  rw [List.append_assoc]
  rcases Nat.lt_or_ge k run.length with hlt | hge
  · exact hrun k hlt
  · rw [List.length_append] at hk
    rw [List.drop_append, List.drop_of_length_le hge, List.nil_append]
    exact hbs (k - run.length) (by omega)

theorem undecodable_nil (h : Header) (after : Bytes) :
    ∀ k < ([] : Bytes).length, Undecodable h (([] ++ after).drop k) :=
  fun k hk => absurd hk (Nat.not_lt_zero k)

/-- What a scan that starts behind some junk has found at the end of a body. -/
structure Found (h : Header) (c : ReadCounts) (run : Bytes) (segments : List Segment)
    (last : List (Block × ReadCounts) × Scan) : Prop where
  /-- The blocks of the frames have come out. -/
  blocks : last.1.map Prod.fst = Segment.blocks segments
  /-- Each is counted. -/
  count : last.2.counts.blocks = c.blocks + (Segment.blocks segments).length.toUInt64
  /-- So are its samples. -/
  samples : last.2.counts.samples = c.samples + Block.total (Segment.blocks segments)
  /-- So are its bytes. -/
  processed : last.2.counts.processed = c.processed + (framedSize segments).toUInt64
  /-- The junk has been dropped, except for what is left. -/
  skipped : ∃ dropped : Nat, last.2.counts.skipped = c.skipped + dropped.toUInt64 ∧
    dropped + last.2.rest.length = run.length + junkSize segments
  /-- Too little is left for a frame. -/
  short : last.2.rest.length < Block.overhead
  /-- What is left is the end of the body. -/
  suffix : last.2.rest <:+ run ++ body segments
  /-- Each run with a checksum that fails is counted. -/
  corrupted : last.2.counts.corrupted =
    c.corrupted + (damagedRuns h (runsFrom run segments)).toUInt64

/-- **A scan finds every frame and counts every run of junk.** -/
theorem drainFor_runsFrom (hs : Fits h segments) {run : Bytes}
    (hrun : ∀ k < run.length, Undecodable h ((run ++ body segments).drop k)) (c : ReadCounts)
    (calls : Nat) (hcalls : (body segments).length < calls) :
    Found h c run segments (Scan.drainFor h calls ⟨run ++ body segments, false, c⟩) := by
  induction segments generalizing run c calls with
  | nil =>
    obtain ⟨calls, rfl⟩ : ∃ n, calls = n + 1 := ⟨calls - 1, by omega⟩
    rw [body_nil, List.append_nil] at hrun ⊢
    rw [Scan.drainFor_of_none (Scan.next_of_junk hrun c)]
    refine ⟨rfl, (UInt64.add_zero _).symm, (UInt64.add_zero _).symm, (UInt64.add_zero _).symm,
      ⟨run.length - 19, rfl, ?_⟩, ?_, ?_, ?_⟩
    · simp only [List.length_drop, junkSize]
      omega
    · simp only [List.length_drop, Block.overhead]
      omega
    · rw [body_nil, List.append_nil]
      exact List.drop_suffix _ _
    · rw [runsFrom, damagedRuns_cons]
      rfl
  | cons segment rest ih =>
    cases segment with
    | frame bs b =>
      obtain ⟨hframe, hrest⟩ := hs
      have hroom := overhead_le_of_isFrame hframe
      obtain ⟨calls, rfl⟩ : ∃ n, calls = n + 1 := ⟨calls - 1, by omega⟩
      -- One call passes over the junk in front and gives the block of the frame.
      have hnext : Scan.next h ⟨run ++ body (.frame bs b :: rest), false, c⟩ =
          (some b, ⟨[] ++ body rest, false,
            (c.passed run.length (decide (Mismatches h run (bs ++ body rest)))).returned b
              bs.length⟩) := by
        rw [Scan.next_run run _ hrun (fun _ => by rw [body_frame, List.length_append]; omega),
          Bool.not_false, Bool.and_true, Scan.next_of_good
            (by rw [Bytes.covers_iff, body_frame, List.length_append]; omega)
            (examine_of_isFrame hframe _), body_frame, List.drop_left]
        rfl
      have hlen : (body rest).length < calls := by
        rw [body_frame, List.length_append] at hcalls
        simp only [Block.overhead] at hroom
        omega
      have hfound := ih hrest (undecodable_nil h (body rest))
        ((c.passed run.length (decide (Mismatches h run (bs ++ body rest)))).returned b bs.length)
        calls hlen
      rw [Scan.drainFor_of_some hnext]
      refine ⟨?_, ?_, ?_, ?_, ?_, hfound.short, ?_, ?_⟩
      · rw [List.map_cons, hfound.blocks, Segment.blocks]
      · rw [hfound.count, Segment.blocks, List.length_cons, ← add_one_add_toUInt64]
        rfl
      · rw [hfound.samples, Segment.blocks, Block.total_cons, ← UInt64.add_assoc]
        rfl
      · rw [hfound.processed, framedSize, toUInt64_add, ← UInt64.add_assoc]
        rfl
      · obtain ⟨dropped, hdropped, hjunk⟩ := hfound.skipped
        refine ⟨run.length + dropped, ?_, ?_⟩
        · rw [hdropped, toUInt64_add, ← UInt64.add_assoc]
          rfl
        · rw [Nat.add_assoc, hjunk, List.length_nil, Nat.zero_add]
          rfl
      · exact hfound.suffix.trans ((List.suffix_append _ _).trans (List.suffix_append _ _))
      · rw [hfound.corrupted, runsFrom, damagedRuns_cons, toUInt64_add, ← UInt64.add_assoc]
        rfl
    | junk bs =>
      obtain ⟨hjunk, hrest⟩ := hs
      have hlen : (body rest).length < calls := by
        rw [body_junk, List.length_append] at hcalls
        omega
      -- The junk only makes the run in front longer.
      have hfound := ih hrest (undecodable_append hrun hjunk) c calls hlen
      rw [List.append_assoc] at hfound
      obtain ⟨dropped, hdropped, hlength⟩ := hfound.skipped
      rw [body_junk]
      refine ⟨hfound.blocks, hfound.count, hfound.samples, hfound.processed,
        ⟨dropped, hdropped, ?_⟩, hfound.short, ?_, hfound.corrupted⟩
      · rw [hlength, junkSize, List.length_append]
        omega
      · have hsuffix := hfound.suffix
        rwa [List.append_assoc] at hsuffix

/-! ### A damaged frame is noticed -/

/-- No frame starts inside a longest run of junk. -/
theorem undecodable_of_mem_runsFrom (hs : Fits h segments) {run : Bytes}
    (hrun : ∀ k < run.length, Undecodable h ((run ++ body segments).drop k)) :
    ∀ p ∈ runsFrom run segments, ∀ k < p.1.length, Undecodable h ((p.1 ++ p.2).drop k) := by
  induction segments generalizing run with
  | nil =>
    intro p hp
    rw [runsFrom, List.mem_singleton] at hp
    subst hp
    exact hrun
  | cons segment rest ih =>
    cases segment with
    | frame bs b =>
      intro p hp
      rw [runsFrom, List.mem_cons] at hp
      rcases hp with rfl | hp
      · exact hrun
      · exact ih hs.2 (undecodable_nil h (body rest)) p hp
    | junk bs => exact ih hs.2 (undecodable_append hrun hs.1)

/-- A checksum fails at the front of a run that declares a length which a frame may have and
which is there, unless a frame starts in it. -/
theorem mismatches_of_declared {run after : Bytes} (hroom : Block.overhead ≤ run.length)
    (hp : Block.Plausible (Block.declared run))
    (hn : Block.declared run + Block.envelope ≤ (run ++ after).length)
    (hrun : ∀ k < run.length, Undecodable h ((run ++ after).drop k)) :
    Mismatches h run after := by
  have hpos : 0 < run.length := Nat.lt_of_lt_of_le (by decide) hroom
  have hdeclared : Block.declared (run ++ after) = Block.declared run :=
    Block.declared_append after hroom
  have hcases : Block.decode h.form.packs (run ++ after) = .error .checksumMismatch ∨
      ∃ r, Block.decode h.form.packs (run ++ after) = .ok r :=
    Block.decode_of_covered (by rw [List.length_append]; omega) (by rw [hdeclared]; exact hp)
      (by rw [hdeclared]; exact hn)
  refine ⟨0, hpos, ?_⟩
  rw [List.drop_zero]
  rcases hcases with hm | ⟨r, hr⟩
  · rw [hm]
    rfl
  · exact absurd hr (hrun 0 hpos r)

/-- **A frame that is damaged behind its length fails its checksum**, unless it is a
frame again. -/
theorem mismatches_of_isDamagedFrame {run after : Bytes} (hd : IsDamagedFrame h run)
    (hrun : ∀ k < run.length, Undecodable h ((run ++ after).drop k)) :
    Mismatches h run after := by
  obtain ⟨whole, b, ⟨d, hdecode, -⟩, hlen, hfront⟩ := hd
  obtain ⟨hroom, hplaus, hsize, -, -⟩ := Block.of_decode_eq_ok hdecode
  -- The length in front is the one of the whole frame, so decoding gets to the checksum.
  have hdeclared : Block.declared run = Block.declared whole := by
    rw [Block.declared, hfront, Block.declared]
  refine mismatches_of_declared (hlen ▸ hroom) (by rw [hdeclared]; exact hplaus) ?_ hrun
  rw [hdeclared, List.length_append]
  omega

/-! ### A body without damage -/

/-- The frames of some blocks, as they are stored. -/
def ofBlocks (stored : Block → Block) (bs : List Block) : List Segment :=
  bs.map fun b => .frame (stored b).frame b

variable {stored : Block → Block} {bs : List Block}

theorem body_ofBlocks (stored : Block → Block) (bs : List Block) :
    body (ofBlocks stored bs) = bs.flatMap fun b => (stored b).frame := by
  rw [body, ofBlocks, List.flatMap_map]
  rfl

/-- Frames in front of other stretches give their blocks first. -/
theorem blocks_ofBlocks_append (stored : Block → Block) (bs : List Block) (rest : List Segment) :
    blocks (ofBlocks stored bs ++ rest) = bs ++ blocks rest := by
  induction bs with
  | nil => rfl
  | cons b bs ih => exact congrArg (b :: ·) ih

theorem junkSize_ofBlocks_append (stored : Block → Block) (bs : List Block)
    (rest : List Segment) : junkSize (ofBlocks stored bs ++ rest) = junkSize rest := by
  induction bs with
  | nil => rfl
  | cons b bs ih => exact ih

theorem fits_ofBlocks_append (hs : ∀ b ∈ bs, IsFrame h (stored b).frame b)
    {rest : List Segment} (hrest : Fits h rest) : Fits h (ofBlocks stored bs ++ rest) := by
  induction bs with
  | nil => exact hrest
  | cons b bs ih =>
    exact ⟨hs b List.mem_cons_self, ih fun b' hb' => hs b' (List.mem_cons_of_mem b hb')⟩

/-- Frames in front of other stretches are no damage. -/
theorem damagedRuns_ofBlocks_append (h : Header) (stored : Block → Block) (bs : List Block)
    (rest : List Segment) :
    damagedRuns h (runsFrom [] (ofBlocks stored bs ++ rest)) =
      damagedRuns h (runsFrom [] rest) := by
  induction bs with
  | nil => rfl
  | cons b bs ih =>
    have hruns : runsFrom [] (ofBlocks stored (b :: bs) ++ rest) =
        ([], (stored b).frame ++ body (ofBlocks stored bs ++ rest)) ::
          runsFrom [] (ofBlocks stored bs ++ rest) := rfl
    rw [hruns, damagedRuns_cons, decide_eq_false (not_mismatches_nil h _), ih]
    exact Nat.zero_add _

theorem blocks_ofBlocks (stored : Block → Block) (bs : List Block) :
    blocks (ofBlocks stored bs) = bs := by
  rw [← List.append_nil (ofBlocks stored bs), blocks_ofBlocks_append]
  exact List.append_nil bs

theorem junkSize_ofBlocks (stored : Block → Block) (bs : List Block) :
    junkSize (ofBlocks stored bs) = 0 := by
  rw [← List.append_nil (ofBlocks stored bs), junkSize_ofBlocks_append]
  rfl

theorem framedSize_ofBlocks (stored : Block → Block) (bs : List Block) :
    framedSize (ofBlocks stored bs) = (body (ofBlocks stored bs)).length := by
  induction bs with
  | nil => rfl
  | cons b bs ih =>
    rw [ofBlocks, List.map_cons, framedSize, body_frame, List.length_append, ← ofBlocks, ih]

/-- Where there is no junk, nothing is damaged. -/
theorem damagedRuns_ofBlocks (h : Header) (stored : Block → Block) (bs : List Block) :
    damagedRuns h (runsFrom [] (ofBlocks stored bs)) = 0 := by
  rw [← List.append_nil (ofBlocks stored bs), damagedRuns_ofBlocks_append, runsFrom,
    damagedRuns_cons, decide_eq_false (not_mismatches_nil h _)]
  rfl

theorem fits_ofBlocks (hs : ∀ b ∈ bs, IsFrame h (stored b).frame b) :
    Fits h (ofBlocks stored bs) := by
  rw [← List.append_nil (ofBlocks stored bs)]
  exact fits_ofBlocks_append hs trivial

end Segment

namespace Reader

open Segment

/-- **Damage stays local.**  Of a body that is frames and junk in any order, the reader
gives the blocks of all the frames and nothing else.  Every byte of a frame is counted as
used and every byte of junk as dropped, except for fewer than a frame's overhead at the
end; every longest run of junk in which a checksum fails is counted once, and a frame that
is damaged behind its length is such a run.  The counters are words. -/
theorem drain_of_segments (r : Reader) {mark : Bytes} {h : Header}
    (hm : mark.length = Header.size) (hd : Header.decode mark = .ok h)
    {segments : List Segment} (hs : Fits h segments) :
    let opened := r.openSource (.ofBytes (mark ++ body segments))
    let last := opened.1.drain
    opened.2 = none ∧ last.1.map Prod.fst = blocks segments ∧
      last.2.counts.processed = (framedSize segments).toUInt64 ∧
      last.2.window.length ≤ junkSize segments ∧
      last.2.counts.skipped = (junkSize segments - last.2.window.length).toUInt64 ∧
      last.2.window.length < Block.overhead ∧ last.2.window <:+ body segments ∧
      last.2.counts.corrupted = (damagedRuns h (runs segments)).toUInt64 ∧
      ∀ p ∈ runs segments, IsDamagedFrame h p.1 → Mismatches h p.1 p.2 := by
  intro opened last
  have hempty := undecodable_nil h (body segments)
  have hfound : Found h .zero [] segments (Scan.drain h (body segments)) :=
    drainFor_runsFrom hs hempty .zero _ (Nat.lt_succ_self _)
  obtain ⟨hblocks, hcounts, hwindow, -, -⟩ := drain_of_reliable r hm hd (body segments)
  obtain ⟨dropped, hdropped, hjunk⟩ := hfound.skipped
  rw [List.length_nil, Nat.zero_add, ← hwindow] at hjunk
  refine ⟨?_, ?_, ?_, Nat.le.intro ((Nat.add_comm _ _).trans hjunk), ?_, ?_, ?_, ?_, ?_⟩
  · exact (opens_of_reliable r hm hd (body segments)).1
  · exact (congrArg _ hblocks).trans hfound.blocks
  · rw [hcounts]
    exact hfound.processed.trans (UInt64.zero_add _)
  · rw [hcounts, ← hjunk, Nat.add_sub_cancel]
    exact hdropped.trans (UInt64.zero_add _)
  · rw [hwindow]
    exact hfound.short
  · rw [hwindow]
    exact hfound.suffix
  · rw [hcounts]
    exact hfound.corrupted.trans (UInt64.zero_add _)
  · intro p hp hdamaged
    exact mismatches_of_isDamagedFrame hdamaged (undecodable_of_mem_runsFrom hs hempty p hp)

/-- A body of frames alone gives their blocks, with every byte used and none dropped. -/
theorem drain_of_frames (r : Reader) {mark : Bytes} {h : Header} (hm : mark.length = Header.size)
    (hd : Header.decode mark = .ok h) {stored : Block → Block} {bs : List Block}
    (hs : ∀ b ∈ bs, IsFrame h (stored b).frame b) :
    let body := bs.flatMap fun b => (stored b).frame
    let last := (r.openSource (.ofBytes (mark ++ body))).1.drain
    last.1.map Prod.fst = bs ∧
      last.2.counts = ⟨bs.length.toUInt64, 0, Block.total bs, body.length.toUInt64, 0⟩ ∧
      last.2.header = h ∧ last.2.error? = none := by
  intro body last
  have hbody : Segment.body (ofBlocks stored bs) = body := body_ofBlocks stored bs
  obtain ⟨hblocks, hcounts, hwindow, hheader, herror⟩ := drain_of_reliable r hm hd body
  have hfound : Found h .zero [] (ofBlocks stored bs) (Scan.drain h body) := by
    rw [← hbody]
    exact drainFor_runsFrom (fits_ofBlocks hs) (undecodable_nil h _) .zero _ (Nat.lt_succ_self _)
  obtain ⟨dropped, hdropped, hjunk⟩ := hfound.skipped
  rw [junkSize_ofBlocks] at hjunk
  refine ⟨?_, ?_, hheader, herror⟩
  · rw [hblocks]
    exact hfound.blocks.trans (blocks_ofBlocks stored bs)
  · rw [hcounts]
    have hcount := hfound.count
    have hsamples := hfound.samples
    have hprocessed := hfound.processed
    have hcorrupted := hfound.corrupted
    rw [blocks_ofBlocks] at hcount hsamples
    rw [framedSize_ofBlocks, hbody] at hprocessed
    rw [damagedRuns_ofBlocks] at hcorrupted
    generalize (Scan.drain h body).2.counts = counts at *
    obtain ⟨blocks, corrupted, samples, processed, skipped⟩ := counts
    simp only [ReadCounts.zero, List.length_nil, UInt64.zero_add, Nat.zero_add] at *
    rw [hcount, hsamples, hprocessed, hcorrupted, hdropped, Nat.eq_zero_of_add_eq_zero_right hjunk]
    rfl

/-- A damaged frame between two good ones, and three bytes of junk at the end. -/
def damagedSample : List Segment :=
  [.frame (Block.frame ⟨7, 1, [1, 2, 3, 4], false⟩) ⟨7, 1, [1, 2, 3, 4], false⟩,
    .junk ((Block.frame ⟨8, 1, [5, 6, 7, 8], false⟩).set 18 0),
    .frame (Block.frame ⟨9, 1, [5, 6, 7, 8], false⟩) ⟨9, 1, [5, 6, 7, 8], false⟩,
    .junk [1, 2, 3]]

/-- Both good frames of the sample come out, and one run of junk is counted. -/
theorem drain_of_damagedSample :
    let last := ((idle .standard).openSource
      (.ofBytes (Header.blank.encode ++ body damagedSample))).1.drain
    Header.blank.encode.length = Header.size ∧
      Header.decode Header.blank.encode = .ok Header.blank ∧ Fits .blank damagedSample ∧
      last.1.map Prod.fst = blocks damagedSample ∧
      last.2.counts.skipped = (27 - last.2.window.length).toUInt64 ∧
      last.2.counts.corrupted = 1 := by
  have hm := Header.length_encode .blank
  have hd := Header.decode_encode_self Header.isListed_blank
  have hs : Fits .blank damagedSample :=
    ⟨isFrame_frame rfl (by decide) rfl, by decide +kernel, isFrame_frame rfl (by decide) rfl,
      by decide +kernel, trivial⟩
  have hjunk : junkSize damagedSample = 27 := by decide +kernel
  have hruns : damagedRuns .blank (runs damagedSample) = 1 := by decide +kernel
  obtain ⟨-, hblocks, -, -, hskipped, -, -, hcorrupted, -⟩ :=
    drain_of_segments (idle .standard) hm hd hs
  rw [hjunk] at hskipped
  rw [hruns] at hcorrupted
  exact ⟨hm, hd, hs, hblocks, hskipped, hcorrupted⟩

end Reader

end IqTape
