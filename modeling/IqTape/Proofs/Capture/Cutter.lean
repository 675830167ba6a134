import IqTape.Capture.Cutter
import IqTape.Proofs.Tape.Payload

/-!
# Cutting loses nothing

Between two chunks a cutter has the bytes of its samples, and less than a block of them.
A chunk that is added is cut into full blocks, and what the blocks hold, with what is left
behind them, is what was there before.

## Main definitions

* `Cutter.Between` — the state between two chunks.
* `Cutter.Divides` — blocks that make up a cutter, with what is left.
* `Cutter.Underway`, `Cutter.Reblocks` — blocks made from a series of chunks.

## Main results

* `Cutter.cut_of_lt`, `Cutter.cut_of_le` — how cutting goes on.
* `Cutter.cut_induction` — the induction over it.
* `Cutter.amount_cut` — cutting loses no sample.
* `Cutter.divides_cut_add` — a chunk is divided.
* `Cutter.payload_tail` — the last block holds the rest.
* `Cutter.Underway.take`, `Cutter.Underway.reblocks` — a chunk more, and the end.
-/

namespace IqTape

/-- The bytes of some blocks, one behind the other. -/
def Block.payloads (bs : List Block) : Bytes := bs.flatMap fun b => b.payload

/-- The bytes of some chunks, one behind the other. -/
def Chunk.samples (cs : List Chunk) : Bytes := cs.flatMap fun c => c.data

theorem Block.payloads_cons (b : Block) (bs : List Block) :
    payloads (b :: bs) = b.payload ++ payloads bs :=
  List.flatMap_cons

theorem Block.payloads_append (as bs : List Block) :
    payloads (as ++ bs) = payloads as ++ payloads bs :=
  List.flatMap_append

theorem Chunk.samples_append (as bs : List Chunk) :
    samples (as ++ bs) = samples as ++ samples bs :=
  List.flatMap_append

/-- How many samples some blocks have. -/
def Block.amount (bs : List Block) : Nat := (bs.map fun b => b.count.toNat).sum

/-- How many samples some chunks have. -/
def Chunk.amount (cs : List Chunk) : Nat := (cs.map fun c => c.count.toNat).sum

@[simp] theorem Block.amount_singleton (b : Block) : amount [b] = b.count.toNat := rfl

@[simp] theorem Chunk.amount_singleton (c : Chunk) : amount [c] = c.count.toNat := rfl

theorem Block.amount_append (as bs : List Block) : amount (as ++ bs) = amount as + amount bs := by
  rw [amount, List.map_append, List.sum_append_nat]
  rfl

theorem Chunk.amount_append (as bs : List Chunk) : amount (as ++ bs) = amount as + amount bs := by
  rw [amount, List.map_append, List.sum_append_nat]
  rfl

theorem Chunk.amount_pos {c : Chunk} {cs : List Chunk} (hc : c ∈ cs) (hpos : 0 < c.count) :
    0 < amount cs := by
  obtain ⟨before, after, rfl⟩ := List.append_of_mem hc
  have hpos := UInt32.lt_iff_toNat_lt.1 hpos
  rw [UInt32.toNat_zero] at hpos
  rw [amount_append, ← List.singleton_append, amount_append, amount_singleton]
  omega

namespace Cutter

/-! ### How cutting goes on -/

/-- Blocks that have been found before stay in front. -/
theorem cutFrom_append (size : Nat) (n : UInt32) (more found : List Block) (c : Cutter) :
    cutFrom size n (found ++ more) c =
      (more.reverse ++ (cutFrom size n found c).1, (cutFrom size n found c).2) := by
  fun_induction cutFrom size n found c with
  | case1 found c h ih =>
    rw [cutFrom, dif_pos h]
    exact ih
  | case2 found c h =>
    rw [cutFrom, dif_neg h, List.reverse_append]

theorem cut_of_lt {size : Nat} {n : UInt32} {c : Cutter} (h : c.samples < n) :
    c.cut size n = ([], c) := by
  have hstop : ¬(0 < n ∧ n ≤ c.samples) := by
    rw [UInt32.lt_iff_toNat_lt] at h
    simp only [UInt32.lt_iff_toNat_lt, UInt32.le_iff_toNat_le]
    omega
  rw [cut, cutFrom, dif_neg hstop, List.reverse_nil]

theorem cut_of_le {size : Nat} {n : UInt32} {c : Cutter} (hn : 0 < n) (h : n ≤ c.samples) :
    c.cut size n =
      (c.front size n :: ((c.rest size n).cut size n).1, ((c.rest size n).cut size n).2) := by
  have hmore := cutFrom_append size n [c.front size n] [] (c.rest size n)
  rw [cut, cutFrom, dif_pos ⟨hn, h⟩]
  exact hmore

/-- **The induction over cutting**: less than a block, or a block and what is left. -/
theorem cut_induction (size : Nat) {n : UInt32} (hn : 0 < n) {motive : Cutter → Prop}
    (short : ∀ c, c.samples < n → motive c)
    (block : ∀ c, n ≤ c.samples → motive (c.rest size n) → motive c) (c : Cutter) :
    motive c := by
  induction hm : c.samples.toNat using Nat.strongRecOn generalizing c with
  | ind m ih =>
    subst hm
    by_cases h : n ≤ c.samples
    · -- A block has samples, so fewer are left.
      refine block c h (ih _ ?_ _ rfl)
      have hle := UInt32.le_iff_toNat_le.1 h
      have hpos := UInt32.lt_iff_toNat_lt.1 hn
      rw [UInt32.toNat_zero] at hpos
      simp only [rest, UInt32.toNat_sub_of_le _ _ h]
      omega
    · refine short c ?_
      rw [UInt32.le_iff_toNat_le] at h
      rw [UInt32.lt_iff_toNat_lt]
      omega

/-! ### What is cut -/

/-- Between two chunks a cutter has the bytes of its samples, and less than a block of
them. -/
structure Between (size : Nat) (n : UInt32) (c : Cutter) : Prop where
  /-- The bytes and the samples are in step. -/
  bytes : c.held.length = c.samples.toNat * size
  /-- There are not enough for a block. -/
  short : c.samples < n

/-- Blocks of `n` samples each that make up a cutter, with what is left behind them. -/
structure Divides (format : SampleFormat) (n : UInt32) (c : Cutter) (bs : List Block)
    (left : Cutter) : Prop where
  /-- Nothing is lost, made twice or moved. -/
  rejoined : Block.payloads bs ++ left.held = c.held
  /-- The blocks are full. -/
  full : ∀ b ∈ bs, b.count = n
  /-- They have the bytes of their samples. -/
  whole : ∀ b ∈ bs, b.IsWhole format
  /-- What is left does not fill a block. -/
  between : left.Between format.bytesPerSample n

variable {format : SampleFormat} {n : UInt32} {c : Cutter}

theorem isWhole_front (hb : c.held.length = c.samples.toNat * format.bytesPerSample)
    (h : n ≤ c.samples) : (c.front format.bytesPerSample n).IsWhole format := by
  have hle : n.toNat * format.bytesPerSample ≤ c.held.length := by
    rw [hb]
    exact Nat.mul_le_mul_right _ (UInt32.le_iff_toNat_le.1 h)
  exact ⟨rfl, (List.length_take_of_le hle).symm⟩

theorem bytes_rest (size : Nat) (hb : c.held.length = c.samples.toNat * size)
    (h : n ≤ c.samples) :
    (c.rest size n).held.length = (c.rest size n).samples.toNat * size := by
  simp only [rest, List.length_drop, UInt32.toNat_sub_of_le _ _ h, Nat.sub_mul, hb]

/-- **Cutting divides what is there.** -/
theorem divides_cut (hn : 0 < n)
    (hb : c.held.length = c.samples.toNat * format.bytesPerSample) :
    Divides format n c (c.cut format.bytesPerSample n).1 (c.cut format.bytesPerSample n).2 := by
  induction c using cut_induction format.bytesPerSample hn with
  | short c h =>
    rw [cut_of_lt h]
    exact ⟨rfl, nofun, nofun, hb, h⟩
  | block c h ih =>
    obtain ⟨hrejoined, hfull, hwhole, hbetween⟩ := ih (bytes_rest _ hb h)
    rw [cut_of_le hn h]
    refine ⟨?_, ?_, ?_, hbetween⟩
    · rw [Block.payloads_cons, List.append_assoc, hrejoined]
      exact List.take_append_drop _ _
    · intro b hmem
      rcases List.mem_cons.1 hmem with rfl | hmem
      · rfl
      · exact hfull b hmem
    · intro b hmem
      rcases List.mem_cons.1 hmem with rfl | hmem
      · exact isWhole_front hb h
      · exact hwhole b hmem

/-- **Cutting loses no sample**, and leaves less than a block. -/
theorem amount_cut (size : Nat) (hn : 0 < n) (c : Cutter) :
    Block.amount (c.cut size n).1 + (c.cut size n).2.samples.toNat = c.samples.toNat ∧
      (c.cut size n).2.samples < n := by
  induction c using cut_induction size hn with
  | short c h =>
    rw [cut_of_lt h]
    exact ⟨Nat.zero_add _, h⟩
  | block c h ih =>
    obtain ⟨hsum, hshort⟩ := ih
    have hle := UInt32.le_iff_toNat_le.1 h
    have hrest : (c.rest size n).samples.toNat = c.samples.toNat - n.toNat :=
      UInt32.toNat_sub_of_le _ _ h
    rw [cut_of_le hn h, ← List.singleton_append, Block.amount_append, Block.amount_singleton]
    refine ⟨?_, hshort⟩
    simp only [front]
    omega

/-- A chunk that is added keeps the bytes and the samples in step, unless the number of
samples wraps around. -/
theorem bytes_add {size : Nat} {chunk : Chunk} (hb : c.held.length = c.samples.toNat * size)
    (hw : chunk.isWhole size = true) (hs : c.samples.toNat + chunk.count.toNat < 2 ^ 32) :
    (c.add chunk).held.length = (c.add chunk).samples.toNat * size := by
  have hdata : chunk.data.length = chunk.count.toNat * size := eq_of_beq hw
  simp only [add, List.length_append, UInt32.toNat_add, Nat.mod_eq_of_lt hs, Nat.add_mul, hb,
    hdata]

/-- **A chunk is divided, with what was left before it.** -/
theorem divides_cut_add {chunk : Chunk} (hn : 0 < n) (hc : c.Between format.bytesPerSample n)
    (hw : chunk.isWhole format.bytesPerSample = true)
    (hs : chunk.count.toNat + n.toNat < 2 ^ 32) :
    Divides format n (c.add chunk) ((c.add chunk).cut format.bytesPerSample n).1
      ((c.add chunk).cut format.bytesPerSample n).2 := by
  have hshort := UInt32.lt_iff_toNat_lt.1 hc.short
  exact divides_cut hn (bytes_add hc.bytes hw (by omega))

/-- The last block holds the rest. -/
theorem payload_tail (hc : c.Between format.bytesPerSample n) :
    Block.payloads c.tail.toList = c.held ∧
      ∀ b ∈ c.tail.toList, b.IsWhole format ∧ 0 < b.count ∧ b.count < n := by
  by_cases h : c.samples = 0
  · -- Without samples there are no bytes either.
    have hnone : c.tail = none := if_pos h
    have hempty : c.held = [] := by
      refine List.eq_nil_of_length_eq_zero ?_
      rw [hc.bytes, h, UInt32.toNat_zero, Nat.zero_mul]
    rw [hnone, hempty]
    exact ⟨rfl, nofun⟩
  · have hsome : c.tail = some ⟨c.date.getD 0, c.samples, c.held, false⟩ := if_neg h
    rw [hsome]
    refine ⟨List.append_nil _, ?_⟩
    intro b hmem
    rw [Option.toList_some, List.mem_singleton] at hmem
    subst hmem
    exact ⟨⟨rfl, hc.bytes.symm⟩, UInt32.pos_iff_ne_zero.2 h, hc.short⟩

/-! ### A series of chunks -/

/-- Blocks that have been cut from some chunks so far, with the samples that are left. -/
structure Underway (format : SampleFormat) (n : UInt32) (chunks : List Chunk)
    (blocks : List Block) (c : Cutter) : Prop where
  /-- What is left does not fill a block. -/
  between : c.Between format.bytesPerSample n
  /-- Nothing is lost, made twice or moved. -/
  rejoined : Block.payloads blocks ++ c.held = Chunk.samples chunks
  /-- The blocks are full. -/
  full : ∀ b ∈ blocks, b.count = n
  /-- They have the bytes of their samples. -/
  whole : ∀ b ∈ blocks, b.IsWhole format

/-- Blocks that hold the samples of some chunks, all of them full but perhaps the last. -/
structure Reblocks (format : SampleFormat) (n : UInt32) (chunks : List Chunk)
    (blocks : List Block) : Prop where
  /-- Nothing is lost, made twice or moved. -/
  same : Block.payloads blocks = Chunk.samples chunks
  /-- All but the last are full. -/
  full : ∀ b ∈ blocks.dropLast, b.count = n
  /-- The last is not empty and not too large. -/
  last : ∀ b ∈ blocks.getLast?, 0 < b.count ∧ b.count ≤ n
  /-- They have the bytes of their samples. -/
  whole : ∀ b ∈ blocks, b.IsWhole format

theorem underway_empty (hn : 0 < n) : Underway format n [] [] empty :=
  ⟨⟨(Nat.zero_mul _).symm, hn⟩, rfl, nofun, nofun⟩

namespace Underway

variable {chunks : List Chunk} {blocks : List Block}

/-- One more chunk, and the blocks that it fills. -/
theorem take {chunk : Chunk} (hu : c.Underway format n chunks blocks) (hn : 0 < n)
    (hw : chunk.isWhole format.bytesPerSample = true)
    (hs : chunk.count.toNat + n.toNat < 2 ^ 32) :
    Underway format n (chunks ++ [chunk])
      (blocks ++ ((c.add chunk).cut format.bytesPerSample n).1)
      ((c.add chunk).cut format.bytesPerSample n).2 := by
  obtain ⟨hrejoined, hfull, hwhole, hbetween⟩ := divides_cut_add hn hu.between hw hs
  have hone : Chunk.samples [chunk] = chunk.data := List.append_nil _
  refine ⟨hbetween, ?_, ?_, ?_⟩
  · rw [Block.payloads_append, List.append_assoc, hrejoined, Chunk.samples_append, hone,
      ← hu.rejoined, List.append_assoc]
    rfl
  · intro b hmem
    rcases List.mem_append.1 hmem with hmem | hmem
    · exact hu.full b hmem
    · exact hfull b hmem
  · intro b hmem
    rcases List.mem_append.1 hmem with hmem | hmem
    · exact hu.whole b hmem
    · exact hwhole b hmem

/-- The last block completes them. -/
theorem reblocks (hu : c.Underway format n chunks blocks) (hn : 0 < n) :
    Reblocks format n chunks (blocks ++ c.tail.toList) := by
  obtain ⟨htail, hlast⟩ := payload_tail hu.between
  refine ⟨?_, ?_, ?_, ?_⟩
  · rw [Block.payloads_append, htail, hu.rejoined]
  · intro b hmem
    cases h : c.tail with
    | none =>
      rw [h, Option.toList_none, List.append_nil] at hmem
      exact hu.full b (List.dropLast_subset _ hmem)
    | some last =>
      rw [h, Option.toList_some, List.dropLast_concat] at hmem
      exact hu.full b hmem
  · intro b hmem
    cases h : c.tail with
    | none =>
      rw [h, Option.toList_none, List.append_nil] at hmem
      have hfull := hu.full b (List.mem_of_getLast? hmem)
      rw [hfull]
      exact ⟨hn, UInt32.le_refl n⟩
    | some last =>
      rw [h, Option.toList_some, List.getLast?_concat] at hmem
      cases hmem
      obtain ⟨-, hpos, hlt⟩ := hlast b (by rw [h]; exact List.mem_singleton_self b)
      exact ⟨hpos, UInt32.le_of_lt hlt⟩
  · intro b hmem
    rcases List.mem_append.1 hmem with hmem | hmem
    · exact hu.whole b hmem
    · exact (hlast b hmem).1

end Underway

end Cutter

end IqTape
