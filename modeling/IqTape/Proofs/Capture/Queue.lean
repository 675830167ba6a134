import IqTape.Capture.Queue

/-!
# The ring is a list

The positions of the ring only grow, and the writer is never more than a whole round
behind the device.  So no slot is used for two chunks at a time, and the ring holds a list
of chunks: a push puts one at its end and a pop takes one from its front.

## Main definitions

* `Queue.IsRing` — the positions are in order.
* `Queue.added`, `Queue.removed` — what an operation that succeeds leaves behind.

## Main results

* `Queue.push_eq`, `Queue.tryPop_eq` — the operations in one step.
* `Queue.toList_push` — an accepted chunk is the last one.
* `Queue.poll_of_toList_eq_cons`, `Queue.poll_of_toList_eq_nil` — a look at the queue gives
  the first chunk, or says whether there will be one.
-/

namespace IqTape

namespace Queue

/-- The positions are in order and no further apart than there are slots. -/
structure IsRing (q : Queue) : Prop where
  /-- There is a slot. -/
  pos : 0 < q.capacity
  /-- The slots are there. -/
  slots : q.slots.size = q.capacity
  /-- Nothing is taken out before it is put in. -/
  le : q.readPos ≤ q.writePos
  /-- Nothing is put in where something is left. -/
  room : q.size ≤ q.capacity

variable {q : Queue} {c : Chunk}

theorem isRing_empty (capacity : Nat) : (empty capacity).IsRing := by
  have hpos : 0 < max 1 capacity := Nat.lt_of_lt_of_le Nat.one_pos (Nat.le_max_left 1 capacity)
  exact ⟨hpos, Array.size_replicate, Nat.le_refl 0, Nat.zero_le _⟩

theorem toList_empty (capacity : Nat) : (empty capacity).toList = [] := rfl

/-! ### Slots -/

/-- Two positions less than a round apart have different slots. -/
theorem mod_ne_mod {n a b : Nat} (hab : a < b) (hn : b - a < n) : a % n ≠ b % n := by
  intro h
  have hzero := Nat.sub_mod_eq_zero_of_mod_eq h.symm
  rw [Nat.mod_eq_of_lt hn] at hzero
  omega

theorem slot_fill_self (hq : q.IsRing) (position : Nat) (c : Chunk) :
    (q.fill position c).slot position = c := by
  have hlt : position % q.capacity < q.slots.size := by
    rw [hq.slots]
    exact Nat.mod_lt _ hq.pos
  simp only [slot, fill, Array.getD_eq_getD_getElem?, Array.getElem?_setIfInBounds, if_pos hlt,
    if_true, Option.getD_some]

theorem slot_fill_of_ne {filled position : Nat} (h : filled % q.capacity ≠ position % q.capacity)
    (c : Chunk) : (q.fill filled c).slot position = q.slot position := by
  simp only [slot, fill, Array.getD_eq_getD_getElem?, Array.getElem?_setIfInBounds, if_neg h]

/-! ### The operations in one step -/

/-- The queue with a chunk put in. -/
def added (q : Queue) (c : Chunk) : Queue :=
  { q.fill q.writePos c with
    writePos := q.writePos + 1
    pushed := q.pushed + 1
    highWater := max q.highWater (q.writePos + 1 - q.readPos) }

/-- The queue with the first chunk taken out. -/
def removed (q : Queue) : Queue :=
  { q.fill q.readPos Chunk.blank with
    readPos := q.readPos + 1
    popped := q.popped + 1 }

theorem push_eq (q : Queue) (c : Chunk) :
    q.push c =
      if q.closed then (false, q)
      else if q.capacity ≤ q.size then (false, { q with overflows := q.overflows + 1 })
      else (true, q.added c) := by
  by_cases hc : q.closed
  · simp [push, Push.run, Push.length, Push.step, hc]
  · by_cases hs : q.capacity ≤ q.writePos - q.readPos
    · simp [push, Push.run, Push.length, Push.step, size, hc, hs]
    · simp [push, Push.run, Push.length, Push.step, size, added, fill, hc, hs]

theorem tryPop_eq (q : Queue) :
    q.tryPop =
      if q.writePos = q.readPos then (none, q) else (some (q.slot q.readPos), q.removed) := by
  by_cases h : q.writePos = q.readPos
  · simp [tryPop, Pop.run, Pop.length, Pop.step, h]
  · simp [tryPop, Pop.run, Pop.length, Pop.step, removed, fill, h]

theorem isRing_added (hq : q.IsRing) (hroom : q.size < q.capacity) : (q.added c).IsRing := by
  have hle := hq.le
  refine ⟨hq.pos, Array.size_setIfInBounds.trans hq.slots, Nat.le_succ_of_le hle, ?_⟩
  simp only [size, added, fill] at hroom ⊢
  omega

theorem isRing_removed (hq : q.IsRing) (h : q.readPos < q.writePos) : q.removed.IsRing := by
  have hroom := hq.room
  refine ⟨hq.pos, Array.size_setIfInBounds.trans hq.slots, h, ?_⟩
  simp only [size, removed, fill] at hroom ⊢
  omega

/-- A chunk that is put in is the last one. -/
theorem toList_added (hq : q.IsRing) (hroom : q.size < q.capacity) :
    (q.added c).toList = q.toList ++ [c] := by
  have hle := hq.le
  simp only [size] at hroom
  have hsize : (q.added c).size = q.size + 1 := by
    simp only [size, added, fill]
    omega
  have hlast : q.readPos + q.size = q.writePos := by
    simp only [size]
    omega
  rw [toList, hsize, List.range_succ, List.map_append, List.map_singleton]
  congr 1
  · -- The other chunks are less than a round behind the new one.
    refine List.map_congr_left fun i hi => ?_
    have hi := List.mem_range.1 hi
    simp only [size] at hi
    have hslot : (q.added c).slot (q.readPos + i) = q.slot (q.readPos + i) :=
      slot_fill_of_ne (mod_ne_mod (by omega) (by omega)).symm c
    exact hslot
  · have hslot : (q.added c).slot (q.readPos + q.size) = c := by
      rw [hlast]
      exact slot_fill_self hq q.writePos c
    exact congrArg (fun x => [x]) hslot

/-- The chunk that is taken out is the first one. -/
theorem toList_eq_cons (hq : q.IsRing) (h : q.readPos < q.writePos) :
    q.toList = q.slot q.readPos :: q.removed.toList := by
  have hroom := hq.room
  simp only [size] at hroom
  have hsize : q.size = q.removed.size + 1 := by
    simp only [size, removed, fill]
    omega
  rw [toList, hsize, List.range_succ_eq_map, List.map_cons, List.map_map]
  congr 1
  -- The slot that has been cleared is not used by the chunks behind it.
  refine List.map_congr_left fun i hi => ?_
  have hi := List.mem_range.1 hi
  simp only [size, removed, fill] at hi
  have hnext : q.readPos + (i + 1) = q.readPos + 1 + i := by omega
  have hslot : q.removed.slot (q.readPos + 1 + i) = q.slot (q.readPos + 1 + i) :=
    slot_fill_of_ne (mod_ne_mod (by omega) (by omega)) Chunk.blank
  exact (congrArg q.slot hnext).trans hslot.symm

theorem toList_eq_nil_iff : q.toList = [] ↔ q.writePos ≤ q.readPos := by
  rw [toList, List.map_eq_nil_iff, List.range_eq_nil, size]
  omega

/-! ### Pushing -/

@[simp] theorem closed_push (q : Queue) (c : Chunk) : (q.push c).2.closed = q.closed := by
  rw [push_eq]
  split
  · rfl
  · split <;> rfl

/-- A closed queue takes nothing. -/
theorem push_of_closed (h : q.closed = true) : q.push c = (false, q) := by
  rw [push_eq, if_pos h]

theorem isRing_push (hq : q.IsRing) : (q.push c).2.IsRing := by
  rw [push_eq]
  split
  · exact hq
  · split
    · exact ⟨hq.pos, hq.slots, hq.le, hq.room⟩
    · next hroom => exact isRing_added hq (Nat.lt_of_not_le hroom)

/-- **An accepted chunk is the last one**, and a refused one leaves the list alone. -/
theorem toList_push (hq : q.IsRing) :
    (q.push c).2.toList = q.toList ++ if (q.push c).1 then [c] else [] := by
  rw [push_eq]
  split
  · exact (List.append_nil _).symm
  · split
    · exact (List.append_nil _).symm
    · next hroom => exact toList_added hq (Nat.lt_of_not_le hroom)

/-! ### Looking -/

@[simp] theorem toList_close (q : Queue) : q.close.toList = q.toList := rfl

theorem isRing_close (hq : q.IsRing) : q.close.IsRing := ⟨hq.pos, hq.slots, hq.le, hq.room⟩

/-- **A look at the queue gives the first chunk.** -/
theorem poll_of_toList_eq_cons {cs : List Chunk} (hq : q.IsRing) (h : q.toList = c :: cs) :
    q.poll = (some (.chunk c), q.removed) ∧ q.removed.IsRing ∧ q.removed.toList = cs := by
  have hlt : q.readPos < q.writePos := by
    refine Nat.lt_of_not_le fun hle => ?_
    rw [toList_eq_nil_iff.2 hle] at h
    cases h
  rw [toList_eq_cons hq hlt, List.cons.injEq] at h
  have hpop : q.tryPop = (some c, q.removed) := by
    rw [tryPop_eq, if_neg (by omega), h.1]
  exact ⟨by rw [poll, hpop], isRing_removed hq hlt, h.2⟩

/-- **A queue is found closed only when it is empty.** -/
theorem poll_of_toList_eq_nil (hq : q.IsRing) (h : q.toList = []) :
    q.poll = (if q.closed then some .closed else none, q) := by
  have hle := hq.le
  have hge := toList_eq_nil_iff.1 h
  have hpop : q.tryPop = (none, q) := by
    rw [tryPop_eq, if_pos (by omega)]
  cases hc : q.closed
  · simp [poll, hpop, hc]
  · simp [poll, hpop, hc]

end Queue

end IqTape
