import IqTape.Tape.Sink

/-!
# What a sink holds

A sink may hold bytes back, so what has arrived is not all that has been written.  The
view taken here is the string of bytes that will be there once everything has been
passed on, with the place where the next byte goes.

## Main definitions

* `Bytes.overwrite` — bytes put over what is at a place.
* `Sink.Holds` — a sink that takes everything, seen in this way.
* `Sink.ofRoom` — a new sink.

## Main results

* `Sink.Holds.put`, `Sink.Holds.flush`, `Sink.Holds.rewind`, `Sink.Holds.forward` — what
  the operations do to the view.
* `Sink.Holds.content_eq` — what has arrived when nothing is held back.
-/

namespace IqTape

/-- Put bytes over what is at a place. -/
def Bytes.overwrite (bs : Bytes) (place : Nat) (new : Bytes) : Bytes :=
  bs.take place ++ new ++ bs.drop (place + new.length)

namespace Bytes

@[simp] theorem overwrite_nil (bs : Bytes) (place : Nat) : bs.overwrite place [] = bs := by
  simp [overwrite]

/-- Bytes put at the end are appended. -/
theorem overwrite_end (bs new : Bytes) : bs.overwrite bs.length new = bs ++ new := by
  rw [overwrite, List.take_length, List.drop_of_length_le (by omega), List.append_nil]

/-- Bytes put over a front part of the same length replace it. -/
theorem overwrite_front {old new : Bytes} (bs : Bytes) (h : old.length = new.length) :
    overwrite (old ++ bs) 0 new = new ++ bs := by
  rw [overwrite, List.take_zero, List.nil_append, Nat.zero_add, ← h, List.drop_left]

/-- Two pieces put one behind the other are one piece. -/
theorem overwrite_append {bs : Bytes} {place : Nat} (a b : Bytes) (h : place ≤ bs.length) :
    (bs.overwrite place a).overwrite (place + a.length) b = bs.overwrite place (a ++ b) := by
  have htake : ((bs.take place ++ a) ++ bs.drop (place + a.length)).take (place + a.length) =
      bs.take place ++ a := by
    refine List.take_left' ?_
    rw [List.length_append, List.length_take_of_le h]
  have hdrop : ((bs.take place ++ a) ++ bs.drop (place + a.length)).drop
      (place + a.length + b.length) = bs.drop (place + (a ++ b).length) := by
    rw [List.drop_append, List.drop_of_length_le
      (by rw [List.length_append, List.length_take_of_le h]; omega), List.nil_append,
      List.length_append, List.length_take_of_le h, List.drop_drop, List.length_append]
    congr 1
    omega
  simp only [overwrite] at htake hdrop ⊢
  rw [htake, hdrop]
  simp only [List.append_assoc]

theorem length_overwrite {bs : Bytes} {place : Nat} (new : Bytes) (h : place ≤ bs.length) :
    (bs.overwrite place new).length = max bs.length (place + new.length) := by
  rw [overwrite, List.length_append, List.length_append, List.length_take_of_le h,
    List.length_drop]
  omega

end Bytes

namespace Sink

/-! ### One placement -/

@[simp] theorem place_limit (s : Sink) (bs : Bytes) : (s.place bs).limit = s.limit := by
  unfold place; split <;> rfl

@[simp] theorem place_seekable (s : Sink) (bs : Bytes) :
    (s.place bs).seekable = s.seekable := by
  unfold place; split <;> rfl

@[simp] theorem place_good (s : Sink) (bs : Bytes) : (s.place bs).good = s.good := by
  unfold place; split <;> rfl

@[simp] theorem place_position (s : Sink) (bs : Bytes) :
    (s.place bs).position = s.position + bs.length := by
  unfold place; split
  · next he => rw [he]
  · rfl

theorem length_content (s : Sink) : s.content.length = s.backwards.length :=
  List.length_reverse

/-! ### The view -/

/-- A sink that takes everything will hold `bs`, and the next byte goes to `cursor`. -/
structure Holds (s : Sink) (bs : Bytes) (cursor : Nat) : Prop where
  /-- Everything has worked. -/
  good : s.good = true
  /-- Every offset takes a byte. -/
  unlimited : s.limit = none
  /-- The position can be moved. -/
  seekable : s.seekable = true
  /-- The bytes are counted. -/
  size : s.size = s.backwards.length
  /-- The position lies among them. -/
  position : s.position ≤ s.size
  /-- What is held back goes to the position. -/
  settled : s.content.overwrite s.position s.held = bs
  /-- The next byte goes behind it. -/
  cursor : s.position + s.held.length = cursor

namespace Holds

variable {s : Sink} {bs : Bytes} {cursor : Nat}

theorem not_bad (h : s.Holds bs cursor) : ¬(!s.good) = true := by
  rw [h.good]
  decide

/-- What has arrived is everything when nothing is held back. -/
theorem content_eq (h : s.Holds bs cursor) (he : s.held = []) : s.content = bs := by
  have hs := h.settled
  rwa [he, Bytes.overwrite_nil] at hs

theorem position_le (h : s.Holds bs cursor) : s.position ≤ s.content.length := by
  rw [length_content, ← h.size]
  exact h.position

/-- Passing everything on, with some more behind it, puts that over what is there. -/
theorem pass (h : s.Holds bs cursor) (new : Bytes) :
    ({ s.pass (s.held ++ new) with held := [] } : Sink).Holds (bs.overwrite cursor new)
      (cursor + new.length) ∧ (s.pass (s.held ++ new)).good = true := by
  -- Without a limit, what is held back and the new bytes are one placement.
  have hpass : s.pass (s.held ++ new) = s.place (s.held ++ new) := by
    rw [Sink.pass, h.unlimited]
  have hcontent : (s.place (s.held ++ new)).content =
      s.content.overwrite s.position (s.held ++ new) := content_place s _ h.size
  have hbs : s.content.overwrite s.position (s.held ++ new) = bs.overwrite cursor new := by
    rw [← Bytes.overwrite_append _ _ h.position_le, h.settled, h.cursor]
  have hcount : (s.place (s.held ++ new)).size = (s.place (s.held ++ new)).backwards.length := by
    rw [← length_content, hcontent, Bytes.length_overwrite _ h.position_le, length_content,
      ← h.size]
    unfold place
    split
    · next he =>
      simp only [he]
      omega
    · rfl
  have hplace : (s.place (s.held ++ new)).position ≤ (s.place (s.held ++ new)).size := by
    rw [hcount, ← length_content, hcontent, Bytes.length_overwrite _ h.position_le,
      place_position]
    exact Nat.le_max_right _ _
  rw [hpass]
  refine ⟨⟨?_, ?_, ?_, hcount, hplace, ?_, ?_⟩, ?_⟩
  · rw [place_good]; exact h.good
  · rw [place_limit]; exact h.unlimited
  · rw [place_seekable]; exact h.seekable
  · rw [Bytes.overwrite_nil]
    exact hcontent.trans hbs
  · have := h.cursor
    simp only [place_position, List.length_append, List.length_nil]
    omega
  · rw [place_good]; exact h.good

/-- **A write puts its bytes over what is at the cursor.** -/
theorem put (h : s.Holds bs cursor) (new : Bytes) :
    (s.put new).Holds (bs.overwrite cursor new) (cursor + new.length) := by
  obtain ⟨hpass, hgood⟩ := h.pass new
  simp only [Sink.put]
  rw [if_neg h.not_bad, if_pos hgood]
  split
  · exact hpass
  · refine ⟨h.good, h.unlimited, h.seekable, h.size, h.position, ?_, ?_⟩
    · rw [← h.cursor, ← h.settled, Bytes.overwrite_append _ _ h.position_le]
      rfl
    · have := h.cursor
      simp only [List.length_append]
      omega

/-- **Passing everything on changes nothing in the view.** -/
theorem flush (h : s.Holds bs cursor) : s.flush.Holds bs cursor ∧ s.flush.held = [] := by
  obtain ⟨hpass, hgood⟩ := h.pass []
  rw [List.append_nil] at hpass hgood
  simp only [Sink.flush]
  split
  · next he =>
    refine ⟨h, List.isEmpty_iff.1 ?_⟩
    rwa [Bool.or_eq_true, or_iff_right h.not_bad] at he
  · rw [Bytes.overwrite_nil] at hpass
    exact ⟨hpass, rfl⟩

/-- A move passes everything on and sets the cursor. -/
theorem moveTo (h : s.Holds bs cursor) {position : Sink → Nat} {place : Nat}
    (hp : position s.flush = place) (hle : place ≤ bs.length) :
    (s.moveTo position).Holds bs place ∧ (s.moveTo position).held = [] := by
  obtain ⟨hflush, hheld⟩ := h.flush
  have hcontent := hflush.content_eq hheld
  have hseek : ¬(!s.flush.seekable) = true := by rw [hflush.seekable]; decide
  simp only [Sink.moveTo]
  rw [if_neg hflush.not_bad, if_neg hseek, hp]
  refine ⟨⟨hflush.good, hflush.unlimited, hflush.seekable, hflush.size, ?_, ?_, ?_⟩, hheld⟩
  · rw [← hcontent, length_content, ← hflush.size] at hle
    exact hle
  · simp only [hheld, Bytes.overwrite_nil]
    exact hcontent
  · simp only [hheld, List.length_nil, Nat.add_zero]

/-- **Rewinding moves the cursor to the start.** -/
theorem rewind (h : s.Holds bs cursor) : s.rewind.Holds bs 0 ∧ s.rewind.held = [] :=
  h.moveTo rfl (Nat.zero_le _)

/-- **Going forward moves the cursor behind everything.** -/
theorem forward (h : s.Holds bs cursor) :
    s.forward.Holds bs bs.length ∧ s.forward.held = [] := by
  obtain ⟨hflush, hheld⟩ := h.flush
  refine h.moveTo ?_ (Nat.le_refl _)
  rw [hflush.size, ← length_content, hflush.content_eq hheld]

end Holds

/-- A new sink that takes everything and may hold so many bytes back. -/
def ofRoom (room : Nat) : Sink := { empty with room := room }

/-- A new sink that takes everything holds nothing, whatever it may hold back. -/
theorem holds_ofRoom (room : Nat) : (ofRoom room).Holds [] 0 :=
  ⟨rfl, rfl, rfl, rfl, Nat.le_refl _, rfl, rfl⟩

end Sink

end IqTape
