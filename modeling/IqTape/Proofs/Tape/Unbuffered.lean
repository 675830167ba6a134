import IqTape.Proofs.Tape.Sink

/-!
# Sinks that hold nothing back

What is written to such a sink has arrived when the call returns, as far as the sink took it.
The sink fails at the first byte that lies at its limit; the bytes before that byte stay, and
nothing is taken after it.

## Main definitions

* `Sink.Bare` — what a sink holds that holds nothing back.
* `Sink.AtEnd` — the sink stands behind its last byte.

## Main results

* `Sink.Bare.put_cases` — a write arrives, or is cut off.
* `Sink.Bare.replace` — bytes at the front give way to as many others.
-/

namespace IqTape

namespace Sink

/-- Everything that was written has arrived, as far as the sink took it. -/
structure Bare (s : Sink) (bs : Bytes) : Prop where
  /-- No byte may be held back. -/
  room : s.room = 0
  /-- None is. -/
  held : s.held = []
  /-- The bytes are counted. -/
  size : s.size = s.backwards.length
  content : s.content = bs

/-- A sink that has not failed stands behind its last byte. -/
structure AtEnd (s : Sink) : Prop where
  good : s.good = true
  position : s.position = s.size

variable {s : Sink} {bs : Bytes}

theorem place_room (s : Sink) (bs : Bytes) : (s.place bs).room = s.room := by
  unfold place
  split <;> rfl

theorem limit_put (s : Sink) (bs : Bytes) : (s.put bs).limit = s.limit := by
  have hpass (bs : Bytes) : (s.pass bs).limit = s.limit := by
    unfold pass
    split
    · exact place_limit s bs
    · split
      · exact place_limit s bs
      · exact place_limit s _
  unfold put
  split
  · rfl
  · split
    · simp only
      split <;> exact hpass _
    · rfl

theorem place_held (s : Sink) (bs : Bytes) : (s.place bs).held = s.held := by
  unfold place
  split <;> rfl

/-- Where nothing is held back, nothing is to be released. -/
theorem release_eq {next : Sink} (h : next.held = []) :
    (if next.good then { next with held := [] } else next) = next := by
  rw [← h]
  exact ite_self _

/-- A sink that has failed takes nothing more. -/
theorem put_of_bad (hbad : s.good = false) (new : Bytes) : s.put new = s := by
  simp only [put]
  rw [hbad]
  rfl

namespace Bare

theorem size_eq (h : s.Bare bs) : s.size = bs.length := by
  rw [h.size, ← length_content, h.content]

/-- Bytes that are placed go over what is there. -/
theorem place (h : s.Bare bs) (hp : s.position ≤ s.size) (new : Bytes) :
    (s.place new).Bare (bs.overwrite s.position new) := by
  have hcontent : (s.place new).content = bs.overwrite s.position new := by
    rw [content_place s new h.size, h.content]
    rfl
  have hle : s.position ≤ bs.length := by
    rw [← h.size_eq]
    exact hp
  refine ⟨(place_room s new).trans h.room, (place_held s new).trans h.held, ?_, hcontent⟩
  -- The size is counted, not measured, so both ways to place bytes have to agree with it.
  rw [← length_content, hcontent, Bytes.length_overwrite new hle, ← h.size_eq]
  unfold Sink.place
  split
  · next hend =>
    simp only
    omega
  · rfl

/-- Without bytes held back, a write is passed on at once. -/
theorem put_eq (h : s.Bare bs) (hgood : s.good = true) (new : Bytes) : s.put new = s.pass new := by
  have hroom : min large (s.room - s.held.length) ≤ new.length := by
    rw [h.room, Nat.zero_sub, Nat.min_zero]
    exact Nat.zero_le _
  have hheld : (s.pass new).held = [] := by
    unfold pass
    split
    · exact (place_held s _).trans h.held
    · split
      · exact (place_held s _).trans h.held
      · exact (place_held s _).trans h.held
  simp only [put]
  rw [hgood, if_neg (by decide), if_pos hroom, h.held, List.nil_append]
  exact release_eq hheld

theorem flush_eq (h : s.Bare bs) : s.flush = s := by
  unfold flush
  rw [h.held, List.isEmpty_nil, Bool.or_true, if_pos rfl]

/-- **A write goes behind everything, or is cut off where the sink is full.** -/
theorem put_cases (h : s.Bare bs) (hs : s.AtEnd) {new : Bytes} (hnew : 0 < new.length) :
    ((s.put new).AtEnd ∧ (s.put new).Bare (bs ++ new)) ∨
      ((s.put new).good = false ∧
        ∃ torn, torn <+: new ∧ torn.length < new.length ∧ (s.put new).Bare (bs ++ torn)) := by
  have hend : s.position = bs.length := hs.position.trans h.size_eq
  have whole : (s.place new).AtEnd ∧ (s.place new).Bare (bs ++ new) := by
    have hplace := h.place (Nat.le_of_eq hs.position) new
    rw [hend, Bytes.overwrite_end] at hplace
    refine ⟨⟨(place_good s new).trans hs.good, ?_⟩, hplace⟩
    rw [place_position, hplace.size_eq, hend, List.length_append]
  rw [h.put_eq hs.good, pass]
  cases hlimit : s.limit with
  | none => exact .inl whole
  | some limit =>
    by_cases hfits : s.position + new.length ≤ limit
    · left
      simp only [if_pos hfits]
      exact whole
    · right
      -- The bytes below the limit arrive all the same.
      simp only [if_neg hfits]
      have hplace := h.place (Nat.le_of_eq hs.position) (new.take (limit - s.position))
      rw [hend] at hfits hplace ⊢
      rw [Bytes.overwrite_end] at hplace
      refine ⟨trivial, new.take (limit - bs.length), List.take_prefix _ _, ?_,
        ⟨hplace.room, hplace.held, hplace.size, hplace.content⟩⟩
      rw [List.length_take]
      omega

/-- What a sink that does not fail has taken lies below its limit. -/
theorem length_le_of_put (h : s.Bare bs) (hgood : s.good = true) {new : Bytes}
    (hput : (s.put new).good = true) {n : Nat} (hn : s.limit = some n) : new.length ≤ n := by
  rw [h.put_eq hgood, pass, hn] at hput
  by_cases hfits : s.position + new.length ≤ n
  · omega
  · simp only [if_neg hfits] at hput
    cases hput

/-- Moving passes nothing on, and fails in a sink that cannot be moved in. -/
theorem moveTo_eq (h : s.Bare bs) (hgood : s.good = true) (position : Sink → Nat) :
    s.moveTo position = if s.seekable then { s with position := position s }
      else { s with good := false } := by
  unfold moveTo
  rw [h.flush_eq]
  simp only
  rw [hgood, if_neg (by decide)]
  cases s.seekable <;> rfl

/-- At the start of a sink, bytes go over as many others and the rest stays. -/
theorem put_front {old new rest : Bytes} (h : s.Bare (old ++ rest)) (hgood : s.good = true)
    (hstart : s.position = 0) (hlen : old.length = new.length)
    (hfits : ∀ n, s.limit = some n → new.length ≤ n) :
    (s.put new).good = true ∧ (s.put new).Bare (new ++ rest) ∧
      (s.put new).seekable = s.seekable := by
  have hput : s.put new = s.place new := by
    rw [h.put_eq hgood, pass]
    split
    · rfl
    · next n hn =>
      have hle := hfits n hn
      rw [if_pos (by omega)]
  have hplace := h.place (by rw [hstart]; exact Nat.zero_le _) new
  rw [hstart, Bytes.overwrite_front rest hlen] at hplace
  rw [hput]
  exact ⟨(place_good s new).trans hgood, hplace, place_seekable s new⟩

/-- **The front of a sink can be replaced** by as many bytes, if the sink can be moved in. -/
theorem replace {old new rest : Bytes} (h : s.Bare (old ++ rest)) (hs : s.AtEnd)
    (hseek : s.seekable = true) (hlen : old.length = new.length)
    (hfits : ∀ n, s.limit = some n → new.length ≤ n) :
    s.rewind.good = true ∧ (s.rewind.put new).good = true ∧
      (s.rewind.put new).forward.flush.AtEnd ∧
      (s.rewind.put new).forward.flush.Bare (new ++ rest) ∧
      (s.rewind.put new).forward.flush.limit = s.limit := by
  have hrewind : s.rewind = { s with position := 0 } := by
    rw [rewind, h.moveTo_eq hs.good, if_pos hseek]
  have hfront : s.rewind.Bare (old ++ rest) := by
    rw [hrewind]
    exact ⟨h.room, h.held, h.size, h.content⟩
  have hgood : s.rewind.good = true := by
    rw [hrewind]
    exact hs.good
  obtain ⟨hwritten, hput, hmove⟩ := hfront.put_front hgood (by rw [hrewind]) hlen
    (by rw [hrewind]; exact hfits)
  have hforward : (s.rewind.put new).forward =
      { s.rewind.put new with position := (s.rewind.put new).size } := by
    rw [forward, hput.moveTo_eq hwritten, if_pos]
    rw [hmove, hrewind]
    exact hseek
  have hlast : (s.rewind.put new).forward.Bare (new ++ rest) := by
    rw [hforward]
    exact ⟨hput.room, hput.held, hput.size, hput.content⟩
  rw [hlast.flush_eq]
  refine ⟨hgood, hwritten, ?_, hlast, ?_⟩
  · rw [hforward]
    exact ⟨hwritten, rfl⟩
  · rw [hforward]
    refine (limit_put _ _).trans ?_
    rw [hrewind]

end Bare

end Sink

end IqTape
