import IqTape.Proofs.Tape.Header
import IqTape.Tape.Scan

/-!
# A window on a tape shows what the whole tape shows

A reader sees its tape through a window.  A frame that is cut off by the edge of the
window, and only that, makes it read on, so it finds what a scan of the whole body
finds, however the body is cut into pieces.  A source that fails behind some bytes is
like one that ends there, and the failure shows at the end.

## Main definitions

* `Source.delivery` — what reading in pieces delivers, and whether it ends badly.
* `Reader.Follows` — a reader has got as far as a scan.
* `Reader.calls`, `Scan.calls` — what a number of calls give.

## Main results

* `Source.delivery_of_reliable`, `Source.delivery_of_breaking` — what is delivered.
* `Reader.Follows.next` — a call of the reader is a call of the scan.
* `Reader.Follows.drain` — both find the same to the end.
* `Reader.windowed_reading_eq_scanning` — **the reader is a scan of what is delivered**.
-/

namespace IqTape

namespace Source

/-! ### What a source delivers -/

/-- A read delivers what is at the front. -/
theorem of_read_eq_some {s : Source} {n : Nat} {bs : Bytes} {later : Source}
    (h : s.read n = some (bs, later)) :
    bs = s.rest.take n ∧ later = ⟨s.rest.drop n, s.breaksAfter.map (· - bs.length)⟩ := by
  simp only [read] at h
  split at h
  · cases h
  · simp only [Option.some.injEq, Prod.mk.injEq] at h
    obtain ⟨rfl, rfl⟩ := h
    exact ⟨rfl, rfl⟩

/-- What reading in pieces delivers before it ends, and whether it ends in a failure. -/
def delivery (piece : ReadSize) (s : Source) : Bytes × Bool :=
  match _h : s.read piece.bytes with
  | none => ([], true)
  | some (bs, later) =>
    if _hs : bs.length < piece.bytes then (bs, false)
    else (bs ++ (delivery piece later).1, (delivery piece later).2)
termination_by s.rest.length
decreasing_by
  all_goals
    obtain ⟨rfl, rfl⟩ := of_read_eq_some _h
    have := piece.pos
    simp only [List.length_take, List.length_drop] at *
    omega

theorem delivery_of_failure {piece : ReadSize} {s : Source} (h : s.read piece.bytes = none) :
    s.delivery piece = ([], true) := by
  rw [delivery]
  split
  · rfl
  · next h' => rw [h] at h'; cases h'

theorem delivery_of_end {piece : ReadSize} {s later : Source} {bs : Bytes}
    (h : s.read piece.bytes = some (bs, later)) (hs : bs.length < piece.bytes) :
    s.delivery piece = (bs, false) := by
  rw [delivery]
  split
  · next h' => rw [h] at h'; cases h'
  · next h' =>
    rw [h] at h'
    cases h'
    rw [dif_pos hs]

theorem delivery_of_piece {piece : ReadSize} {s later : Source} {bs : Bytes}
    (h : s.read piece.bytes = some (bs, later)) (hs : ¬bs.length < piece.bytes) :
    s.delivery piece = (bs ++ (later.delivery piece).1, (later.delivery piece).2) := by
  rw [delivery]
  split
  · next h' => rw [h] at h'; cases h'
  · next h' =>
    rw [h] at h'
    cases h'
    rw [dif_neg hs]

/-- A source that does not fail delivers what it holds. -/
theorem delivery_of_reliable (piece : ReadSize) (bs : Bytes) :
    (ofBytes bs).delivery piece = (bs, false) := by
  induction hn : bs.length using Nat.strongRecOn generalizing bs with
  | ind n ih =>
    have hread : (ofBytes bs).read piece.bytes =
        some (bs.take piece.bytes, ofBytes (bs.drop piece.bytes)) :=
      read_of_reliable bs piece.bytes
    have hp := piece.pos
    by_cases hs : bs.length < piece.bytes
    · rw [delivery_of_end hread (by rw [List.length_take]; omega),
        List.take_of_length_le (by omega)]
    · -- A whole piece leaves a shorter source that does not fail either.
      rw [delivery_of_piece hread (by rw [List.length_take]; omega),
        ih (bs.length - piece.bytes) (by omega) _ List.length_drop, List.take_append_drop]

/-- **A source that fails delivers the whole pieces in front of the failure**, and
fails only if the failure is not behind its end. -/
theorem delivery_of_breaking (piece : ReadSize) (bs : Bytes) (k : Nat) :
    (Source.mk bs (some k)).delivery piece =
      if k ≤ bs.length then (bs.take (piece.bytes * (k / piece.bytes)), true)
      else (bs, false) := by
  induction hn : bs.length using Nat.strongRecOn generalizing bs k with
  | ind n ih =>
    subst hn
    have hp := piece.pos
    by_cases hfail : runsInto (some k) piece.bytes (bs.take piece.bytes).length = true
    · -- The next read runs into the failure, and nothing of that piece is delivered.
      have hk : k ≤ bs.length ∧ k < piece.bytes := by
        simp only [runsInto, List.length_take, decide_eq_true_eq] at hfail
        omega
      rw [delivery_of_failure (by simp only [read]; rw [if_pos hfail]), if_pos hk.1,
        Nat.div_eq_of_lt hk.2, Nat.mul_zero, List.take_zero]
    · -- The next piece is delivered, and the failure comes nearer by its length.
      have hread : (Source.mk bs (some k)).read piece.bytes = some (bs.take piece.bytes,
          ⟨bs.drop piece.bytes, some (k - (bs.take piece.bytes).length)⟩) := by
        simp only [read]
        rw [if_neg hfail]
        rfl
      simp only [runsInto, List.length_take, decide_eq_true_eq] at hfail
      by_cases hs : bs.length < piece.bytes
      · rw [delivery_of_end hread (by rw [List.length_take]; omega), if_neg (by omega),
          List.take_of_length_le (by omega)]
      · have hlen : (bs.take piece.bytes).length = piece.bytes := by
          rw [List.length_take]
          omega
        have hlater := ih (bs.length - piece.bytes) (by omega) (bs.drop piece.bytes)
          (k - piece.bytes) List.length_drop
        rw [delivery_of_piece hread (by omega), hlen, hlater]
        by_cases hk : k ≤ bs.length
        · rw [if_pos hk, if_pos (by omega)]
          have hdiv : k / piece.bytes = (k - piece.bytes) / piece.bytes + 1 := by
            rw [Nat.div_eq k, if_pos ⟨hp, by omega⟩]
          rw [hdiv, Nat.mul_succ, Nat.add_comm _ piece.bytes, List.take_add]
        · rw [if_neg hk, if_neg (by omega), List.take_append_drop]

end Source

namespace Reader

/-! ### Looking at the front of a window -/

/-- Unless bytes are missing, more bytes show nothing else. -/
theorem examine_append {h : Header} {bs : Bytes} (more : Bytes)
    (hf : examine h bs ≠ .nothing .incomplete) : examine h (bs ++ more) = examine h bs := by
  unfold examine at hf ⊢
  rw [Block.decode_append more]
  intro hd
  rw [hd] at hf
  exact hf rfl

theorem size_le_of_examine_good {h : Header} {bs : Bytes} {b : Block} {n : Nat}
    (he : examine h bs = .good b n) : n ≤ bs.length := by
  unfold examine at he
  split at he
  · cases he
  · next hd =>
    split at he
    · cases he
      exact (Block.of_decode_eq_ok hd).2.2.2.1
    · cases he

theorem size_le_of_examine_bad {h : Header} {bs : Bytes} {n : Nat}
    (he : examine h bs = .bad n) : n ≤ bs.length := by
  unfold examine at he
  split at he
  · cases he
  · next hd =>
    split at he
    · cases he
    · cases he
      exact (Block.of_decode_eq_ok hd).2.2.2.1

end Reader

namespace Scan

/-! ### One step of a scan -/

theorem next_of_good {h : Header} {s : Scan} {b : Block} {n : Nat}
    (hc : s.rest.covers Block.overhead = true) (he : Reader.examine h s.rest = .good b n) :
    s.next h = (some b, ⟨s.rest.drop n, false, s.counts.returned b n⟩) := by
  rw [next, dif_pos hc]
  split
  · next he' => rw [he] at he'; cases he'; rfl
  · next he' => rw [he] at he'; cases he'
  · next he' => rw [he] at he'; cases he'

theorem next_of_bad {h : Header} {s : Scan} {n : Nat}
    (hc : s.rest.covers Block.overhead = true) (he : Reader.examine h s.rest = .bad n) :
    s.next h = next h ⟨s.rest.drop n, false, s.counts.refused n⟩ := by
  rw [next, dif_pos hc]
  split
  · next he' => rw [he] at he'; cases he'
  · next he' => rw [he] at he'; cases he'; rfl
  · next he' => rw [he] at he'; cases he'

theorem next_of_nothing {h : Header} {s : Scan} {f : Fault}
    (hc : s.rest.covers Block.overhead = true) (he : Reader.examine h s.rest = .nothing f) :
    s.next h = next h (s.drop f) := by
  rw [next, dif_pos hc]
  split
  · next he' => rw [he] at he'; cases he'
  · next he' => rw [he] at he'; cases he'
  · next he' => rw [he] at he'; cases he'; rfl

/-- A block uses up at least one byte. -/
theorem length_lt_of_next {h : Header} {s later : Scan} {b : Block}
    (hn : s.next h = (some b, later)) : later.rest.length < s.rest.length := by
  induction s using Scan.next.induct (h := h) with
  | case1 s hc b' n he =>
    rw [next_of_good hc he] at hn
    cases hn
    have := Reader.examine_good_pos he
    rw [Bytes.covers_iff, Block.overhead] at hc
    simp only [List.length_drop]
    omega
  | case2 s hc n he ih =>
    rw [next_of_bad hc he] at hn
    exact Nat.lt_of_lt_of_le (ih hn) (List.drop_sublist _ _).length_le
  | case3 s hc f he ih =>
    rw [next_of_nothing hc he] at hn
    exact Nat.lt_of_lt_of_le (ih hn) (List.drop_sublist _ _).length_le
  | case4 s hc =>
    rw [next, dif_neg hc] at hn
    cases hn

/-- Once no block is left, scanning on gives nothing. -/
theorem drainFor_of_none {h : Header} {s later : Scan} (hn : s.next h = (none, later))
    (calls : Nat) : drainFor h (calls + 1) s = ([], later) := by
  rw [drainFor, hn]

theorem drainFor_of_some {h : Header} {s later : Scan} {b : Block}
    (hn : s.next h = (some b, later)) (calls : Nat) :
    drainFor h (calls + 1) s =
      ((b, later.counts) :: (drainFor h calls later).1, (drainFor h calls later).2) := by
  rw [drainFor, hn]

end Scan

namespace Reader

/-! ### One step of a reader -/

section

variable {r later : Reader} {b : Block}

theorem next_of_found (h : r.step = .found b later) : r.next = (some b, later) := by
  rw [next]
  split
  · next h' => rw [h] at h'; cases h'; rfl
  · next h' => rw [h] at h'; cases h'
  · next h' => rw [h] at h'; cases h'

theorem next_of_onward (h : r.step = .onward later) : r.next = later.next := by
  rw [next]
  split
  · next h' => rw [h] at h'; cases h'
  · next h' => rw [h] at h'; cases h'; rfl
  · next h' => rw [h] at h'; cases h'

theorem next_of_done (h : r.step = .done) : r.next = (none, r) := by
  rw [next]
  split
  · next h' => rw [h] at h'; cases h'
  · next h' => rw [h] at h'; cases h'
  · rfl

theorem drainFrom_of_found (h : r.step = .found b later) (found : List (Block × ReadCounts)) :
    drainFrom found r = drainFrom ((b, later.counts) :: found) later := by
  rw [drainFrom]
  split
  · next h' => rw [h] at h'; cases h'; rfl
  · next h' => rw [h] at h'; cases h'
  · next h' => rw [h] at h'; cases h'

theorem drainFrom_of_onward (h : r.step = .onward later) (found : List (Block × ReadCounts)) :
    drainFrom found r = drainFrom found later := by
  rw [drainFrom]
  split
  · next h' => rw [h] at h'; cases h'
  · next h' => rw [h] at h'; cases h'; rfl
  · next h' => rw [h] at h'; cases h'

theorem drainFrom_of_done (h : r.step = .done) (found : List (Block × ReadCounts)) :
    drainFrom found r = (found.reverse, r) := by
  rw [drainFrom]
  split
  · next h' => rw [h] at h'; cases h'
  · next h' => rw [h] at h'; cases h'
  · rfl

end

/-! ### A reader that follows a scan -/

/-- What the source will still deliver, and whether it will have failed then. -/
def ahead (r : Reader) : Bytes × Bool :=
  match r.source with
  | none => ([], r.failed)
  | some source => if r.exhausted then ([], r.failed) else source.delivery r.piece

theorem ahead_of_exhausted {r : Reader} (hx : r.exhausted = true) : r.ahead.1 = [] := by
  unfold ahead
  split
  · rfl
  · rw [if_pos hx]

theorem ahead_of_source {r : Reader} {source : Source} (hs : r.source = some source)
    (hx : r.exhausted = false) : r.ahead = source.delivery r.piece := by
  simp [ahead, hs, hx]

/-- A reader has got as far as a scan: the window and what is still to be delivered
make up what the scan has left, and the counting stands the same.  `fails` says whether
the source ends in a failure. -/
structure Follows (h : Header) (fails : Bool) (r : Reader) (s : Scan) : Prop where
  /-- A tape is open. -/
  isOpen : r.isOpen = true
  /-- Both know the same header. -/
  header : r.header = h
  /-- Both have the same bytes left. -/
  rest : s.rest = r.window ++ r.ahead.1
  /-- How the source will end. -/
  fails : r.ahead.2 = fails
  /-- No failure shows before the source is exhausted. -/
  live : r.exhausted = false → r.failed = false
  /-- Both are in the same run of damage. -/
  resyncing : s.resyncing = r.resyncing
  /-- Both have counted the same. -/
  counts : s.counts = r.counts

namespace Follows

variable {h : Header} {fails : Bool} {r later : Reader} {s : Scan}

theorem source_ne_none (hf : Follows h fails r s) : r.source ≠ none :=
  Option.isSome_iff_ne_none.1 hf.isOpen

/-- Reading on moves bytes from the source to the window. -/
theorem refill (hf : Follows h fails r s) {source : Source} (hs : r.source = some source)
    (he : r.exhausted = false) : Follows h fails (r.refill source) s := by
  have hrest := hf.rest
  have hfails := hf.fails
  rw [ahead_of_source hs he] at hrest hfails
  unfold Reader.refill
  -- Whether the read fails, comes to the end or brings a whole piece, the window and what
  -- is still to come make up the same bytes as before.
  cases hr : source.read r.piece.bytes with
  | none =>
    rw [Source.delivery_of_failure hr] at hrest hfails
    exact ⟨hf.isOpen, hf.header, by simpa [ahead, hs] using hrest,
      by simpa [ahead, hs] using hfails, nofun, hf.resyncing, hf.counts⟩
  | some p =>
    obtain ⟨bs, rest⟩ := p
    have hcov : bs.covers r.piece.bytes = decide (¬bs.length < r.piece.bytes) := by
      rw [Bool.eq_iff_iff, Bytes.covers_iff, decide_eq_true_iff, Nat.not_lt]
    by_cases hend : bs.length < r.piece.bytes
    · rw [Source.delivery_of_end hr hend] at hrest hfails
      refine ⟨rfl, hf.header, ?_, ?_, fun _ => hf.live he, hf.resyncing, hf.counts⟩
      · simpa [ahead, hcov, hend] using hrest
      · simpa [ahead, hcov, hend, hf.live he] using hfails
    · rw [Source.delivery_of_piece hr hend] at hrest hfails
      refine ⟨rfl, hf.header, ?_, ?_, fun _ => hf.live he, hf.resyncing, hf.counts⟩
      · simpa [ahead, hcov, hend] using hrest
      · simpa [ahead, hcov, hend] using hfails

/-- Both use up bytes that are in the window. -/
theorem consume (hf : Follows h fails r s) {n : Nat} (hn : n ≤ r.window.length) (flag : Bool)
    (c : ReadCounts) :
    Follows h fails { r with window := r.window.drop n, resyncing := flag, counts := c }
      ⟨s.rest.drop n, flag, c⟩ := by
  refine ⟨hf.isOpen, hf.header, ?_, hf.fails, hf.live, rfl, rfl⟩
  rw [hf.rest, List.drop_append_of_le_length hn]
  rfl

/-- An exhausted reader has the rest of the tape in its window. -/
theorem rest_eq_window (hf : Follows h fails r s) (hx : r.exhausted = true) :
    s.rest = r.window := by
  rw [hf.rest, ahead_of_exhausted hx, List.append_nil]

/-- The window shows what the rest of the tape shows, unless bytes are missing that are
still to be read. -/
theorem examine_rest (hf : Follows h fails r s)
    (hx : r.exhausted = true ∨ examine r.header r.window ≠ .nothing .incomplete) :
    examine h s.rest = examine r.header r.window := by
  rw [hf.header] at hx ⊢
  by_cases he : r.exhausted = true
  · rw [hf.rest_eq_window he]
  · rw [hf.rest, examine_append _ (hx.resolve_left he)]

theorem covers_rest (hf : Follows h fails r s) (hc : r.window.covers Block.overhead = true) :
    s.rest.covers Block.overhead = true := by
  rw [Bytes.covers_iff] at hc ⊢
  rw [hf.rest, List.length_append]
  omega

/-- A block that the reader finds is the next one of the scan. -/
theorem found (hf : Follows h fails r s) {b : Block} (hstep : r.step = .found b later) :
    ∃ s', s.next h = (some b, s') ∧ Follows h fails later s' := by
  unfold step at hstep
  split at hstep
  · next hnone => exact absurd hnone hf.source_ne_none
  next source hs =>
  split at hstep
  · split at hstep <;> cases hstep
  · next hc =>
    have hc : r.window.covers Block.overhead = true := by simpa using hc
    split at hstep
    · next he =>
      cases hstep
      have hrest := hf.examine_rest (.inr (by rw [he]; nofun))
      refine ⟨_, Scan.next_of_good (hf.covers_rest hc) (hrest.trans he), ?_⟩
      rw [hf.counts]
      exact hf.consume (size_le_of_examine_good he) _ _
    · cases hstep
    · split at hstep <;> cases hstep

/-- A step without a block leaves the scan where it is, or is a step of the scan. -/
theorem onward (hf : Follows h fails r s) (hstep : r.step = .onward later) :
    ∃ s', s.next h = s'.next h ∧ s'.rest.length ≤ s.rest.length ∧
      Follows h fails later s' := by
  unfold step at hstep
  split at hstep
  · next hnone => exact absurd hnone hf.source_ne_none
  next source hs =>
  split at hstep
  · split at hstep
    · cases hstep
    · next he =>
      cases hstep
      exact ⟨s, rfl, Nat.le_refl _, hf.refill hs (by simpa using he)⟩
  · next hc =>
    have hc : r.window.covers Block.overhead = true := by simpa using hc
    split at hstep
    · cases hstep
    · next he =>
      cases hstep
      have hrest := hf.examine_rest (.inr (by rw [he]; nofun))
      refine ⟨_, Scan.next_of_bad (hf.covers_rest hc) (hrest.trans he),
        (List.drop_sublist _ _).length_le, ?_⟩
      rw [hf.counts]
      exact hf.consume (size_le_of_examine_bad he) _ _
    · next f he =>
      split at hstep
      · next hmore =>
        cases hstep
        exact ⟨s, rfl, Nat.le_refl _, hf.refill hs hmore.2⟩
      · next hmore =>
        cases hstep
        -- Either the fault shows already in the window, or nothing more will come.
        have hrest : examine h s.rest = .nothing f := by
          refine (hf.examine_rest ?_).trans he
          by_cases hx : r.exhausted = true
          · exact .inl hx
          · refine .inr fun hinc => hmore ⟨?_, by simpa using hx⟩
            rw [he] at hinc
            cases hinc
            rfl
        refine ⟨_, Scan.next_of_nothing (hf.covers_rest hc) hrest,
          (List.drop_sublist _ _).length_le, ?_⟩
        rw [Bytes.covers_iff] at hc
        rw [Scan.drop, hf.resyncing, hf.counts]
        exact hf.consume (by simp only [Block.overhead] at hc; omega) _ _

/-- Where the reader ends, the scan ends, and a failure of the source shows. -/
theorem done (hf : Follows h fails r s) (hstep : r.step = .done) :
    s.next h = (none, s) ∧ r.isExhausted = true ∧ r.failed = fails ∧ s.rest = r.window := by
  unfold step at hstep
  split at hstep
  · next hnone => exact absurd hnone hf.source_ne_none
  next source hs =>
  split at hstep
  · next hc =>
    split at hstep
    · next hx =>
      have hrest := hf.rest_eq_window hx
      have hlen : r.window.length < Block.overhead := by
        rw [Bool.not_eq_true', Bool.eq_false_iff, ne_eq, Bytes.covers_iff] at hc
        omega
      refine ⟨Scan.next_of_short (by rw [hrest]; exact hlen), ?_, ?_, hrest⟩
      · rw [isExhausted, hx, hc]
        rfl
      · rw [← hf.fails, ahead, hs]
        simp [hx]
    · cases hstep
  · split at hstep
    · cases hstep
    · cases hstep
    · split at hstep <;> cases hstep

/-- **A call of the reader is a call of the scan.** -/
theorem next (hf : Follows h fails r s) :
    r.next.1 = (s.next h).1 ∧ Follows h fails r.next.2 (s.next h).2 := by
  induction r using Reader.next.induct generalizing s with
  | case1 r b later hstep =>
    obtain ⟨s', hnext, hlater⟩ := hf.found hstep
    rw [next_of_found hstep, hnext]
    exact ⟨rfl, hlater⟩
  | case2 r later hstep ih =>
    obtain ⟨s', hnext, -, hlater⟩ := hf.onward hstep
    rw [next_of_onward hstep, hnext]
    exact ih hlater
  | case3 r hstep =>
    rw [next_of_done hstep, (hf.done hstep).1]
    exact ⟨rfl, hf⟩

/-- Reading on to the end is scanning on to the end. -/
theorem drainFrom (hf : Follows h fails r s) {calls : Nat} (hcalls : s.rest.length < calls)
    (found : List (Block × ReadCounts)) :
    (Reader.drainFrom found r).1 = found.reverse ++ (Scan.drainFor h calls s).1 ∧
      Follows h fails (Reader.drainFrom found r).2 (Scan.drainFor h calls s).2 ∧
      (Reader.drainFrom found r).2.step = .done := by
  induction found, r using Reader.drainFrom.induct generalizing s calls with
  | case1 found r b later hstep ih =>
    obtain ⟨s', hnext, hlater⟩ := hf.found hstep
    -- A block uses up at least a byte, so the calls of the scan do not run out.
    have hlen := Scan.length_lt_of_next hnext
    obtain ⟨calls, rfl⟩ : ∃ n, calls = n + 1 := ⟨calls - 1, by omega⟩
    obtain ⟨hfound, hrest⟩ := ih hlater (by omega : s'.rest.length < calls)
    rw [drainFrom_of_found hstep, Scan.drainFor_of_some hnext, hfound, List.reverse_cons,
      List.append_assoc, hlater.counts]
    exact ⟨rfl, hrest⟩
  | case2 found r later hstep ih =>
    obtain ⟨s', hnext, hlen, hlater⟩ := hf.onward hstep
    obtain ⟨calls, rfl⟩ : ∃ n, calls = n + 1 := ⟨calls - 1, by omega⟩
    have hsame : Scan.drainFor h (calls + 1) s = Scan.drainFor h (calls + 1) s' := by
      rw [Scan.drainFor, Scan.drainFor, hnext]
    rw [drainFrom_of_onward hstep, hsame]
    exact ih hlater (by omega)
  | case3 found r hstep =>
    obtain ⟨calls, rfl⟩ : ∃ n, calls = n + 1 := ⟨calls - 1, by omega⟩
    rw [drainFrom_of_done hstep, Scan.drainFor_of_none (hf.done hstep).1]
    exact ⟨(List.append_nil _).symm, hf, hstep⟩

end Follows

/-! ### Opening a tape -/

/-- A source whose first bytes are a header is opened, and what follows them is left. -/
theorem openSource_of_decode (r : Reader) {mark : Bytes} {h : Header}
    (hm : mark.length = Header.size) (hd : Header.decode mark = .ok h) (body : Bytes)
    (breaks : Option Nat) :
    r.openSource ⟨mark ++ body, breaks.map (Header.size + ·)⟩ =
      ({ r.cleared with header := h, source := some ⟨body, breaks⟩ }, none) := by
  have hread : (Source.mk (mark ++ body) (breaks.map (Header.size + ·))).read Header.size =
      some (mark, ⟨body, breaks⟩) := by
    have htake : (mark ++ body).take Header.size = mark := List.take_left' hm
    have hdrop : (mark ++ body).drop Header.size = body := List.drop_left' hm
    simp only [Source.read, htake, hdrop, hm]
    cases breaks with
    | none => rfl
    | some k =>
      have hok : ¬Source.runsInto (some (Header.size + k)) Header.size Header.size = true := by
        simp only [Source.runsInto, decide_eq_true_eq]
        omega
      rw [Option.map_some, if_neg hok, Option.map_some, Nat.add_sub_cancel_left]
  simp only [openSource, hread, hd]

/-- A header that is refused leaves the reader closed, and with the header it had. -/
theorem openSource_of_refused (r : Reader) {mark : Bytes} {f : Fault}
    (hm : mark.length = Header.size) (hd : Header.decode mark = .error f) (body : Bytes) :
    r.openSource (.ofBytes (mark ++ body)) = (r.cleared, some f) := by
  have hread : (Source.ofBytes (mark ++ body)).read Header.size =
      some (mark, .ofBytes body) := by
    refine (Source.read_of_reliable _ _).trans ?_
    rw [List.take_left' hm, List.drop_left' hm]
    rfl
  simp only [openSource, hread, hd]

theorem opens_of_reliable (r : Reader) {mark : Bytes} {h : Header}
    (hm : mark.length = Header.size) (hd : Header.decode mark = .ok h) (body : Bytes) :
    (r.openSource (.ofBytes (mark ++ body))).2 = none ∧
      (r.openSource (.ofBytes (mark ++ body))).1.header = h := by
  have hopen : r.openSource (.ofBytes (mark ++ body)) = _ :=
    openSource_of_decode r hm hd body none
  rw [hopen]
  exact ⟨rfl, rfl⟩

/-- The reader of a tape that has just been opened follows a scan from the start of what
will be delivered. -/
theorem follows_openSource (r : Reader) {mark : Bytes} {h : Header}
    (hm : mark.length = Header.size) (hd : Header.decode mark = .ok h) {body q : Bytes}
    {breaks : Option Nat} {fails : Bool}
    (hq : (Source.mk body breaks).delivery r.piece = (q, fails)) :
    Follows h fails (r.openSource ⟨mark ++ body, breaks.map (Header.size + ·)⟩).1 (.start q) := by
  rw [openSource_of_decode r hm hd]
  have hahead : ahead { r.cleared with header := h, source := some ⟨body, breaks⟩ } =
      (q, fails) := hq
  exact ⟨rfl, rfl, by rw [hahead]; rfl, by rw [hahead], fun _ => rfl, rfl, rfl⟩

/-! ### Any number of calls -/

/-- What a number of calls give, with the counters after each, and the reader then. -/
def calls : Nat → Reader → List (Option Block × ReadCounts) × Reader
  | 0, r => ([], r)
  | n + 1, r =>
    ((r.next.1, r.next.2.counts) :: (calls n r.next.2).1, (calls n r.next.2).2)

end Reader

namespace Scan

/-- What a number of calls give, with the counters after each, and the scan then. -/
def calls (h : Header) : Nat → Scan → List (Option Block × ReadCounts) × Scan
  | 0, s => ([], s)
  | n + 1, s =>
    (((s.next h).1, (s.next h).2.counts) :: (calls h n (s.next h).2).1,
      (calls h n (s.next h).2).2)

end Scan

namespace Reader

namespace Follows

variable {h : Header} {fails : Bool} {r : Reader} {s : Scan} {body : Bytes}

/-- **Any number of calls of the reader are as many of the scan.** -/
theorem calls (hf : Follows h fails r s) (n : Nat) :
    (r.calls n).1 = (s.calls h n).1 ∧ Follows h fails (r.calls n).2 (s.calls h n).2 := by
  induction n generalizing r s with
  | zero => exact ⟨rfl, hf⟩
  | succ n ih =>
    obtain ⟨hblock, hnext⟩ := hf.next
    obtain ⟨hmore, hlast⟩ := ih hnext
    rw [Reader.calls, Scan.calls, hblock, hmore, hnext.counts]
    exact ⟨rfl, hlast⟩

/-- **To the end, the reader finds what the scan finds**, and then says how the source
ended. -/
theorem drain (hf : Follows h fails r (.start body)) :
    r.drain.1 = (Scan.drain h body).1 ∧ r.drain.2.counts = (Scan.drain h body).2.counts ∧
      r.drain.2.window = (Scan.drain h body).2.rest ∧ r.drain.2.header = h ∧
      r.drain.2.error? = if fails then some .io else none := by
  obtain ⟨hfound, hlast, hdone⟩ := hf.drainFrom (Nat.lt_succ_self _) []
  obtain ⟨-, -, hfailed, hrest⟩ := hlast.done hdone
  refine ⟨hfound, hlast.counts.symm, hrest.symm, hlast.header, ?_⟩
  rw [error?, Reader.drain, hfailed]

end Follows

/-! ### Windows and whole bodies -/

section

variable {mark : Bytes} {h : Header}

/-- Reading a tape that does not fail, with a window of any size, is scanning its body. -/
theorem calls_of_reliable (r : Reader) (hm : mark.length = Header.size)
    (hd : Header.decode mark = .ok h) (body : Bytes) (n : Nat) :
    ((r.openSource (.ofBytes (mark ++ body))).1.calls n).1 =
      (Scan.calls h n (.start body)).1 :=
  ((follows_openSource r hm hd (Source.delivery_of_reliable r.piece body)).calls n).1

theorem drain_of_reliable (r : Reader) (hm : mark.length = Header.size)
    (hd : Header.decode mark = .ok h) (body : Bytes) :
    let last := (r.openSource (.ofBytes (mark ++ body))).1.drain
    last.1 = (Scan.drain h body).1 ∧ last.2.counts = (Scan.drain h body).2.counts ∧
      last.2.window = (Scan.drain h body).2.rest ∧ last.2.header = h ∧ last.2.error? = none :=
  (follows_openSource r hm hd (Source.delivery_of_reliable r.piece body)).drain

/-- **A window shows what the whole tape shows.**  On every body, however it is cut into
pieces, each call gives what a scan of the whole body gives, with the same counters.  Where
the source fails, the reader gives what any reader gives of the pieces delivered before, and
then says that the source has failed. -/
theorem windowed_reading_eq_scanning (r : Reader) (hm : mark.length = Header.size)
    (hd : Header.decode mark = .ok h) (body : Bytes) :
    let opened := r.openSource (.ofBytes (mark ++ body))
    (opened.2 = none ∧ opened.1.header = h ∧
        (∀ n, (opened.1.calls n).1 = (Scan.calls h n (.start body)).1) ∧
        opened.1.drain.1 = (Scan.drain h body).1 ∧
        opened.1.drain.2.counts = (Scan.drain h body).2.counts ∧
        opened.1.drain.2.error? = none) ∧
      ∀ (other : Reader) (k : Nat), k ≤ body.length →
        let broken := r.openSource ⟨mark ++ body, some (Header.size + k)⟩
        let q := body.take (r.piece.bytes * (k / r.piece.bytes))
        let whole := other.openSource (.ofBytes (mark ++ q))
        broken.2 = none ∧ broken.1.header = h ∧
          (∀ n, (broken.1.calls n).1 = (whole.1.calls n).1) ∧
          broken.1.drain.1 = whole.1.drain.1 ∧
          broken.1.drain.2.counts = whole.1.drain.2.counts ∧
          broken.1.drain.2.error? = some .io ∧ whole.1.drain.2.error? = none := by
  intro opened
  constructor
  · obtain ⟨hopen, hheader⟩ := opens_of_reliable r hm hd body
    obtain ⟨hfound, hcounts, -, -, herror⟩ := drain_of_reliable r hm hd body
    exact ⟨hopen, hheader, calls_of_reliable r hm hd body, hfound, hcounts, herror⟩
  · intro other k hk broken q whole
    have hopen : broken = _ := openSource_of_decode r hm hd body (some k)
    have hq : (Source.mk body (some k)).delivery r.piece = (q, true) := by
      rw [Source.delivery_of_breaking, if_pos hk]
    have hbroken : Follows h true broken.1 (.start q) := follows_openSource r hm hd hq
    obtain ⟨hfound, hcounts, -, -, herror⟩ := hbroken.drain
    obtain ⟨hfound', hcounts', -, -, herror'⟩ := drain_of_reliable other hm hd q
    refine ⟨congrArg Prod.snd hopen, congrArg (·.1.header) hopen, fun n => ?_,
      hfound.trans hfound'.symm, hcounts.trans hcounts'.symm, herror, herror'⟩
    exact (hbroken.calls n).1.trans (calls_of_reliable other hm hd q n).symm

/-- A frame and the start of another, read three bytes at a time from a source that fails
behind the first frame. -/
theorem windowed_reading_eq_scanning_of_small_pieces :
    let body := Block.frame ⟨7, 1, [1, 2, 3, 4], false⟩ ++ [0, 0, 0]
    let broken := (idle ⟨3, by decide⟩).openSource
      ⟨Header.blank.encode ++ body, some (Header.size + 24)⟩
    Header.blank.encode.length = Header.size ∧
      Header.decode Header.blank.encode = .ok Header.blank ∧ 24 ≤ body.length ∧
      broken.2 = none ∧ broken.1.drain.2.error? = some .io := by
  have hm := Header.length_encode .blank
  have hd := Header.decode_encode_self Header.isListed_blank
  have hk : 24 ≤ (Block.frame ⟨7, 1, [1, 2, 3, 4], false⟩ ++ [0, 0, 0]).length := by
    simp [Block.frameSize, Block.overhead]
  have hbroken := (windowed_reading_eq_scanning (idle ⟨3, by decide⟩) hm hd _).2
    (idle .standard) 24 hk
  exact ⟨hm, hd, hk, hbroken.1, hbroken.2.2.2.2.2.1⟩

end

end Reader
end IqTape
