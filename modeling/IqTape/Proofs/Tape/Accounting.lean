import IqTape.Proofs.Tape.Payload
import IqTape.Proofs.Tape.Window

/-!
# A reader accounts for every byte

Whatever stands behind a header, each byte of it is part of a block that came out, has been
dropped, is in the window or has not been read.  The other counters are those of the blocks that
came out, and each of these is raw and as long as its samples ask for.  The counters are words, so
they hold the low bits of what they count.  The counting is that of a scan of what the source
delivers; what a source holds back behind its failure is all that a scan does not see.

## Main definitions

* `Scan.Accounts` — the counters are those of some blocks and of the bytes around them.
* `Reader.HoldsBack` — how much of what is unread will never be delivered.

## Main results

* `Block.isWhole_of_accept` — only whole blocks are accepted.
* `Scan.Accounts.next`, `Scan.Accounts.calls` — the accounts of one call and of any number.
* `Reader.HoldsBack.step` — a step changes nothing of what is held back.
* `Reader.calls_of_done` — once there is no block, there is none any more.
* `Reader.accounts_for_every_byte` — **all of this on any tape that can be opened**.
-/

namespace IqTape

/-! ### Blocks that are accepted -/

namespace Block

variable {format : SampleFormat} {stored b : Block}

theorem raw_of_unpack (h : stored.unpack = .ok b) : b.packed = false := by
  unfold unpack at h
  split at h
  · next hraw =>
    cases h
    simpa using hraw
  · split at h
    · cases h
      rfl
    · cases h

/-- **Only whole blocks are accepted.** -/
theorem isWhole_of_accept (h : stored.accept format = .ok b) : b.IsWhole format := by
  cases hu : stored.unpack with
  | error f =>
    rw [accept, hu] at h
    cases h
  | ok raw =>
    have hraw := raw_of_unpack hu
    rw [accept_of_unpack hraw hu] at h
    split at h
    · next hwhole =>
      cases h
      exact hwhole
    · cases h

end Block

/-- The block at the front of a window is whole, and its frame has room for the overhead. -/
theorem Reader.of_examine_good {h : Header} {bs : Bytes} {b : Block} {n : Nat}
    (he : examine h bs = .good b n) : b.IsWhole h.format ∧ Block.overhead ≤ n := by
  unfold examine at he
  split at he
  · cases he
  · next hd =>
    split at he
    · next haccept =>
      cases he
      exact ⟨Block.isWhole_of_accept haccept, Block.overhead_le_of_decode hd⟩
    · cases he

/-! ### The accounts of a scan -/

namespace Scan

/-- The accounts of a scan of so many bytes that has found some blocks. -/
structure Accounts (h : Header) (size : Nat) (found : List Block) (s : Scan) : Prop where
  blocks : s.counts.blocks = found.length.toUInt64
  samples : s.counts.samples = Block.total found
  whole : ∀ b ∈ found, b.IsWhole h.format
  /-- Every byte is processed, skipped or left; a frame has room for more than its payload. -/
  bytes : ∃ processed skipped : Nat, s.counts.processed = processed.toUInt64 ∧
    s.counts.skipped = skipped.toUInt64 ∧ Block.overhead * found.length ≤ processed ∧
    processed + skipped + s.rest.length = size

namespace Accounts

variable {h : Header} {size n : Nat} {found : List Block} {s : Scan} {b : Block}

theorem start (h : Header) (body : Bytes) : (Scan.start body).Accounts h body.length [] :=
  ⟨rfl, rfl, List.forall_mem_nil _, 0, 0, rfl, rfl, Nat.le_refl _, Nat.zero_add _⟩

/-- A block that comes out is processed. -/
theorem good (ha : s.Accounts h size found) (he : Reader.examine h s.rest = .good b n)
    (resyncing : Bool) :
    Accounts h size (found ++ [b]) ⟨s.rest.drop n, resyncing, s.counts.returned b n⟩ := by
  obtain ⟨hwhole, hroom⟩ := Reader.of_examine_good he
  have hn := Reader.size_le_of_examine_good he
  obtain ⟨hblocks, hsamples, hfound, processed, skipped, hprocessed, hskipped, hframed, hbytes⟩ :=
    ha
  refine ⟨?_, ?_, ?_, processed + n, skipped, ?_, hskipped, ?_, ?_⟩
  · rw [List.length_append]
    exact (congrArg (· + 1) hblocks).trans (toUInt64_add _ 1).symm
  · rw [Block.total_append, Block.total_cons, Block.total_nil, UInt64.add_zero, ← hsamples]
    rfl
  · intro d hd
    rcases List.mem_append.1 hd with hd | hd
    · exact hfound d hd
    · rw [List.mem_singleton.1 hd]
      exact hwhole
  · exact (congrArg (· + n.toUInt64) hprocessed).trans (toUInt64_add _ _).symm
  · rw [List.length_append, List.length_singleton, Nat.mul_add, Nat.mul_one]
    omega
  · rw [List.length_drop]
    omega

/-- A block that is refused is skipped. -/
theorem bad (ha : s.Accounts h size found) (he : Reader.examine h s.rest = .bad n)
    (resyncing : Bool) :
    Accounts h size found ⟨s.rest.drop n, resyncing, s.counts.refused n⟩ := by
  have hn := Reader.size_le_of_examine_bad he
  obtain ⟨hblocks, hsamples, hfound, processed, skipped, hprocessed, hskipped, hframed, hbytes⟩ :=
    ha
  refine ⟨hblocks, hsamples, hfound, processed, skipped + n, hprocessed, ?_, hframed, ?_⟩
  · exact (congrArg (· + n.toUInt64) hskipped).trans (toUInt64_add _ _).symm
  · rw [List.length_drop]
    omega

/-- So is a byte that is dropped. -/
theorem drop (ha : s.Accounts h size found) (hc : s.rest.covers Block.overhead = true)
    (f : Fault) : (s.drop f).Accounts h size found := by
  obtain ⟨hblocks, hsamples, hfound, processed, skipped, hprocessed, hskipped, hframed, hbytes⟩ :=
    ha
  refine ⟨hblocks, hsamples, hfound, processed, skipped + 1, hprocessed, ?_, hframed, ?_⟩
  · exact (congrArg (· + 1) hskipped).trans (toUInt64_add _ 1).symm
  · rw [Bytes.covers_iff, Block.overhead] at hc
    simp only [Scan.drop, List.length_drop]
    omega

/-- **A call keeps the accounts**, with the block that it gives. -/
theorem next (ha : s.Accounts h size found) :
    (s.next h).2.Accounts h size (found ++ (s.next h).1.toList) := by
  induction s using Scan.next.induct (h := h) with
  | case1 s hc b n he =>
    rw [next_of_good hc he]
    exact ha.good he false
  | case2 s hc n he ih =>
    rw [next_of_bad hc he]
    exact ih (ha.bad he false)
  | case3 s hc f he ih =>
    rw [next_of_nothing hc he]
    exact ih (ha.drop hc f)
  | case4 s hc =>
    rw [Scan.next, dif_neg hc]
    rwa [Option.toList_none, List.append_nil]

/-- **So does any number of calls.** -/
theorem calls (ha : s.Accounts h size found) (n : Nat) :
    (s.calls h n).2.Accounts h size (found ++ (s.calls h n).1.filterMap Prod.fst) := by
  induction n generalizing s found with
  | zero =>
    rw [Scan.calls, List.filterMap_nil, List.append_nil]
    exact ha
  | succ n ih =>
    have hlater := ih ha.next
    rw [List.append_assoc] at hlater
    have hblocks : (s.calls h (n + 1)).1.filterMap Prod.fst =
        (s.next h).1.toList ++ ((s.next h).2.calls h n).1.filterMap Prod.fst := by
      rw [Scan.calls, List.filterMap_cons]
      cases (s.next h).1 <;> rfl
    rw [hblocks]
    exact hlater

end Accounts

end Scan

/-! ### What a source holds back -/

/-- There is no header in fewer bytes than a header has. -/
theorem Header.size_le_of_decode {bs : Bytes} {h : Header} (hd : Header.decode bs = .ok h) :
    Header.size ≤ bs.length := by
  unfold Header.decode at hd
  split at hd
  · cases hd
  · next hcov => simpa [Bytes.covers_iff] using hcov

/-- A source delivers no more than it holds. -/
theorem Source.length_delivery_le (piece : ReadSize) (s : Source) :
    (s.delivery piece).1.length ≤ s.rest.length := by
  obtain ⟨bs, _ | k⟩ := s
  · have hall : (Source.mk bs none).delivery piece = (bs, false) := delivery_of_reliable piece bs
    exact Nat.le_of_eq (congrArg (·.1.length) hall)
  · rw [delivery_of_breaking]
    split
    · exact List.length_take_le' _ _
    · exact Nat.le_refl _

namespace Reader

variable {r later : Reader} {source : Source} {lost : Nat}

theorem unread_of_source (hs : r.source = some source) : r.unread = source.rest.length := by
  rw [unread, hs]
  rfl

/-- So many of the unread bytes will never be delivered: they are behind a failure of the
source, or in the piece that runs into it. -/
def HoldsBack (lost : Nat) (r : Reader) : Prop := r.unread = r.ahead.1.length + lost

/-- A step that does not read on leaves the source alone. -/
theorem source_of_step (hstep : (∃ b, r.step = .found b later) ∨ r.step = .onward later) :
    (later.unread = r.unread ∧ later.ahead = r.ahead) ∨
      ∃ source, r.source = some source ∧ r.exhausted = false ∧ later = r.refill source := by
  unfold step at hstep
  split at hstep
  · rcases hstep with ⟨_, hstep⟩ | hstep <;> cases hstep
  next source hs =>
  split at hstep
  · split at hstep
    · rcases hstep with ⟨_, hstep⟩ | hstep <;> cases hstep
    · next hx =>
      rcases hstep with ⟨_, hstep⟩ | hstep <;> cases hstep
      exact .inr ⟨source, hs, by simpa using hx, rfl⟩
  · split at hstep
    · rcases hstep with ⟨_, hstep⟩ | hstep <;> cases hstep
      exact .inl ⟨rfl, rfl⟩
    · rcases hstep with ⟨_, hstep⟩ | hstep <;> cases hstep
      exact .inl ⟨rfl, rfl⟩
    · split at hstep
      · next hmore =>
        rcases hstep with ⟨_, hstep⟩ | hstep <;> cases hstep
        exact .inr ⟨source, hs, hmore.2, rfl⟩
      · rcases hstep with ⟨_, hstep⟩ | hstep <;> cases hstep
        exact .inl ⟨rfl, rfl⟩

namespace HoldsBack

/-- Reading on delivers a piece of what is not held back. -/
theorem refill (h : r.HoldsBack lost) (hs : r.source = some source)
    (hx : r.exhausted = false) : (r.refill source).HoldsBack lost := by
  rw [HoldsBack, ahead_of_source hs hx, unread_of_source hs] at h
  unfold Reader.refill
  cases hr : source.read r.piece.bytes with
  | none =>
    rw [Source.delivery_of_failure hr] at h
    rw [HoldsBack, ahead_of_exhausted rfl]
    exact (unread_of_source hs).trans h
  | some p =>
    obtain ⟨bs, rest⟩ := p
    obtain ⟨hbs, hrest⟩ := Source.of_read_eq_some hr
    have hpiece : bs.length + rest.rest.length = source.rest.length := by
      rw [hrest, hbs, List.length_drop, List.length_take]
      omega
    have hcov := Bytes.covers_iff bs r.piece.bytes
    by_cases hend : bs.length < r.piece.bytes
    · -- Behind the end of the source nothing is left, so nothing was held back.
      have hnone : rest.rest = [] := by
        rw [hbs, List.length_take] at hend
        rw [hrest]
        exact List.drop_eq_nil_of_le (by omega)
      have hshort : (!bs.covers r.piece.bytes) = true := by
        rw [Bool.not_eq_true', Bool.eq_false_iff, ne_eq, hcov]
        omega
      rw [Source.delivery_of_end hr hend, ← hpiece, hnone] at h
      rw [HoldsBack, ahead_of_exhausted hshort, unread_of_source rfl, hnone]
      simp only [List.length_nil] at h ⊢
      omega
    · have hfull : (!bs.covers r.piece.bytes) = false := by
        rw [Bool.not_eq_false', hcov]
        omega
      rw [Source.delivery_of_piece hr hend, List.length_append] at h
      rw [HoldsBack, ahead_of_source rfl hfull, unread_of_source rfl]
      simp only
      omega

/-- **A step changes nothing of what is held back.** -/
theorem step (h : r.HoldsBack lost)
    (hstep : (∃ b, r.step = .found b later) ∨ r.step = .onward later) :
    later.HoldsBack lost := by
  rcases source_of_step hstep with ⟨hunread, hahead⟩ | ⟨source, hs, hx, rfl⟩
  · rw [HoldsBack, hunread, hahead]
    exact h
  · exact h.refill hs hx

theorem next (h : r.HoldsBack lost) : r.next.2.HoldsBack lost := by
  induction r using Reader.next.induct with
  | case1 r b later hstep =>
    rw [next_of_found hstep]
    exact h.step (.inl ⟨b, hstep⟩)
  | case2 r later hstep ih =>
    rw [next_of_onward hstep]
    exact ih (h.step (.inr hstep))
  | case3 r hstep =>
    rw [next_of_done hstep]
    exact h

theorem calls (h : r.HoldsBack lost) (n : Nat) : (r.calls n).2.HoldsBack lost := by
  induction n generalizing r with
  | zero => exact h
  | succ n ih => exact ih h.next

end HoldsBack

/-! ### The end of a tape -/

/-- A call that gives no block has come to the end. -/
theorem done_of_next_none (hnone : r.next.1 = none) : r.next.2.step = .done := by
  induction r using Reader.next.induct with
  | case1 r b later hstep =>
    rw [next_of_found hstep] at hnone
    cases hnone
  | case2 r later hstep ih =>
    rw [next_of_onward hstep] at hnone ⊢
    exact ih hnone
  | case3 r hstep => rwa [next_of_done hstep]

/-- **At the end every call gives no block**, and changes nothing. -/
theorem calls_of_done (hstep : r.step = .done) (n : Nat) :
    r.calls n = (List.replicate n (none, r.counts), r) := by
  induction n with
  | zero => rfl
  | succ n ih => rw [calls, next_of_done hstep, ih, List.replicate_succ]

/-- Once a call has given no block, the end has come. -/
theorem done_of_none_mem {n : Nat} (hnone : none ∈ (r.calls n).1.map Prod.fst) :
    (r.calls n).2.step = .done := by
  induction n generalizing r with
  | zero => cases hnone
  | succ n ih =>
    rw [calls, List.map_cons, List.mem_cons] at hnone
    rcases hnone with hfirst | hlater
    · have hdone := done_of_next_none hfirst.symm
      rw [calls, calls_of_done hdone]
      exact hdone
    · exact ih hlater

/-! ### Tapes that can be opened -/

/-- A source that opens starts with a header, and does not fail in it. -/
theorem of_openSource_eq_none (hopen : (r.openSource source).2 = none) :
    ∃ mark h body breaks, mark.length = Header.size ∧ Header.decode mark = .ok h ∧
      source = ⟨mark ++ body, Option.map (Header.size + ·) breaks⟩ := by
  unfold openSource at hopen
  simp only at hopen
  split at hopen
  · cases hopen
  next mark later hread =>
  split at hopen
  · cases hopen
  next h hd =>
  obtain ⟨hmark, -⟩ := Source.of_read_eq_some hread
  have hlen : mark.length = Header.size := by
    have := Header.size_le_of_decode hd
    rw [hmark, List.length_take] at this ⊢
    omega
  have hbreaks : (source.breaksAfter.map (· - Header.size)).map (Header.size + ·) =
      source.breaksAfter := by
    rcases hk : source.breaksAfter with _ | k
    · rfl
    · have hbehind : Header.size ≤ k := by
        rw [Source.read] at hread
        split at hread
        · cases hread
        · next hfine =>
          simp only [hk, Source.runsInto, decide_eq_true_eq] at hfine
          rw [hmark] at hlen
          omega
      rw [Option.map_some, Option.map_some, Nat.add_sub_cancel' hbehind]
  refine ⟨mark, h, source.rest.drop Header.size, source.breaksAfter.map (· - Header.size), hlen,
    hd, ?_⟩
  rw [hbreaks, hmark, List.take_append_drop]

/-- **A reader accounts for every byte of a tape that can be opened**, whatever stands behind the
header, however it is cut into pieces, and after any number of calls.  Each block that came out is
raw and as long as its samples ask for; the counters are those of the blocks.  What has been
processed and skipped, what is in the window and what is unread is the body, and with what will
still be delivered in place of what is unread it is all that is delivered before a failure.  The
counters are the low words of these numbers, and on a tape of fewer than `2 ^ 64` bytes the numbers
themselves.  Once a call has given no block, all that is delivered has been used, and no later call
gives a block or changes anything. -/
theorem accounts_for_every_byte (r : Reader) {source : Source}
    (hopen : (r.openSource source).2 = none) (n : Nat) :
    let body : Source := ⟨source.rest.drop Header.size, source.breaksAfter.map (· - Header.size)⟩
    let delivered := (body.delivery r.piece).1
    let opened := (r.openSource source).1
    let given := (opened.calls n).1
    let later := (opened.calls n).2
    let blocks := given.filterMap Prod.fst
    (∀ b ∈ blocks, b.IsWhole opened.header.format) ∧
      later.counts.blocks = blocks.length.toUInt64 ∧
      later.counts.samples = Block.total blocks ∧
      ∃ processed skipped : Nat,
        let used := processed + skipped + later.window.length
        later.counts.processed = processed.toUInt64 ∧ later.counts.skipped = skipped.toUInt64 ∧
          (body.rest.length < 2 ^ 64 → later.counts.processed.toNat = processed ∧
            later.counts.skipped.toNat = skipped ∧ later.counts.blocks.toNat = blocks.length) ∧
          used + later.unread = body.rest.length ∧
          used + later.ahead.1.length = delivered.length ∧
          Block.overhead * blocks.length ≤ processed ∧
          (none ∈ given.map Prod.fst →
            later.isExhausted = true ∧ used = delivered.length ∧
              ∀ m, later.calls m = (List.replicate m (none, later.counts), later)) := by
  intro body delivered opened given later blocks
  obtain ⟨mark, h, bs, breaks, hm, hd, rfl⟩ := of_openSource_eq_none hopen
  have hbody : body = ⟨bs, breaks⟩ := by
    have hbreaks : (breaks.map (Header.size + ·)).map (· - Header.size) = breaks := by
      cases breaks with
      | none => rfl
      | some k => rw [Option.map_some, Option.map_some, Nat.add_sub_cancel_left]
    simp only [body, List.drop_left' hm, hbreaks]
  rcases hq : body.delivery r.piece with ⟨q, fails⟩
  have hopened : opened = { r.cleared with header := h, source := some ⟨bs, breaks⟩ } :=
    congrArg Prod.fst (openSource_of_decode r hm hd bs breaks)
  have hsize : body.rest.length = bs.length := by rw [hbody]
  have hdelivered : delivered = q := congrArg Prod.fst hq
  have hless : q.length ≤ bs.length := by
    have := Source.length_delivery_le r.piece body
    rwa [hq, hsize] at this
  -- The reader follows a scan of what is delivered, and what that does not see stays unread.
  have hfollows : Follows h fails opened (.start q) := follows_openSource r hm hd (hbody ▸ hq)
  have hholds : opened.HoldsBack (bs.length - q.length) := by
    have hahead : opened.ahead = (q, fails) := by
      rw [hopened]
      exact hbody ▸ hq
    rw [HoldsBack, hahead, hopened]
    exact (Nat.add_sub_cancel' hless).symm
  have hunread : later.unread = later.ahead.1.length + (bs.length - q.length) := hholds.calls n
  obtain ⟨hgiven, hlater⟩ := hfollows.calls n
  obtain ⟨hblocks, hsamples, hwhole, processed, skipped, hprocessed, hskipped, hframed, hbytes⟩ :=
    (Scan.Accounts.start h q).calls n
  rw [List.nil_append, ← hgiven] at hblocks hsamples hwhole hframed
  rw [hlater.counts] at hblocks hsamples hprocessed hskipped
  have hused : processed + skipped + later.window.length + later.ahead.1.length = q.length := by
    rwa [hlater.rest, List.length_append, ← Nat.add_assoc] at hbytes
  have hbody : processed + skipped + later.window.length + later.unread = body.rest.length := by
    rw [hsize, hunread, ← Nat.add_assoc, hused, Nat.add_sub_cancel' hless]
  refine ⟨?_, hblocks, hsamples, processed, skipped, hprocessed, hskipped, fun hshort => ?_, hbody,
    ?_, hframed, ?_⟩
  · rw [hopened]
    exact hwhole
  · have hword {k : Nat} (hk : k ≤ body.rest.length) : k.toUInt64.toNat = k :=
      UInt64.toNat_ofNat_of_lt' (Nat.lt_of_le_of_lt hk hshort)
    rw [Block.overhead] at hframed
    rw [hprocessed, hskipped, hblocks]
    exact ⟨hword (by omega), hword (by omega), hword (by omega)⟩
  · rw [hdelivered, hused]
  · intro hnone
    have hdone := done_of_none_mem hnone
    obtain ⟨-, hexhausted, -, hwindow⟩ := hlater.done hdone
    refine ⟨hexhausted, ?_, calls_of_done hdone⟩
    rw [hwindow] at hbytes
    rw [hdelivered]
    exact hbytes

/-- A block without a payload for its second sample, some bytes of nothing, and a good block; the
source fails near the end. -/
def brokenBody : Source :=
  ⟨Block.frame ⟨7, 2, [1, 2, 3, 4], false⟩ ++ ([0, 0, 0] ++
    (Block.frame ⟨7, 1, [1, 2, 3, 4], false⟩ ++ [9, 9, 9, 9, 9, 9])), some 56⟩

/-- The tape. -/
def brokenTape : Source :=
  ⟨Header.blank.encode ++ brokenBody.rest, brokenBody.breaksAfter.map (Header.size + ·)⟩

set_option maxRecDepth 4000 in
/-- Of the fifty-seven bytes of the body fifty-five are delivered, and used by two calls. -/
theorem accounts_for_every_byte_of_brokenTape :
    let opened := ((idle ⟨5, by decide⟩).openSource brokenTape).1
    let later := (opened.calls 2).2
    ((idle ⟨5, by decide⟩).openSource brokenTape).2 = none ∧
      none ∈ (opened.calls 2).1.map Prod.fst ∧
      later.counts.processed.toNat + later.counts.skipped.toNat + later.window.length = 55 ∧
      later.counts.processed.toNat + later.counts.skipped.toNat + later.window.length +
        later.unread = 57 ∧
      later.isExhausted = true ∧ (later.calls 3).1 = List.replicate 3 (none, later.counts) := by
  intro opened later
  have hopen : ((idle ⟨5, by decide⟩).openSource brokenTape).2 = none := by decide +kernel
  have hnone : none ∈ (opened.calls 2).1.map Prod.fst := by decide +kernel
  have hdelivered : (brokenBody.delivery ⟨5, by decide⟩).1.length = 55 := by
    rw [brokenBody, Source.delivery_of_breaking]
    decide +kernel
  obtain ⟨-, -, -, processed, skipped, -, -, hnumbers, hbytes, -, -, hend⟩ :=
    accounts_for_every_byte (idle ⟨5, by decide⟩) hopen 2
  obtain ⟨hprocessed, hskipped, -⟩ := hnumbers (by decide +kernel)
  obtain ⟨hexhausted, hused, hcalls⟩ := hend hnone
  rw [← hprocessed, ← hskipped] at hused hbytes
  exact ⟨hopen, hnone, hused.trans hdelivered, hbytes, hexhausted, congrArg Prod.fst (hcalls 3)⟩

end Reader

end IqTape
