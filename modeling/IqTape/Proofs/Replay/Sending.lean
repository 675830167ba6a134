import IqTape.Proofs.Replay.Datagram
import IqTape.Proofs.Tape.Damage
import IqTape.Replay.Session

/-!
# A replay sends the tape

The steps of a replay, and the requests that come in between them, are a list of events.  At
every moment the blocks that have been tried and the blocks that the pass has still to try
are together the blocks of the tape, once for each pass; a stop breaks the last pass off, and
nothing else does.  Every block that is tried goes out as its datagram or adds a send error.

## Main definitions

* `Attempt`, `Fate` — a block that was to be sent, and what came of it.
* `ReplaySession.Event`, `ReplaySession.run` — runs of events.
* `ReplaySession.attempts`, `ReplaySession.sent` — what a run tries, and what goes out.
* `ReplaySession.Stands` — how far a replay is.

## Main results

* `ReplaySession.step_cases` — what a step does as to sending.
* `ReplaySession.Stands.step` — a step goes on by at most one block.
* `ReplaySession.sends_tape` — a whole replay.
-/

namespace IqTape

namespace Reader

/-! ### What is left of a tape -/

/-- The blocks that are still to come. -/
def left (r : Reader) : List Block := r.drain.1.map Prod.fst

variable {r later : Reader} {b : Block}

/-- What has been found stands in front of what is found next. -/
theorem drainFrom_fst (found : List (Block × ReadCounts)) (r : Reader) :
    (drainFrom found r).1 = found.reverse ++ r.drain.1 := by
  -- The accumulator grows with every block, so the induction is for all accumulators at once.
  induction hwork : r.work using Nat.strongRecOn generalizing r found with
  | _ n ih =>
    subst hwork
    rw [drain]
    cases hstep : r.step with
    | found b later =>
      have hless := work_found hstep
      rw [drainFrom_of_found hstep, drainFrom_of_found hstep, ih _ hless _ later rfl,
        ih _ hless [_] later rfl, List.reverse_cons, List.append_assoc]
      rfl
    | onward later =>
      have hless := work_step hstep
      rw [drainFrom_of_onward hstep, drainFrom_of_onward hstep, ih _ hless _ later rfl]
      rfl
    | done =>
      rw [drainFrom_of_done hstep, drainFrom_of_done hstep]
      exact (List.append_nil _).symm

theorem left_of_next_some (h : r.next = (some b, later)) : r.left = b :: later.left := by
  induction r using next.induct with
  | case1 r d after hstep =>
    rw [next_of_found hstep] at h
    cases h
    rw [left, drain, drainFrom_of_found hstep, drainFrom_fst]
    rfl
  | case2 r after hstep ih =>
    rw [next_of_onward hstep] at h
    rw [left, drain, drainFrom_of_onward hstep]
    exact ih h
  | case3 r hstep =>
    rw [next_of_done hstep] at h
    cases h

theorem left_of_next_none (h : r.next = (none, later)) : r.left = [] := by
  induction r using next.induct with
  | case1 r d after hstep =>
    rw [next_of_found hstep] at h
    cases h
  | case2 r after hstep ih =>
    rw [next_of_onward hstep] at h
    rw [left, drain, drainFrom_of_onward hstep]
    exact ih h
  | case3 r hstep =>
    rw [left, drain, drainFrom_of_done hstep]
    rfl

end Reader

/-! ### Attempts -/

/-- What came of a block that was to be sent. -/
inductive Fate
  /-- There is no datagram for it. -/
  | unframed
  /-- The socket did not take its datagram. -/
  | refused (datagram : Bytes)
  | sent (datagram : Bytes)
  deriving DecidableEq, Repr

/-- A block that was to be sent, and what came of it. -/
structure Attempt where
  block : Block
  fate : Fate
  deriving DecidableEq, Repr

namespace Attempt

/-- The datagram, if it went out. -/
def sent? (a : Attempt) : Option Bytes :=
  match a.fate with
  | .sent datagram => some datagram
  | _ => none

/-- The block has no datagram, or it is the one that was tried; and a datagram that went out
says what the block does. -/
def IsHonest (a : Attempt) : Prop :=
  match a.fate with
  | .unframed => ¬ ∃ datagram, Datagram.encode a.block = .ok datagram
  | .refused datagram => Datagram.encode a.block = .ok datagram
  | .sent datagram =>
    Datagram.encode a.block = .ok datagram ∧
      Datagram.decode datagram =
        .ok ⟨a.block.timestamp, a.block.count.toUInt16, a.block.payload⟩ ∧
      a.block.count.toUInt16.toNat = a.block.count.toNat

/-- The counters after an attempt. -/
def counted (a : Attempt) (c : ReplayCounters) : ReplayCounters :=
  match a.fate with
  | .sent datagram =>
    (c.addPacket.addSamples a.block.count.toUInt64).addBytes datagram.length.toUInt64
  | _ => c.addSendError

/-- The blocks that went out. -/
def sentBlocks (as : List Attempt) : List Block :=
  (as.filter fun a => a.sent?.isSome).map block

/-- The attempts that failed. -/
def failed (as : List Attempt) : List Attempt := as.filter fun a => a.sent?.isNone

theorem sentBlocks_append (as : List Attempt) (a : Attempt) :
    sentBlocks (as ++ [a]) = sentBlocks as ++ if a.sent?.isSome then [a.block] else [] := by
  rw [sentBlocks, List.filter_append, List.map_append, sentBlocks]
  cases ha : a.sent? <;> simp [ha]

theorem failed_append (as : List Attempt) (a : Attempt) :
    failed (as ++ [a]) = failed as ++ if a.sent?.isSome then [] else [a] := by
  rw [failed, List.filter_append, failed]
  cases ha : a.sent? <;> simp [ha]

/-- An attempt succeeds or fails. -/
theorem length_sentBlocks_add_failed (as : List Attempt) :
    (sentBlocks as).length + (failed as).length = as.length := by
  rw [sentBlocks, failed, List.length_map]
  induction as with
  | nil => rfl
  | cons a as ih => cases ha : a.sent? <;> simp [ha] <;> omega

end Attempt

/-- How many bytes the datagrams of some blocks have. -/
def Datagram.bytesOf (bs : List Block) : Nat :=
  (bs.map fun b => headerSize + b.payload.length).sum

namespace ReplayCounters

/-- The counters are those of some attempts. -/
structure Tallies (as : List Attempt) (c : ReplayCounters) : Prop where
  packets : c.packets = (Attempt.sentBlocks as).length.toUInt64
  sendErrors : c.sendErrors = (Attempt.failed as).length.toUInt64
  samples : c.samples = Block.total (Attempt.sentBlocks as)
  bytes : c.bytes = (Datagram.bytesOf (Attempt.sentBlocks as)).toUInt64

/-- Two sets of counters say the same of what has been sent. -/
structure Agrees (c d : ReplayCounters) : Prop where
  packets : c.packets = d.packets
  sendErrors : c.sendErrors = d.sendErrors
  samples : c.samples = d.samples
  bytes : c.bytes = d.bytes

variable {as : List Attempt} {a : Attempt} {c d : ReplayCounters}

theorem Agrees.refl (c : ReplayCounters) : c.Agrees c := ⟨rfl, rfl, rfl, rfl⟩

theorem agrees_addLoop (c : ReplayCounters) : c.addLoop.Agrees c := ⟨rfl, rfl, rfl, rfl⟩

theorem agrees_countWait (c : ReplayCounters) (error : UInt64) (underrun : Bool) :
    (ReplaySession.countWait c error underrun).Agrees c := by
  cases underrun <;> exact ⟨rfl, rfl, rfl, rfl⟩

theorem Tallies.of_agrees (h : c.Tallies as) (hd : d.Agrees c) : d.Tallies as :=
  ⟨hd.packets.trans h.packets, hd.sendErrors.trans h.sendErrors, hd.samples.trans h.samples,
    hd.bytes.trans h.bytes⟩

/-- **An attempt is counted once**, as a packet or as an error. -/
theorem Tallies.counted (h : c.Tallies as) (ha : a.IsHonest) :
    (a.counted c).Tallies (as ++ [a]) := by
  obtain ⟨b, fate⟩ := a
  obtain ⟨hpackets, herrors, hsamples, hbytes⟩ := h
  -- Both ways to fail leave the blocks that went out as they are.
  have failing (hsent : (Attempt.mk b fate).sent? = none) :
      c.addSendError.Tallies (as ++ [⟨b, fate⟩]) := by
    have hblocks : Attempt.sentBlocks (as ++ [⟨b, fate⟩]) = Attempt.sentBlocks as := by
      rw [Attempt.sentBlocks_append, hsent]
      exact List.append_nil _
    have hfailed : Attempt.failed (as ++ [⟨b, fate⟩]) = Attempt.failed as ++ [⟨b, fate⟩] := by
      rw [Attempt.failed_append, hsent]
      rfl
    refine ⟨by rw [hblocks]; exact hpackets, ?_, by rw [hblocks]; exact hsamples,
      by rw [hblocks]; exact hbytes⟩
    rw [hfailed, List.length_append, addSendError, herrors]
    exact (toUInt64_add _ _).symm
  cases fate with
  | unframed => exact failing rfl
  | refused datagram => exact failing rfl
  | sent datagram =>
    have hlen : datagram.length = Datagram.headerSize + b.payload.length :=
      Datagram.length_of_encode ha.1
    have hblocks : Attempt.sentBlocks (as ++ [⟨b, .sent datagram⟩]) =
        Attempt.sentBlocks as ++ [b] := Attempt.sentBlocks_append _ _
    have hfailed : Attempt.failed (as ++ [⟨b, .sent datagram⟩]) = Attempt.failed as := by
      rw [Attempt.failed_append]
      exact List.append_nil _
    refine ⟨?_, by rw [hfailed]; exact herrors, ?_, ?_⟩
    · rw [hblocks, List.length_append]
      exact (congrArg (· + 1) hpackets).trans (toUInt64_add _ _).symm
    · rw [hblocks, Block.total_append, Block.total_cons, Block.total_nil, UInt64.add_zero,
        ← hsamples]
      rfl
    · have hsum : Datagram.bytesOf (Attempt.sentBlocks as ++ [b]) =
          Datagram.bytesOf (Attempt.sentBlocks as) + datagram.length := by
        rw [Datagram.bytesOf, Datagram.bytesOf, List.map_append, List.sum_append, hlen]
        exact congrArg _ (Nat.add_zero _)
      rw [hblocks, hsum]
      exact (congrArg (· + datagram.length.toUInt64) hbytes).trans (toUInt64_add _ _).symm

end ReplayCounters

namespace ReplaySession

/-! ### Runs -/

/-- Something that happens to a session. -/
inductive Event
  /-- The session makes a step; the socket may have a reason not to send. -/
  | step (now : Int) (sendFault : Option String)
  | pause
  | resume
  | requestStop
  deriving DecidableEq, Repr

/-- What a step meets while the tape stays as it is. -/
def meets (tape : Source) (now : Int) (sendFault : Option String) : Surroundings :=
  ⟨now, some tape, sendFault⟩

def handle (tape : Source) (s : ReplaySession) : Event → ReplaySession
  | .step now fault => (s.step (meets tape now fault)).1
  | .pause => s.pause
  | .resume => s.resume
  | .requestStop => s.requestStop

/-- The block that a step has tried to send, if it has. -/
def attempt? (fault : Option String) : Outcome → Option Attempt
  | (s, deed, _) =>
    match s.phase, deed with
    | .tried b, .send datagram =>
      some ⟨b, if fault.isNone then .sent datagram else .refused datagram⟩
    | .tried b, _ => some ⟨b, .unframed⟩
    | _, _ => none

/-- The datagram that a step has sent, if it has. -/
def sent? (fault : Option String) : Outcome → Option Bytes
  | (_, .send datagram, _) => if fault.isNone then some datagram else none
  | _ => none

/-- The state after some events. -/
def run (tape : Source) (s : ReplaySession) : List Event → ReplaySession
  | [] => s
  | e :: es => (s.handle tape e).run tape es

/-- The block that is tried in an event, if there is one. -/
def tries (tape : Source) (s : ReplaySession) : Event → List Attempt
  | .step now fault => (attempt? fault (s.step (meets tape now fault))).toList
  | _ => []

/-- The datagram that goes out in an event, if there is one. -/
def sends (tape : Source) (s : ReplaySession) : Event → List Bytes
  | .step now fault => (sent? fault (s.step (meets tape now fault))).toList
  | _ => []

/-- What some events show, one after the other. -/
def gather {α : Type} (f : ReplaySession → Event → List α) (tape : Source) (s : ReplaySession) :
    List Event → List α
  | [] => []
  | e :: es => f s e ++ gather f tape (s.handle tape e) es

/-- All the blocks that are tried. -/
def attempts (tape : Source) (s : ReplaySession) (es : List Event) : List Attempt :=
  gather (tries tape) tape s es

/-- All the datagrams that go out. -/
def sent (tape : Source) (s : ReplaySession) (es : List Event) : List Bytes :=
  gather (sends tape) tape s es

/-! ### What a step does -/

/-- A datagram that is to be sent is the one of its block. -/
def IsFramed (s : ReplaySession) : Prop :=
  ∀ b datagram, s.phase = .sending b datagram → Datagram.encode b = .ok datagram

/-- **A step tries one block or none**; the counters say which, and so do the datagrams. -/
theorem step_cases {s : ReplaySession} (hs : s.IsFramed) (outside : Surroundings) :
    (attempt? outside.sendFault (s.step outside) = none ∧
      sent? outside.sendFault (s.step outside) = none ∧
      (s.step outside).1.counters.Agrees s.counters) ∨
    ∃ a, attempt? outside.sendFault (s.step outside) = some a ∧
      sent? outside.sendFault (s.step outside) = a.sent? ∧ a.IsHonest ∧
      (s.step outside).1.counters = a.counted s.counters := by
  unfold step
  cases hphase : s.phase with
  | between =>
    left
    simp only [startPass]
    split
    · exact ⟨rfl, rfl, .refl _⟩
    · split <;> exact ⟨rfl, rfl, .refl _⟩
  | opening =>
    left
    simp only [openTape]
    split <;> exact ⟨rfl, rfl, .refl _⟩
  | reading =>
    left
    simp only [read]
    split
    · exact ⟨rfl, rfl, .refl _⟩
    · rcases hnext : s.reader.next with ⟨_ | b, later⟩ <;> exact ⟨rfl, rfl, .refl _⟩
  | waiting b w =>
    -- A wait that ends may count an underrun, which says nothing of what was sent.
    left
    simp only [await]
    rcases hw : w.step s.paused outside.now s.schedule with ⟨w, schedule, _ | nap⟩ <;> cases w
    all_goals first
      | exact ⟨rfl, rfl, .refl _⟩
      | exact ⟨rfl, rfl, ReplayCounters.agrees_countWait _ _ _⟩
  | deciding b =>
    simp only [frame]
    split
    · exact .inl ⟨rfl, rfl, .refl _⟩
    · split
      · exact .inl ⟨rfl, rfl, .refl _⟩
      · next f hframe =>
        refine .inr ⟨⟨b, .unframed⟩, rfl, rfl, ?_, rfl⟩
        rintro ⟨datagram, hok⟩
        rw [hframe] at hok
        cases hok
  | sending b datagram =>
    right
    have hok := hs b datagram hphase
    simp only [send]
    cases outside.sendFault with
    | some reason => exact ⟨⟨b, .refused datagram⟩, rfl, rfl, hok, rfl⟩
    | none => exact ⟨⟨b, .sent datagram⟩, rfl, rfl, ⟨hok, Datagram.decode_of_encode hok⟩, rfl⟩
  | tried b =>
    left
    simp only [count]
    split <;> exact ⟨rfl, rfl, .refl _⟩
  | closing =>
    left
    simp only [endPass]
    split
    · exact ⟨rfl, rfl, ReplayCounters.agrees_addLoop _⟩
    · split <;> exact ⟨rfl, rfl, ReplayCounters.agrees_addLoop _⟩
  | finishing ok => exact .inl ⟨rfl, rfl, .refl _⟩
  | «over» ok =>
    left
    refine ⟨?_, rfl, .refl _⟩
    simp only [attempt?, hphase]

/-! ### How far a replay is -/

/-- The tape can be opened, and has these blocks. -/
def Plays (tape : Source) (blocks : List Block) : Prop :=
  ∃ r, (Reader.idle .standard).openFile (some tape) = (r, none) ∧ r.left = blocks

theorem plays_of_readAll {tape : Source} {contents : Contents}
    (h : readAll (some tape) = .ok contents) : Plays tape contents.blocks := by
  unfold readAll at h
  split at h
  · cases h
  · next r hopen =>
    cases h
    exact ⟨r, hopen, rfl⟩

/-- A tape that can be opened can be read. -/
theorem readAll_of_opens {tape : Source}
    (h : ((Reader.idle .standard).openSource tape).2 = none) :
    ∃ contents, readAll (some tape) = .ok contents ∧
      contents.blocks = ((Reader.idle .standard).openSource tape).1.left := by
  rcases hopened : (Reader.idle .standard).openSource tape with ⟨r, _ | f⟩
  · have hfile : (Reader.idle .standard).openFile (some tape) = (r, none) := hopened
    rcases hdrain : r.drain with ⟨found, last⟩
    refine ⟨⟨last.header, found.map Prod.fst, last.counts, last.error?⟩, ?_, ?_⟩
    · simp only [readAll, hfile, hdrain]
    · rw [Reader.left, hdrain]
  · rw [hopened] at h
    cases h

/-- What may be left of the blocks of a pass.  Between two passes that is nothing, unless a stop
has broken the last one off. -/
def Ahead (blocks : List Block) (s : ReplaySession) (rest : List Block) : Prop :=
  match s.phase with
  | .opening => rest = blocks
  | .reading | .tried _ => rest = s.reader.left
  | .waiting b _ | .deciding b | .sending b _ => rest = b :: s.reader.left
  -- A stop may leave blocks that nobody will try.
  | .between | .closing | .finishing _ | .over _ => s.stopping = false → rest = []

/-- What has been tried and what is left is the tape, once for each pass. -/
structure Stands (blocks : List Block) (s : ReplaySession) (tried : List Block) : Prop where
  /-- What has been tried and what is left. -/
  place : ∃ rest, s.Ahead blocks rest ∧
    tried ++ rest = (List.replicate s.passes blocks).flatten
  /-- Without a loop there is one pass. -/
  once : s.config.loop = false → s.passes ≤ 1 ∧ (s.phase = .between → s.passes = 0)
  /-- A session that is not to stop makes a pass. -/
  begun : s.phase ≠ .between → s.stopping = false → 1 ≤ s.passes
  /-- Nothing goes wrong. -/
  well : s.phase ≠ .finishing false ∧ s.phase ≠ .over false

variable {tape : Source} {blocks tried : List Block} {s : ReplaySession}

/-- Once the session is to stop, it need not try the rest. -/
theorem Ahead.of_stopping {rest : List Block} (hstopping : s.stopping = true)
    (hphase : s.phase = .closing ∨ ∃ ok, s.phase = .finishing ok) : s.Ahead blocks rest := by
  have hany : s.stopping = false → rest = [] := by
    rw [hstopping]
    nofun
  unfold Ahead
  rcases hphase with h | ⟨ok, h⟩ <;> rw [h] <;> exact hany

/-- Whether a pass is under way. -/
def isUnderway : ReplayPhase → Bool
  | .between | .finishing _ | .over _ => false
  | _ => true

/-- Within a pass, only what is left changes. -/
theorem Stands.within {next : ReplaySession} {more : List Block} {phase : ReplayPhase}
    (h : s.Stands blocks tried) (hphase : s.phase = phase) (hfrom : isUnderway phase = true)
    (hto : isUnderway next.phase = true)
    (hpasses : next.passes = s.passes) (hconfig : next.config = s.config)
    (hstopping : next.stopping = s.stopping) (hplace : ∃ rest, next.Ahead blocks rest ∧
      tried ++ more ++ rest = (List.replicate s.passes blocks).flatten) :
    next.Stands blocks (tried ++ more) := by
  have hnot (ended : ReplayPhase) (hended : isUnderway ended = false) : next.phase ≠ ended := by
    rintro rfl
    rw [hto] at hended
    cases hended
  have hbefore : s.phase ≠ .between := by
    intro hbetween
    rw [← hphase, hbetween] at hfrom
    cases hfrom
  refine ⟨?_, ?_, ?_, hnot _ rfl, hnot _ rfl⟩
  · rw [hpasses]
    exact hplace
  · intro hloop
    rw [hconfig] at hloop
    rw [hpasses]
    refine ⟨(h.once hloop).1, ?_⟩
    intro hbetween
    exact absurd hbetween (hnot _ rfl)
  · intro _ hgo
    rw [hstopping] at hgo
    rw [hpasses]
    exact h.begun hbefore hgo

/-- Nothing is tried when a pass begins. -/
theorem attempt?_startPass (s : ReplaySession) (fault : Option String) (now : Int) :
    attempt? fault (s.startPass now) = none := by
  simp only [ReplaySession.startPass]
  split
  · rfl
  · split <;> rfl

/-- Nor is it when a pass is over. -/
theorem attempt?_endPass (s : ReplaySession) (fault : Option String) :
    attempt? fault s.endPass = none := by
  simp only [ReplaySession.endPass]
  split
  · rfl
  · split <;> rfl

/-- When a pass begins the whole tape is left. -/
theorem Stands.startPass (h : s.Stands blocks tried) (hphase : s.phase = .between) (now : Int) :
    (s.startPass now).1.Stands blocks tried := by
  obtain ⟨⟨rest, hahead, hplace⟩, honce, hbegun, hwell⟩ := h
  unfold Ahead at hahead
  rw [hphase] at hahead
  simp only [ReplaySession.startPass]
  split
  · next hstop =>
    refine ⟨⟨rest, .of_stopping hstop (.inr ⟨_, rfl⟩), hplace⟩, ?_, ?_, nofun, nofun⟩
    · intro hloop
      exact ⟨(honce hloop).1, nofun⟩
    · intro _ hgo
      rw [show s.stopping = false from hgo] at hstop
      cases hstop
  · next hgo =>
    have hnone : rest = [] := hahead (by simpa using hgo)
    rw [hnone, List.append_nil] at hplace
    have hmore : tried ++ blocks = (List.replicate (s.passes + 1) blocks).flatten := by
      rw [List.replicate_succ', List.flatten_append, ← hplace]
      simp
    split
    all_goals
      refine ⟨⟨blocks, rfl, hmore⟩, ?_, ?_, nofun, nofun⟩
      · intro hloop
        have hfirst := (honce hloop).2 hphase
        refine ⟨?_, nofun⟩
        simp only
        omega
      · intro _ _
        exact Nat.le_add_left 1 s.passes

/-- When a pass is over, only a loop comes back to the beginning. -/
theorem Stands.endPass (h : s.Stands blocks tried) (hphase : s.phase = .closing) :
    s.endPass.1.Stands blocks tried := by
  obtain ⟨⟨rest, hahead, hplace⟩, honce, hbegun, hwell⟩ := h
  unfold Ahead at hahead
  rw [hphase] at hahead
  have hpasses := hbegun (by rw [hphase]; nofun)
  have hsingle : s.config.loop = false → s.passes ≤ 1 := by
    intro hloop
    exact (honce hloop).1
  simp only [ReplaySession.endPass]
  split
  · exact ⟨⟨rest, hahead, hplace⟩, fun hloop => ⟨hsingle hloop, nofun⟩, fun _ => hpasses, nofun,
      nofun⟩
  · next hloops =>
    split
    · exact ⟨⟨rest, hahead, hplace⟩, fun hloop => ⟨hsingle hloop, nofun⟩, fun _ => hpasses, nofun,
        nofun⟩
    · refine ⟨⟨rest, hahead, hplace⟩, ?_, ?_, nofun, nofun⟩
      · intro hloop
        rw [show s.config.loop = false from hloop] at hloops
        exact absurd rfl hloops
      · intro hnot
        exact absurd rfl hnot

/-- **A step goes on by at most one block**, which is the next one of the tape. -/
theorem Stands.step (h : s.Stands blocks tried) (htape : Plays tape blocks) (now : Int)
    (fault : Option String) :
    (s.step (meets tape now fault)).1.Stands blocks
      (tried ++ (attempt? fault (s.step (meets tape now fault))).toList.map Attempt.block) := by
  obtain ⟨⟨rest, hahead, hplace⟩, honce, hbegun, hwell⟩ := id h
  unfold Ahead at hahead
  unfold ReplaySession.step
  cases hphase : s.phase with
  | between =>
    simp only [attempt?_startPass, Option.toList_none, List.map_nil, List.append_nil]
    exact h.startPass hphase now
  | opening =>
    rw [hphase] at hahead
    subst hahead
    obtain ⟨r, hopen, hleft⟩ := htape
    simp only [meets, openTape, hopen]
    exact h.within hphase rfl rfl rfl rfl rfl ⟨r.left, rfl, by simpa [attempt?, hleft] using hplace⟩
  | reading =>
    rw [hphase] at hahead
    simp only [read]
    split
    · next hstop =>
      exact h.within hphase rfl rfl rfl rfl rfl
        ⟨rest, .of_stopping hstop (.inl rfl), by simpa [attempt?] using hplace⟩
    · rcases hnext : s.reader.next with ⟨_ | b, later⟩
      · rw [Reader.left_of_next_none hnext] at hahead
        exact h.within hphase rfl rfl rfl rfl rfl
          ⟨[], fun _ => rfl, by simpa [attempt?, hahead] using hplace⟩
      · rw [Reader.left_of_next_some hnext] at hahead
        exact h.within hphase rfl rfl rfl rfl rfl
          ⟨b :: later.left, rfl, by simpa [attempt?, hahead] using hplace⟩
  | waiting b w =>
    rw [hphase] at hahead
    simp only [await]
    rcases hw : w.step s.paused (meets tape now fault).now s.schedule with ⟨w, schedule, nap⟩
    cases w
    all_goals
      exact h.within hphase rfl rfl rfl rfl rfl
        ⟨b :: s.reader.left, rfl, by simpa [attempt?, hahead] using hplace⟩
  | deciding b =>
    rw [hphase] at hahead
    simp only [frame]
    split
    · next hstop =>
      exact h.within hphase rfl rfl rfl rfl rfl
        ⟨rest, .of_stopping hstop (.inl rfl), by simpa [attempt?] using hplace⟩
    · split
      · exact h.within hphase rfl rfl rfl rfl rfl
          ⟨b :: s.reader.left, rfl, by simpa [attempt?, hahead] using hplace⟩
      · exact h.within hphase rfl rfl rfl rfl rfl
          ⟨s.reader.left, rfl, by simpa [attempt?, hahead] using hplace⟩
  | sending b datagram =>
    rw [hphase] at hahead
    simp only [send, meets]
    -- The block has been tried, whatever the socket says to it.
    cases fault
    all_goals
      exact h.within hphase rfl rfl rfl rfl rfl
        ⟨s.reader.left, rfl, by simpa [attempt?, hahead] using hplace⟩
  | tried b =>
    rw [hphase] at hahead
    simp only [count]
    split
    all_goals
      exact h.within hphase rfl rfl rfl rfl rfl
        ⟨s.reader.left, rfl, by simpa [attempt?, hahead] using hplace⟩
  | closing =>
    simp only [attempt?_endPass, Option.toList_none, List.map_nil, List.append_nil]
    exact h.endPass hphase
  | finishing ok =>
    rw [hphase] at hahead
    refine ⟨⟨rest, hahead, by simpa [attempt?, finish] using hplace⟩, ?_, ?_, nofun, ?_⟩
    · intro hloop
      exact ⟨(honce hloop).1, nofun⟩
    · intro _ hgo
      exact hbegun (by rw [hphase]; nofun) hgo
    · intro hover
      cases hover
      exact hwell.1 hphase
  | «over» ok =>
    -- The phase does not change, so what is left has to be read off it again.
    have hnone : attempt? fault (s, .nothing, []) = none := by simp only [attempt?, hphase]
    rw [hnone]
    exact ⟨⟨rest, by simpa [Ahead, hphase] using hahead, by simpa using hplace⟩, honce, hbegun,
      hwell⟩

/-- A datagram is kept with its block until it is sent. -/
theorem IsFramed.step (hs : s.IsFramed) (outside : Surroundings) :
    (s.step outside).1.IsFramed := by
  unfold ReplaySession.step
  cases hphase : s.phase with
  | between =>
    simp only [startPass]
    split
    · nofun
    · split <;> nofun
  | opening =>
    simp only [openTape]
    split <;> nofun
  | reading =>
    simp only [read]
    split
    · nofun
    · rcases s.reader.next with ⟨_ | b, later⟩ <;> nofun
  | waiting b w =>
    simp only [await]
    rcases w.step s.paused outside.now s.schedule with ⟨w, schedule, nap⟩
    cases w <;> nofun
  | deciding b =>
    simp only [frame]
    split
    · nofun
    · split
      · next datagram hframe =>
        intro _ _ hsending
        cases hsending
        exact hframe
      · nofun
  | sending b datagram =>
    simp only [send]
    cases outside.sendFault <;> nofun
  | tried b =>
    simp only [count]
    split <;> nofun
  | closing =>
    simp only [endPass]
    split
    · nofun
    · split <;> nofun
  | finishing ok => nofun
  | «over» ok => exact hs

/-- No step changes the settings. -/
theorem config_step (s : ReplaySession) (outside : Surroundings) :
    (s.step outside).1.config = s.config := by
  unfold ReplaySession.step
  cases s.phase with
  | between =>
    simp only [startPass]
    split
    · rfl
    · split <;> rfl
  | opening =>
    simp only [openTape]
    split <;> rfl
  | reading =>
    simp only [read]
    split <;> rfl
  | waiting b w =>
    simp only [await]
    split <;> rfl
  | deciding b =>
    simp only [frame]
    split
    · rfl
    · split <;> rfl
  | sending b datagram =>
    simp only [send]
    split <;> rfl
  | tried b =>
    simp only [count]
    split <;> rfl
  | closing =>
    simp only [endPass]
    split
    · rfl
    · split <;> rfl
  | finishing ok => rfl
  | «over» ok => rfl

theorem config_run (tape : Source) (s : ReplaySession) (es : List Event) :
    (s.run tape es).config = s.config := by
  induction es generalizing s with
  | nil => rfl
  | cons e es ih =>
    rw [run, ih]
    cases e with
    | step now fault => exact config_step s _
    | _ => rfl

/-! ### A replay under way -/

/-- A replay of some blocks, and what it has tried and sent. -/
structure Playing (blocks : List Block) (s : ReplaySession) (tried : List Attempt)
    (out : List Bytes) : Prop where
  stands : s.Stands blocks (tried.map Attempt.block)
  framed : s.IsFramed
  honest : ∀ a ∈ tried, a.IsHonest
  /-- What goes out are the datagrams of the blocks that were sent. -/
  sent : out = tried.filterMap Attempt.sent?
  tallies : s.counters.Tallies tried

section

variable {as : List Attempt} {out : List Bytes}

/-- A request changes only what is still to come. -/
theorem Playing.request (h : s.Playing blocks as out) {next : ReplaySession}
    (hstopping : next.stopping = false → s.stopping = false) (hphase : next.phase = s.phase)
    (hpasses : next.passes = s.passes) (hconfig : next.config = s.config)
    (hreader : next.reader = s.reader) (hcounters : next.counters = s.counters) :
    next.Playing blocks as out := by
  obtain ⟨⟨⟨rest, hahead, hplace⟩, honce, hbegun, hwell⟩, hframed, hhonest, hsent, htallies⟩ := h
  have hnext : next.Ahead blocks rest := by
    unfold Ahead at hahead ⊢
    rw [hphase, hreader]
    split at hahead
    all_goals first
      | exact hahead
      | exact fun hgo => hahead (hstopping hgo)
  refine ⟨⟨⟨rest, hnext, by rwa [hpasses]⟩, ?_, ?_, by rwa [hphase]⟩, ?_, hhonest, hsent,
    by rwa [hcounters]⟩
  · rwa [hconfig, hpasses, hphase]
  · intro hnot hgo
    rw [hphase] at hnot
    rw [hpasses]
    exact hbegun hnot (hstopping hgo)
  · intro b datagram hsending
    exact hframed b datagram (hphase ▸ hsending)

/-- **Every step keeps the books of a replay.** -/
theorem Playing.step (h : s.Playing blocks as out) (htape : Plays tape blocks) (now : Int)
    (fault : Option String) :
    (s.step (meets tape now fault)).1.Playing blocks
      (as ++ (attempt? fault (s.step (meets tape now fault))).toList)
      (out ++ (sent? fault (s.step (meets tape now fault))).toList) := by
  have hstands := h.stands.step htape now fault
  have hframed := h.framed.step (meets tape now fault)
  have hsame : (meets tape now fault).sendFault = fault := rfl
  have hcases := step_cases h.framed (meets tape now fault)
  rw [hsame] at hcases
  rcases hcases with ⟨hattempt, hsent, hagrees⟩ | ⟨a, hattempt, hsent, hhonest, hcounted⟩
  · rw [hattempt] at hstands ⊢
    rw [hsent]
    simp only [Option.toList_none, List.map_nil, List.append_nil] at hstands ⊢
    exact ⟨hstands, hframed, h.honest, h.sent, h.tallies.of_agrees hagrees⟩
  · rw [hattempt] at hstands ⊢
    rw [hsent]
    refine ⟨by rw [List.map_append]; exact hstands, hframed, ?_, ?_, ?_⟩
    · intro b hb
      rcases List.mem_append.1 hb with hb | hb
      · exact h.honest b hb
      · rw [List.mem_singleton.1 hb]
        exact hhonest
    · rw [List.filterMap_append, ← h.sent]
      cases ha : a.sent? <;> simp [ha]
    · rw [hcounted]
      exact h.tallies.counted hhonest

/-- **So does a whole run.** -/
theorem Playing.run (h : s.Playing blocks as out) (htape : Plays tape blocks)
    (es : List Event) :
    (s.run tape es).Playing blocks (as ++ s.attempts tape es) (out ++ s.sent tape es) := by
  induction es generalizing s as out with
  | nil =>
    rw [attempts, ReplaySession.sent, gather, gather, List.append_nil, List.append_nil]
    exact h
  | cons e es ih =>
    rw [attempts, ReplaySession.sent, gather, gather, ← List.append_assoc, ← List.append_assoc]
    apply ih
    cases e with
    | step now fault => exact h.step htape now fault
    | requestStop =>
      -- A stop asks for less, and no request takes it back.
      simp only [tries, sends, List.append_nil]
      exact h.request nofun rfl rfl rfl rfl rfl
    | _ =>
      simp only [tries, sends, List.append_nil]
      exact h.request id rfl rfl rfl rfl rfl

end

/-! ### The beginning -/

/-- A session that has not begun, or is over, only hears requests. -/
theorem run_of_over {ok : Bool} (h : s.phase = .over ok) (tape : Source) (es : List Event) :
    (s.run tape es).phase = .over ok ∧ (s.run tape es).counters = s.counters ∧
      (s.run tape es).ready = s.ready := by
  induction es generalizing s with
  | nil => exact ⟨h, rfl, rfl⟩
  | cons e es ih =>
    cases e with
    | step now fault =>
      have hsame : s.handle tape (.step now fault) = s := by
        simp only [handle, ReplaySession.step, h]
      rw [run, hsame]
      exact ih h
    | pause => exact ih (s := s.pause) h
    | resume => exact ih (s := s.resume) h
    | requestStop => exact ih (s := s.requestStop) h

theorem openSocket_eq (s : ReplaySession) (net : SocketAnswers) : ∃ port,
    (s.openSocket net).1 = { s with port := port } := by
  unfold openSocket
  split
  · exact ⟨s.port, rfl⟩
  · exact ⟨s.port, rfl⟩
  · simp only
    split <;> exact ⟨_, rfl⟩

/-- A session that has been set up, with a finite speed above zero. -/
theorem setUp_eq {now : Int} {file : Option Source} {net : SocketAnswers}
    (h : (s.setUp now file net).2.2 = none) :
    Binary64.zero.lt s.config.speed = true ∧ s.config.speed.isFinite = true ∧
      ∃ target header port, (s.setUp now file net).1 =
        { s with
          config := { s.config with target := target }, header := header, port := port,
          counters := .fresh now, ready := true } := by
  unfold setUp at h ⊢
  split at h
  · cases h
  · next hspeed =>
    rw [if_neg hspeed]
    rw [Bool.not_eq_true', Bool.not_eq_false, Bool.and_eq_true] at hspeed
    refine ⟨hspeed.1, hspeed.2, ?_⟩
    split at h
    · cases h
    · next target htarget =>
      simp only at h ⊢
      split at h
      · cases h
      · next r hopen =>
        split at h
        · cases h
        · next next calls hsocket =>
          obtain ⟨port, hport⟩ := openSocket_eq _ net
          rw [hsocket] at hport
          subst hport
          exact ⟨target, r.header, port, rfl⟩

/-- A session that has been set up starts with counters at zero. -/
theorem of_setUp {now : Int} {file : Option Source} {net : SocketAnswers}
    (h : (s.setUp now file net).2.2 = none) :
    (s.setUp now file net).1.ready = true ∧ (s.setUp now file net).1.counters = .fresh now ∧
      (s.setUp now file net).1.config.loop = s.config.loop ∧
      (s.setUp now file net).1.phase = s.phase := by
  obtain ⟨-, -, target, header, port, heq⟩ := setUp_eq h
  rw [heq]
  exact ⟨rfl, rfl, rfl, rfl⟩

theorem config_begin (start : Int) (s : ReplaySession) :
    (s.begin start).1.config = s.config := by
  unfold begin
  split <;> rfl

/-- A session that begins has tried nothing. -/
theorem playing_begin (hready : s.ready = true) (hcounters : s.counters.Tallies [])
    (start : Int) (blocks : List Block) : (s.begin start).1.Playing blocks [] [] := by
  have hbegin : s.begin start = ({ s with
      running := true, phase := .between, schedule := .starting s.config.speed start, passes := 0
      reportedAt := start }, s.unlessQuiet (.starting s.config s.header)) := by
    simp [begin, hready]
  rw [hbegin]
  exact ⟨⟨⟨[], fun _ => rfl, rfl⟩, fun _ => ⟨Nat.zero_le 1, fun _ => rfl⟩,
    fun hnot => absurd rfl hnot, ⟨nofun, nofun⟩⟩, nofun, nofun, rfl, hcounters⟩

/-- **A replay sends the tape.**  Whatever the settings, however the socket takes and refuses
datagrams, and whenever the session is paused, resumed and asked to stop, before it begins or
while it runs: the blocks that are tried are, in order, those of the tape, once for each pass,
with the last pass perhaps not at its end.  A replay that is over and was not asked to stop has
gone well and has tried them all, and without a loop that is one pass.  What goes out are the
datagrams of the blocks that have one and that the socket took, and each says what its block
does; every other block that is tried is a send error.  The counters are the sums of that. -/
theorem sends_tape {config : ReplayConfig} {created now : Int} {tape : Source}
    {net : SocketAnswers} {contents : Contents} (early : List Event)
    (hread : readAll (some tape) = .ok contents)
    (hsetUp : (((idle config created).run tape early).setUp now (some tape) net).2.2 = none)
    (asked : List Event) (start : Int) (es : List Event) :
    let ready := (((idle config created).run tape early).setUp now (some tape) net).1
    let begun := ((ready.run tape asked).begin start).1
    let s := begun.run tape es
    let tried := begun.attempts tape es
    let out := Attempt.sentBlocks tried
    tried.map Attempt.block <+: (List.replicate s.passes contents.blocks).flatten ∧
      (∀ ok, s.phase = .over ok → s.stopping = false →
        ok = true ∧
          tried.map Attempt.block = (List.replicate s.passes contents.blocks).flatten ∧
          (config.loop = false → tried.map Attempt.block = contents.blocks)) ∧
      begun.sent tape es = tried.filterMap Attempt.sent? ∧
      (∀ a ∈ tried, a.IsHonest) ∧
      s.counters.packets = out.length.toUInt64 ∧
      s.counters.packets + s.counters.sendErrors = tried.length.toUInt64 ∧
      s.counters.samples = Block.total out ∧
      s.counters.bytes = (Datagram.bytesOf out).toUInt64 := by
  intro ready begun s tried out
  obtain ⟨hready, hfresh, hloop, hphase⟩ := of_setUp hsetUp
  -- Nothing that comes before the beginning moves the session or its counters.
  obtain ⟨hidle, -⟩ := run_of_over (s := idle config created) rfl tape early
  obtain ⟨-, hcounters, hstill⟩ := run_of_over (hphase.trans hidle) tape asked
  have htallies : (ready.run tape asked).counters.Tallies [] := by
    rw [hcounters, hfresh]
    exact ⟨rfl, rfl, rfl, rfl⟩
  have hsettings : s.config.loop = config.loop := by
    rw [config_run, config_begin, config_run, hloop, config_run]
    rfl
  have hplaying : s.Playing contents.blocks tried (begun.sent tape es) :=
    (playing_begin (hstill.trans hready) htallies start contents.blocks).run
      (plays_of_readAll hread) es
  obtain ⟨⟨⟨rest, hahead, hplace⟩, honce, hbegun, hwell⟩, -, hhonest, hsent, hcounts⟩ := hplaying
  refine ⟨⟨rest, hplace⟩, ?_, hsent, hhonest, hcounts.packets, ?_, hcounts.samples,
    hcounts.bytes⟩
  · intro ok hover hgo
    unfold Ahead at hahead
    rw [hover] at hahead
    rw [hahead hgo, List.append_nil] at hplace
    refine ⟨?_, hplace, fun hsingle => ?_⟩
    · cases ok with
      | true => rfl
      | false => exact absurd hover hwell.2
    · -- There is a pass, and only one.
      rw [← hsettings] at hsingle
      have hleast := hbegun (by rw [hover]; nofun) hgo
      have hone : s.passes = 1 := Nat.le_antisymm (honce hsingle).1 hleast
      rw [hplace, hone]
      exact List.append_nil _
  · rw [hcounts.packets, hcounts.sendErrors, ← Attempt.length_sentBlocks_add_failed tried]
    exact (toUInt64_add _ _).symm

/-- The blocks of a short tape. -/
def shortBlocks : List Block := [⟨7, 1, [1, 2, 3, 4], false⟩, ⟨9, 1, [5, 6, 7, 8], false⟩]

/-- The tape. -/
def shortTape : Source := .ofBytes (Header.blank.encode ++ shortBlocks.flatMap Block.frame)

/-- Settings that replay it over and over. -/
def loopConfig : ReplayConfig := { ReplayConfig.initial with target := "127.0.0.1:5000", loop := true }

/-- The socket refuses the second block of the first pass, and a stop is asked for after the
first block of the second. -/
def loopEvents : List Event :=
  List.replicate 8 (.step 0 none) ++ [.pause, .resume] ++
    List.replicate 7 (.step 0 (some "refused")) ++ List.replicate 10 (.step 0 none) ++
    [.requestStop] ++ List.replicate 4 (.step 0 none)

/-- A tape of frames is read as the blocks of its frames. -/
theorem readAll_of_frames {bs : List Block}
    (hs : ∀ b ∈ bs, Segment.IsFrame .blank (id b).frame b) :
    ∃ contents, readAll (some (.ofBytes (Header.blank.encode ++ bs.flatMap Block.frame))) =
      .ok contents ∧ contents.blocks = bs := by
  have hm := Header.length_encode .blank
  have hd := Header.decode_encode_self Header.isListed_blank
  obtain ⟨hblocks, -⟩ := Reader.drain_of_frames (Reader.idle .standard) hm hd hs
  obtain ⟨hopens, -⟩ := Reader.opens_of_reliable (Reader.idle .standard) hm hd
    (bs.flatMap Block.frame)
  obtain ⟨contents, hread, hleft⟩ := readAll_of_opens hopens
  exact ⟨contents, hread, hleft.trans hblocks⟩

theorem readAll_shortTape : ∃ contents, readAll (some shortTape) = .ok contents ∧
    contents.blocks = shortBlocks := by
  refine readAll_of_frames ?_
  simp only [shortBlocks, List.forall_mem_cons]
  exact ⟨Segment.isFrame_frame rfl (by decide) rfl, Segment.isFrame_frame rfl (by decide) rfl,
    List.forall_mem_nil _⟩

/-- The session, paused before it is set up and resumed before it begins. -/
def loopSession : ReplaySession :=
  (((((idle loopConfig 0).run shortTape [.pause]).setUp 0 (some shortTape) default).1.run
    shortTape [.resume]).begin 0).1

set_option maxRecDepth 4000 in
/-- Three blocks are tried, and two of them sent. -/
theorem sends_tape_of_loopEvents :
    let s := loopSession.run shortTape loopEvents
    let tried := loopSession.attempts shortTape loopEvents
    (((idle loopConfig 0).run shortTape [.pause]).setUp 0 (some shortTape) default).2.2 = none ∧
      s.phase = .over true ∧ s.passes = 2 ∧ tried.length = 3 ∧
      tried.map Attempt.block <+: (List.replicate 2 shortBlocks).flatten ∧
      Attempt.sentBlocks tried = [⟨7, 1, [1, 2, 3, 4], false⟩, ⟨7, 1, [1, 2, 3, 4], false⟩] ∧
      s.counters.packets = 2 ∧ s.counters.packets + s.counters.sendErrors = 3 ∧
      s.counters.bytes = 28 := by
  have hsetUp : (((idle loopConfig 0).run shortTape [.pause]).setUp 0 (some shortTape)
      default).2.2 = none := by decide +kernel
  have hphase : (loopSession.run shortTape loopEvents).phase = .over true := by decide +kernel
  have hpasses : (loopSession.run shortTape loopEvents).passes = 2 := by decide +kernel
  have hlength : (loopSession.attempts shortTape loopEvents).length = 3 := by decide +kernel
  have hout : Attempt.sentBlocks (loopSession.attempts shortTape loopEvents) =
      [⟨7, 1, [1, 2, 3, 4], false⟩, ⟨7, 1, [1, 2, 3, 4], false⟩] := by decide +kernel
  obtain ⟨contents, hread, hblocks⟩ := readAll_shortTape
  unfold loopSession at *
  obtain ⟨hfirst, -, -, -, hpackets, hsum, -, hbytes⟩ :=
    sends_tape [.pause] hread hsetUp [.resume] 0 loopEvents
  rw [hpasses, hblocks] at hfirst
  rw [hlength] at hsum
  rw [hout] at hpackets hbytes
  exact ⟨hsetUp, hphase, hpasses, hlength, hfirst, hout, hpackets, hsum, hbytes⟩

end ReplaySession

end IqTape
