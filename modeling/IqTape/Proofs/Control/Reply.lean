import IqTape.Control.Server
import IqTape.Proofs.Json.ReadBack

/-!
# What replies say

A reply to a command is an object that says that it is good, whatever else it reports, and a reply
to anything else is an object that says that there is an error.  All of them are written so that
they can be read back: the numbers in them are words, and no name stands twice in an object, also
where a member is set in a report that is there already.

## Main results

* `ControlCommand.ofRequest_eq_ok_iff` — the values that are requests.
* `Json.isProper_set` — setting a member of an object.
* `ReplaySession.isProper_toJson`, `ReplayCounters.isProper_toJson` — the reports.
* `ControlCommand.exists_reply_eq`, `RequestFault.exists_reply_eq` — **what replies say**.
-/

namespace IqTape

/-! ### Requests -/

theorem ControlCommand.ofName?_eq_some_iff {name : String} {c : ControlCommand} :
    ofName? name = some c ↔ name = c.name := by
  constructor
  · intro h
    have hname := List.find?_some h
    exact (eq_of_beq hname).symm
  · rintro rfl
    exact ofName?_name c

/-- A value names a command in its member for that, and only there. -/
theorem ControlCommand.ofRequest_eq_ok_iff {request : Json} {c : ControlCommand} :
    ofRequest request = .ok c ↔ request.field? "cmd" = some (.string c.name) := by
  have hempty : ofName? "" = none := by decide
  unfold ofRequest
  cases request.field? "cmd" with
  | none => simp [hempty]
  | some command =>
    cases command with
    | string name =>
      simp only [Option.getD_some, Option.some.injEq, Json.string.injEq, ← ofName?_eq_some_iff]
      cases ofName? name <;> simp
    | _ => simp

/-! ### Reports -/

namespace Json

/-- A member with another value, or one member more, leaves the names of an object different. -/
theorem nodup_names_put {ms : List (String × Json)} (h : (ms.map Prod.fst).Nodup) (name : String)
    (v : Json) : ((put name v ms).map Prod.fst).Nodup := by
  have hnames : (put name v ms).map Prod.fst =
      if name ∈ ms.map Prod.fst then ms.map Prod.fst else ms.map Prod.fst ++ [name] := by
    clear h
    induction ms with
    | nil => rfl
    | cons m ms ih =>
      obtain ⟨k, w⟩ := m
      by_cases hk : k = name
      · simp [put, hk]
      · by_cases hmem : name ∈ ms.map Prod.fst <;> simp_all [put, Ne.symm hk]
  rw [hnames]
  split
  · exact h
  · next hnew => exact h.append (List.nodup_singleton name) (by simpa using hnew)

theorem membersAreProper_put {ms : List (String × Json)} (h : MembersAreProper ms) (name : String)
    {v : Json} (hv : v.IsProper) : MembersAreProper (put name v ms) := by
  induction ms with
  | nil => exact ⟨hv, trivial⟩
  | cons m ms ih =>
    obtain ⟨k, w⟩ := m
    rw [put]
    split
    · exact ⟨hv, h.2⟩
    · exact ⟨h.1, ih h.2⟩

/-- An object stays proper when a proper member is set. -/
theorem isProper_set {ms : List (String × Json)} (h : (Json.object ms).IsProper) (name : String)
    {v : Json} (hv : v.IsProper) : (Json.set (.object ms) name v).IsProper :=
  ⟨nodup_names_put h.1 name v, membersAreProper_put h.2 name hv⟩

theorem isProper_string (s : String) : (Json.string s).IsProper := trivial

theorem isProper_nat {n : ℕ} (h : n < 2 ^ 64) : (Json.nat n).IsProper := by
  rw [nat, IsProper]
  omega

end Json

/-- The report about a tape is proper. -/
theorem Header.isProper_toJson (h : Header) : h.toJson.IsProper := by
  have hversion : (Json.nat h.version.toNat).IsProper :=
    Json.isProper_nat (h.version.toNat_lt.trans (by decide))
  have hrate : (Json.nat h.rate.toNat).IsProper :=
    Json.isProper_nat (h.rate.toNat_lt.trans (by decide))
  have hword (n : UInt64) : (Json.nat n.toNat).IsProper := Json.isProper_nat n.toNat_lt
  refine ⟨by simp, ?_⟩
  simp only [Json.MembersAreProper, hversion, hrate, hword, Json.IsProper, and_true]

/-- So is the report about a replay. -/
theorem ReplaySession.isProper_toJson (s : ReplaySession) : s.toJson.IsProper := by
  have hword (n : UInt64) : (Json.nat n.toNat).IsProper := Json.isProper_nat n.toNat_lt
  refine ⟨by simp, ?_⟩
  simp only [Json.MembersAreProper, hword, Json.IsProper, s.header.isProper_toJson, and_true]

/-- So are its counters. -/
theorem ReplayCounters.isProper_toJson (c : ReplayCounters) (now : ℤ) :
    (c.toJson now).IsProper := by
  have hword (n : UInt64) : (Json.nat n.toNat).IsProper := Json.isProper_nat n.toNat_lt
  refine ⟨by simp, ?_⟩
  simp only [Json.MembersAreProper, hword, Json.IsProper, and_true, true_and]
  simp

/-! ### Replies -/

/-- A value is an object with a given status that is written so that it can be read back. -/
structure Json.IsReply (j : Json) (status : String) : Prop where
  isProper : j.IsProper
  exists_eq : ∃ members, j = .object members ∧
    Json.lookup "status" members = some (.string status)

/-- **A reply to a command is good**, whatever else it says. -/
theorem ControlCommand.isReply_reply (c : ControlCommand) (now : ℤ) {clients : ℕ}
    (hclients : clients < 2 ^ 64) (s : ReplaySession) : (c.reply now clients s).IsReply "ok" := by
  cases c with
  | status =>
    refine ⟨?_, _, rfl, ?_⟩
    · exact Json.isProper_set (Json.isProper_set s.isProper_toJson "status"
        (Json.isProper_string _)) "control_clients" (Json.isProper_nat hclients)
    · rw [Json.lookup_put_of_ne (by decide), Json.lookup_put_self]
  | stats =>
    exact ⟨Json.isProper_set (s.counters.isProper_toJson now) "status" (Json.isProper_string _), _,
      rfl, Json.lookup_put_self _ _ _⟩
  | pause =>
    cases hpaused : s.paused <;> rw [reply, hpaused] <;>
      exact ⟨⟨by simp, by simp [Json.MembersAreProper, Json.IsProper]⟩, _, rfl, rfl⟩
  | resume =>
    cases hpaused : s.paused <;> rw [reply, hpaused] <;>
      exact ⟨⟨by simp, by simp [Json.MembersAreProper, Json.IsProper]⟩, _, rfl, rfl⟩
  | stop => exact ⟨⟨by simp, by simp [Json.MembersAreProper, Json.IsProper]⟩, _, rfl, rfl⟩

/-- **A reply to anything else is an error.** -/
theorem RequestFault.isReply_reply (f : RequestFault) : f.reply.IsReply "error" :=
  ⟨⟨by simp, by simp [Json.MembersAreProper, Json.IsProper]⟩, _, rfl, rfl⟩

/-- **What is read back of a reply** has the same status. -/
theorem Json.IsReply.exists_read_compact {j : Json} {status : String} (h : j.IsReply status) :
    ∃ members, Json.read j.compact.toList = .ok (.object members) ∧
      Json.lookup "status" members = some (.string status) := by
  obtain ⟨hproper, members, rfl, hstatus⟩ := h
  refine ⟨_, Json.read_compact hproper, ?_⟩
  rw [Json.lookup_reread_orderedMembers hproper.1, hstatus]
  rfl

end IqTape
