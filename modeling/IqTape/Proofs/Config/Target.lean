import IqTape.Config.Address
import IqTape.Proofs.Number.Decimal
import IqTape.Replay.Session

/-!
# The kept form of a target

A target is kept as its host as it was written, a colon and the digits of its port.  That form has
no blanks and no scheme to drop, and the last colon in it is the one in front of the port, so that
reading it again gives the same host and the same port, and keeping it again changes nothing.
Whoever reads a kept target, be it the check of the settings or the session that connects to it,
finds the address that the user wrote.

## Main definitions

* `bareTarget` — a target without what is dropped from it.

## Main results

* `SocketAddress.of_read?` — what an address that can be read consists of.
* `SocketAddress.read?_text` — **an address is read from its own text**.
* `normalTarget?_of_kept` — what is kept is kept as it is.
* `ReplaySession.setUp_target` — the address that a session connects to.
* `target_is_canonical` — **a target is kept in one form, with one meaning**.
-/

namespace IqTape

/-! ### Hosts -/

theorem splitAt_ne_nil (separator : Char) (s : List Char) : splitAt separator s ≠ [] := by
  cases s with
  | nil => exact List.cons_ne_nil _ _
  | cons c s =>
    unfold splitAt
    split
    · exact List.cons_ne_nil _ _
    · split <;> exact List.cons_ne_nil _ _

/-- An octet has a digit in front. -/
theorem of_readOctet? {s : List Char} (h : (readOctet? s).isSome = true) :
    ∃ c rest, s = c :: rest ∧ c.isDigit = true := by
  unfold readOctet? at h
  split at h
  · cases h
  · next hdigits =>
    simp only [Bool.or_eq_true, not_or, Bool.not_eq_true', Bool.not_eq_false] at hdigits
    obtain ⟨⟨hne, hall⟩, -⟩ := hdigits
    cases s with
    | nil => cases hne rfl
    | cons c rest => exact ⟨c, rest, rfl, List.all_eq_true.1 hall c List.mem_cons_self⟩

/-- A host has a digit in front. -/
theorem of_readHost? {s : List Char} (h : (readHost? s).isSome = true) :
    ∃ c rest, s = c :: rest ∧ c.isDigit = true := by
  have hfirst : ∃ first more, splitAt '.' (untilNul s) = first :: more ∧
      (readOctet? first).isSome = true := by
    unfold readHost? at h
    simp only at h
    split at h
    · cases hparts : splitAt '.' (untilNul s) with
      | nil => exact (splitAt_ne_nil _ _ hparts).elim
      | cons first more =>
        refine ⟨first, more, rfl, ?_⟩
        rw [hparts, List.mapM_cons] at h
        cases hoctet : readOctet? first with
        | none =>
          rw [hoctet] at h
          cases h
        | some n => rfl
    · cases h
  obtain ⟨first, more, hparts, hoctet⟩ := hfirst
  obtain ⟨c, rest, rfl, hc⟩ := of_readOctet? hoctet
  -- The first character of the first part is that of the text: it is neither a NUL nor a dot.
  cases s with
  | nil => cases hparts
  | cons d s =>
    refine ⟨d, s, rfl, ?_⟩
    have hcons : untilNul (d :: s) = d :: untilNul s ∨ untilNul (d :: s) = [] := by
      unfold untilNul
      rw [List.takeWhile_cons]
      split
      · exact .inl rfl
      · exact .inr rfl
    rcases hcons with hcons | hnil
    · rw [hcons, splitAt] at hparts
      split at hparts
      · cases hparts
      · split at hparts
        · cases hparts
          exact hc
        · cases hparts
          exact hc
    · rw [hnil] at hparts
      cases hparts

/-! ### Addresses -/

/-- The last separator is the one in front of a text that has none. -/
theorem splitLast?_append {separator : Char} {back : List Char} (h : separator ∉ back)
    (front : List Char) :
    splitLast? separator (front ++ separator :: back) = some (front, back) := by
  have hback : ∀ c ∈ back.reverse, (c != separator) = true := fun c hc =>
    bne_iff_ne.2 fun heq => h (heq ▸ List.mem_reverse.1 hc)
  have hreverse : (front ++ separator :: back).reverse =
      back.reverse ++ separator :: front.reverse := by simp
  have htake : (back.reverse ++ separator :: front.reverse).takeWhile (· != separator) =
      back.reverse := by
    rw [List.takeWhile_append_of_pos hback, List.takeWhile_cons_of_neg (by simp), List.append_nil]
  have hdrop : (back.reverse ++ separator :: front.reverse).dropWhile (· != separator) =
      separator :: front.reverse := by
    rw [List.dropWhile_append_of_pos hback, List.dropWhile_cons_of_neg (by simp)]
  simp only [splitLast?, hreverse, htake, hdrop, List.reverse_reverse]

namespace SocketAddress

variable {a : SocketAddress} {text : String}

/-- **What an address that can be read consists of**: a host in front of the last colon and a port
behind it. -/
theorem of_read? (h : read? text = some a) :
    ∃ (host port : List Char) (n : UInt64), splitLast? ':' text.toList = some (host, port) ∧
      readNat? port = some n ∧ n ≤ 65535 ∧ a.host.toList = host ∧ a.port.toNat = n.toNat ∧
      (readHost? a.host.toList).isSome = true := by
  unfold read? at h
  split at h
  · cases h
  · next host port hsplit =>
    split at h
    · cases h
    · split at h
      · next n octets hport hhost =>
        split at h
        · next hle =>
          cases h
          have hsmall : n.toNat < 65536 := Nat.lt_succ_of_le (UInt64.le_iff_toNat_le.1 hle)
          refine ⟨host, port, n, hsplit, hport, hle, String.toList_ofList, ?_, ?_⟩
          · rw [UInt64.toNat_toUInt16]
            exact Nat.mod_eq_of_lt hsmall
          · rw [String.toList_ofList, hhost]
            rfl
        · cases h
      · cases h

theorem toList_text (a : SocketAddress) :
    a.text.toList = a.host.toList ++ ':' :: digits a.port.toNat := by
  simp [SocketAddress.text, decimal]

/-- **An address is read from its own text.** -/
theorem read?_text (h : (readHost? a.host.toList).isSome = true) : read? a.text = some a := by
  obtain ⟨c, rest, hhost, -⟩ := of_readHost? h
  have hcolon : ':' ∉ digits a.port.toNat := fun hmem =>
    absurd (isDigit_of_mem_digits hmem) (by decide)
  have hsmall : a.port.toNat < 65536 := a.port.toNat_lt
  have hport : readNat? (digits a.port.toNat) = some a.port.toNat.toUInt64 :=
    readNat?_digits (by omega)
  have hword : a.port.toNat.toUInt64.toNat = a.port.toNat :=
    UInt64.toNat_ofNat_of_lt' (hsmall.trans (by decide))
  have hle : a.port.toNat.toUInt64 ≤ 65535 := by
    rw [UInt64.le_iff_toNat_le, hword]
    exact Nat.le_of_lt_succ hsmall
  have hback : a.port.toNat.toUInt64.toUInt16 = a.port := by
    rw [← UInt16.toNat_inj, UInt64.toNat_toUInt16, hword]
    exact Nat.mod_eq_of_lt hsmall
  obtain ⟨octets, hoctets⟩ := Option.isSome_iff_exists.1 h
  -- Neither half is empty, so that both are read.
  have hhostne : a.host.toList.isEmpty = false := by rw [hhost]; rfl
  have hportne : (digits a.port.toNat).isEmpty = false := by
    rw [Bool.eq_false_iff, Ne, List.isEmpty_iff]
    exact digits_ne_nil _
  rw [read?, toList_text, splitLast?_append hcolon]
  simp only [hhostne, hportne, Bool.or_self, Bool.false_eq_true, if_false, hport, hoctets,
    if_pos hle, hback, String.ofList_toList]

/-- An address with a host keeps its text: there are no blanks around it, and no scheme. -/
theorem normalTarget?_text (h : (readHost? a.host.toList).isSome = true) :
    normalTarget? a.text = some a.text := by
  obtain ⟨c, rest, hhost, hc⟩ := of_readHost? h
  have hlist : a.text.toList = c :: (rest ++ ':' :: digits a.port.toNat) := by
    rw [toList_text, hhost]
    rfl
  have htrim : trim a.text.toList = a.text.toList := by
    refine trim_eq_self (fun d hd => ?_) fun d hd => ?_
    · rw [hlist] at hd
      cases hd
      exact isBlank_of_isDigit hc
    · rw [toList_text, List.getLast?_append_of_ne_nil _ (List.cons_ne_nil _ _),
        List.getLast?_cons_of_ne_nil (digits_ne_nil _)] at hd
      exact isBlank_of_isDigit (isDigit_of_mem_digits (List.mem_of_mem_getLast? hd))
  -- The scheme begins with a letter, and the host with a digit.
  have hscheme : targetScheme.isPrefixOf a.text.toList = false := by
    have hne : 'u' ≠ c := (ne_of_isDigit hc (by decide)).symm
    rw [hlist, targetScheme, List.isPrefixOf_cons_cons, beq_false_of_ne hne, Bool.false_and]
  rw [normalTarget?, htrim]
  simp only [hscheme, Bool.false_eq_true, if_false, String.ofList_toList]
  rw [read?_text h]
  rfl

end SocketAddress

/-- A target without the blanks around it and without its scheme. -/
def bareTarget (text : String) : String :=
  let s := trim text.toList
  String.ofList (if targetScheme.isPrefixOf s then s.drop targetScheme.length else s)

theorem normalTarget?_eq (text : String) :
    normalTarget? text = (SocketAddress.read? (bareTarget text)).map SocketAddress.text := rfl

/-- What a text that is kept consists of. -/
theorem of_normalTarget? {text t : String} (h : normalTarget? text = some t) :
    ∃ (a : SocketAddress) (host port : List Char) (n : UInt64),
      splitLast? ':' (bareTarget text).toList = some (host, port) ∧ readNat? port = some n ∧
      n ≤ 65535 ∧ a.host.toList = host ∧ a.port.toNat = n.toNat ∧ a.text = t ∧
      (readHost? a.host.toList).isSome = true := by
  rw [normalTarget?_eq] at h
  obtain ⟨a, hread, ha⟩ := Option.map_eq_some_iff.1 h
  obtain ⟨host, port, n, hsplit, hport, hle, hkept, hword, hhost⟩ := SocketAddress.of_read? hread
  exact ⟨a, host, port, n, hsplit, hport, hle, hkept, hword, ha, hhost⟩

/-- **What is kept is kept as it is.** -/
theorem normalTarget?_of_kept {text t : String} (h : normalTarget? text = some t) :
    normalTarget? t = some t := by
  obtain ⟨a, -, -, -, -, -, -, -, -, ha, hhost⟩ := of_normalTarget? h
  rw [← ha]
  exact SocketAddress.normalTarget?_text hhost

/-! ### Who reads a target -/

/-- The check of the settings takes a target that can be read. -/
theorem ReplayConfig.validate_ne_badTarget {c : ReplayConfig} {a : SocketAddress}
    (h : SocketAddress.read? c.target = some a) (text : String) :
    c.validate ≠ some (.badTarget text) := by
  unfold validate
  split_ifs <;> simp_all

/-- A target that is refused as an option leaves the settings as they are. -/
theorem ReplayConfig.chooseAll_of_badTarget {text : String} (h : normalTarget? text = none)
    (operands : Option (List String)) (given : List (Given Choice)) (c : ReplayConfig) :
    chooseAll operands (⟨.setting .target, some text⟩ :: given) c =
      (c, some (.option .target text)) := by
  simp [chooseAll, choose, withSetting?, h]

/-- A target that is refused in a file leaves the target as it is. -/
theorem ReplayConfig.loadJson_of_badTarget {text : String} {j : Json}
    (h : normalTarget? text = none) (hj : j.field? "target" = some (.string text))
    (c : ReplayConfig) :
    (c.loadJson j).1.target = c.target ∧ (c.loadJson j).2.isSome = true := by
  have htarget (d : ReplayConfig) :
      namedMember "target" .target normalTarget?
        (fun v c => { c with target := v }) j d = .error (.member .target (.string text)) := by
    simp [namedMember, hj, Json.asText?, h]
  -- Only the step for the input comes before the one for the target.
  unfold loadJson members ConfigStep.run
  cases hinput : j.field? "input" with
  | none => simp [member, hinput, ConfigStep.run, htarget]
  | some v =>
    cases hv : v.asText? with
    | none => simp [member, hinput, hv]
    | some input => simp [member, hinput, hv, ConfigStep.run, htarget]

namespace ReplaySession

variable {s : ReplaySession} {a : SocketAddress} {net : SocketAnswers}

/-- A socket is connected to the target, if anywhere; the settings stay. -/
theorem openSocket_target (s : ReplaySession) (net : SocketAnswers)
    (h : SocketAddress.read? s.config.target = some a) :
    (∀ text, (s.openSocket net).2.2 ≠ some (.badTarget text)) ∧
      (∀ b, .connect b ∈ (s.openSocket net).2.1 → b = a) ∧
      ((s.openSocket net).2.2 = none → .connect a ∈ (s.openSocket net).2.1) ∧
      (s.openSocket net).1.config = s.config := by
  unfold openSocket
  rw [h]
  split
  · simp
  · next hnone => cases hnone
  · next here there hhere hthere =>
    cases hthere
    simp only
    split <;> simp

/-- **The address that a session connects to** is the one that its target is kept as. -/
theorem setUp_target {t : String} (ht : normalTarget? s.config.target = some t)
    (ha : SocketAddress.read? t = some a) (now : Int) (tape : Option Source)
    (net : SocketAnswers) :
    (∀ text, (s.setUp now tape net).2.2 ≠ some (.badTarget text)) ∧
      (∀ b, .connect b ∈ (s.setUp now tape net).2.1 → b = a) ∧
      ((s.setUp now tape net).2.2 = none →
        .connect a ∈ (s.setUp now tape net).2.1 ∧
          (s.setUp now tape net).1.config.target = t) := by
  unfold setUp
  split
  · simp
  · rw [ht]
    simp only
    split
    · simp
    · next r hopen =>
      obtain ⟨hfault, honly, hconnected, hconfig⟩ := openSocket_target
        { s with config := { s.config with target := t }, header := r.header } net ha
      split
      · next s' calls f hsocket =>
        rw [hsocket] at hfault honly
        exact ⟨hfault, honly, nofun⟩
      · next s' calls hsocket =>
        rw [hsocket] at honly hconnected hconfig
        exact ⟨nofun, honly, fun _ => ⟨hconnected rfl, congrArg ReplayConfig.target hconfig⟩⟩

/-- A target that is refused leaves the session as it is. -/
theorem setUp_of_badTarget (h : normalTarget? s.config.target = none) (now : Int)
    (tape : Option Source) (net : SocketAnswers) : (s.setUp now tape net).1 = s := by
  unfold setUp
  split
  · rfl
  · rw [h]

end ReplaySession

/-- **A target is kept in one form, with one meaning.**  If a text is a target, its kept form is
the target of the same host and port, and is kept as it is; the settings that have it are not
refused for it, and a session that has it, or the text, connects to that address and no other.  A
text that is no target changes nothing, be it an option, in a file or in a session. -/
theorem target_is_canonical (text : String) :
    (∀ t, normalTarget? text = some t →
      normalTarget? t = some t ∧
        ∃ (host port : List Char) (n : UInt64) (a : SocketAddress),
          splitLast? ':' (bareTarget text).toList = some (host, port) ∧
          readNat? port = some n ∧ n ≤ 65535 ∧
          a.host.toList = host ∧ a.port.toNat = n.toNat ∧
          SocketAddress.read? t = some a ∧ a.text = t ∧
          (∀ c : ReplayConfig, c.target = t → ∀ other, c.validate ≠ some (.badTarget other)) ∧
          ∀ (s : ReplaySession) (now : Int) (tape : Option Source) (net : SocketAnswers),
            s.config.target = text ∨ s.config.target = t →
              (∀ other, (s.setUp now tape net).2.2 ≠ some (.badTarget other)) ∧
                (∀ b, .connect b ∈ (s.setUp now tape net).2.1 → b = a) ∧
                ((s.setUp now tape net).2.2 = none →
                  .connect a ∈ (s.setUp now tape net).2.1 ∧
                    (s.setUp now tape net).1.config.target = t)) ∧
      (normalTarget? text = none →
        (∀ (operands : Option (List String)) (given : List (Given ReplayConfig.Choice))
          (c : ReplayConfig),
          ReplayConfig.chooseAll operands (⟨.setting .target, some text⟩ :: given) c =
            (c, some (.option .target text))) ∧
          (∀ (c : ReplayConfig) (j : Json), j.field? "target" = some (.string text) →
            (c.loadJson j).1.target = c.target ∧ (c.loadJson j).2.isSome = true) ∧
          ∀ (s : ReplaySession) (now : Int) (tape : Option Source) (net : SocketAnswers),
            s.config.target = text → (s.setUp now tape net).1 = s) := by
  refine ⟨fun t ht => ?_, fun hnone => ?_⟩
  · obtain ⟨a, host, port, n, hsplit, hport, hle, hkept, hword, ha, hhost⟩ := of_normalTarget? ht
    have hagain : SocketAddress.read? t = some a := ha ▸ SocketAddress.read?_text hhost
    have hnormal := normalTarget?_of_kept ht
    refine ⟨hnormal, host, port, n, a, hsplit, hport, hle, hkept, hword, hagain, ha, ?_, ?_⟩
    · intro c hc
      rw [← hc] at hagain
      exact ReplayConfig.validate_ne_badTarget hagain
    · intro s now tape net hs
      have hconfig : normalTarget? s.config.target = some t := by
        rcases hs with hs | hs
        · rw [hs, ht]
        · rw [hs, hnormal]
      exact ReplaySession.setUp_target hconfig hagain now tape net
  · refine ⟨ReplayConfig.chooseAll_of_badTarget hnone,
      fun c j hj => ReplayConfig.loadJson_of_badTarget hnone hj c, ?_⟩
    intro s now tape net hs
    rw [← hs] at hnone
    exact ReplaySession.setUp_of_badTarget hnone now tape net

/-- A session whose target has a scheme, blanks and zeros. -/
def spacedSession : ReplaySession :=
  .idle { ReplayConfig.initial with target := " udp://127.0.0.1: 0080 " } 0

/-- A socket can be made. -/
def willing : SocketAnswers := ⟨none, none, none, none, 40000⟩

/-- What it comes to on an empty tape. -/
def spacedOutcome : ReplaySession × List SocketCall × Option SetupFault :=
  spacedSession.setUp 0 (some (.ofBytes Header.blank.encode)) willing

set_option maxRecDepth 8000 in
/-- It connects to the address; a name for a host is refused as an option. -/
theorem target_is_canonical_of_spacedSession :
    normalTarget? spacedSession.config.target = some "127.0.0.1:80" ∧
      normalTarget? "127.0.0.1:80" = some "127.0.0.1:80" ∧
      SocketAddress.read? "127.0.0.1:80" = some ⟨"127.0.0.1", 80⟩ ∧
      spacedOutcome.2.2 = none ∧ .connect ⟨"127.0.0.1", 80⟩ ∈ spacedOutcome.2.1 ∧
      spacedOutcome.1.config.target = "127.0.0.1:80" ∧
      normalTarget? "udp://localhost:80" = none ∧
      ReplayConfig.chooseAll (some []) [⟨.setting .target, some "udp://localhost:80"⟩] .initial =
        (.initial, some (.option .target "udp://localhost:80")) := by
  have hkept : normalTarget? spacedSession.config.target = some "127.0.0.1:80" := rfl
  have hread : SocketAddress.read? "127.0.0.1:80" = some ⟨"127.0.0.1", 80⟩ := rfl
  have hdone : spacedOutcome.2.2 = none := by decide +kernel
  unfold spacedOutcome at hdone ⊢
  obtain ⟨hagain, -, -, -, a, -, -, -, -, -, ha, -, -, hsession⟩ :=
    (target_is_canonical spacedSession.config.target).1 _ hkept
  rw [hread, Option.some_inj] at ha
  subst ha
  obtain ⟨hcall, htarget⟩ := (hsession spacedSession 0 _ willing (.inl rfl)).2.2 hdone
  have hnone : normalTarget? "udp://localhost:80" = none := rfl
  exact ⟨hkept, hagain, hread, hdone, hcall, htarget, hnone,
    ((target_is_canonical "udp://localhost:80").2 hnone).1 (some []) [] .initial⟩

end IqTape
