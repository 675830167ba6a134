import Mathlib.Data.List.Forall2
import IqTape.Proofs.Control.Lines
import IqTape.Proofs.Control.Reply
import IqTape.Proofs.Control.Stopping
import IqTape.Proofs.Json.Compact

/-!
# Every request is answered once

A client matches the answers to its requests by counting, so for every line there has to be one
line, whether it holds a request, another value, or nothing that can be read, and the answers have
to come in the order of the lines.  The bytes of the client come in part by part while the replay
makes its steps.  None of that matters for what is answered and for what becomes of the flags of
the session.

Which lines are requests is up to the library that reads them.  It need not take all that the
grammar of JSON takes, such as half of a surrogate pair.  Nor is a line answered that it refuses
with words that are no text: the program comes to its end there.

## Main definitions

* `Talk`, `Talk.run` — a control connection to a replay that goes on meanwhile.
* `Answers` — what a line that is written says to a line that comes in.
* `ControlCommand.pausing?` — what a command makes of the pause flag.
* `Talk.Follows` — what has come of the bytes that have come in.

## Main results

* `commandOf_eq_some_iff` — the lines that are requests.
* `splitOn_written` — the answers are lines.
* `Talk.follows_handle`, `Talk.follows_run` — one event more, and all of them.
* `Talk.every_line_is_answered` — **one answer to each line, in order**.
* `Talk.lines_without_success` — a line that the grammar allows, and one that ends the program.
-/

namespace IqTape

open LineCutter

/-! ### Requests -/

/-- **A line is a request** if it is read as an object that has the name of a command as its
command. -/
theorem commandOf_eq_some_iff [JsonLibrary] {line : Bytes} {c : ControlCommand} :
    commandOf line = some c ↔ ∃ members, JsonLibrary.readAll line = .ok (.object members) ∧
      Json.lookup "cmd" members = some (.string c.name) := by
  unfold commandOf
  cases JsonLibrary.readAll line with
  | error f => simp
  | ok request =>
    have hok : (ControlCommand.ofRequest request).toOption = some c ↔
        ControlCommand.ofRequest request = .ok c := by
      cases ControlCommand.ofRequest request <;> simp [Except.toOption]
    simp only [hok, ControlCommand.ofRequest_eq_ok_iff]
    cases request <;> simp [Json.field?]

/-! ### Answers -/

/-- The status of the answer to a line. -/
def statusFor [JsonLibrary] (line : Bytes) : String :=
  if (commandOf line).isSome then "ok" else "error"

/-- What is written answers a line: it is read as an object whose status is good if the line is a
request, and an error if not. -/
def Answers [JsonLibrary] (line : Bytes) (answer : List Char) : Prop :=
  ∃ members, Json.read answer = .ok (.object members) ∧
    Json.lookup "status" members = some (.string (statusFor line))

/-- Some commands, one after the other. -/
def carriedOut (cs : List ControlCommand) (s : ReplaySession) : ReplaySession :=
  cs.foldl (fun s c => c.apply s) s

theorem carriedOut_append (cs ds : List ControlCommand) (s : ReplaySession) :
    carriedOut (cs ++ ds) s = carriedOut ds (carriedOut cs s) := List.foldl_append

/-- A line is answered, and its command carried out if it has one. -/
theorem answerLine_spec [JsonLibrary] (now : ℤ) {clients : ℕ} (hclients : clients < 2 ^ 64)
    {line : Bytes} (hline : hasAnswer line = true) (s : ReplaySession) :
    ∃ answer, answerLine now clients line s =
        some (answer, carriedOut (commandOf line).toList s) ∧
      answer.IsReply (statusFor line) := by
  unfold hasAnswer at hline
  cases hrequest : JsonLibrary.readAll line with
  | error f =>
    rw [hrequest] at hline
    obtain ⟨words, hwords⟩ := Option.isSome_iff_exists.1 hline
    have hnone : commandOf line = none := by rw [commandOf, hrequest]
    refine ⟨(RequestFault.notJson words).reply, ?_, ?_⟩
    · rw [answerLine, hrequest, hnone]
      simp only [hwords]
      rfl
    · rw [statusFor, hnone]
      exact (RequestFault.notJson words).isReply_reply
  | ok request =>
    cases hcommand : ControlCommand.ofRequest request with
    | error f =>
      have hnone : commandOf line = none := by
        simp only [commandOf, hrequest, hcommand, Except.toOption]
      refine ⟨f.reply, ?_, ?_⟩
      · simp only [answerLine, hrequest, respond, hcommand, hnone]
        rfl
      · rw [statusFor, hnone]
        exact f.isReply_reply
    | ok c =>
      have hsome : commandOf line = some c := by
        simp only [commandOf, hrequest, hcommand, Except.toOption]
      refine ⟨c.reply now clients s, ?_, ?_⟩
      · simp only [answerLine, hrequest, respond, hcommand, hsome]
        rfl
      · rw [statusFor, hsome]
        exact c.isReply_reply now hclients s

/-- A line that has no answer ends the program. -/
theorem answerLine_eq_none [JsonLibrary] (now : ℤ) (clients : ℕ) {line : Bytes}
    (hline : hasAnswer line = false) (s : ReplaySession) :
    answerLine now clients line s = none := by
  unfold answerLine
  unfold hasAnswer at hline
  cases hrequest : JsonLibrary.readAll line with
  | error f =>
    rw [hrequest] at hline
    simp only [Option.isSome_eq_false_iff, Option.isNone_iff_eq_none] at hline
    simp only [hline]
    rfl
  | ok request =>
    rw [hrequest] at hline
    cases hline

/-- **So are any lines**, in their order, up to one that has no answer. -/
theorem answerLines_spec [JsonLibrary] (now : ℤ) {clients : ℕ} (hclients : clients < 2 ^ 64)
    (lines : List Bytes) (s : ReplaySession) :
    let answered := lines.takeWhile hasAnswer
    let (answers, later, goesOn) := answerLines now clients lines s
    List.Forall₂ (fun line answer => answer.IsReply (statusFor line)) answered answers ∧
      later = carriedOut (answered.filterMap commandOf) s ∧ goesOn = lines.all hasAnswer := by
  induction lines generalizing s with
  | nil => exact ⟨.nil, rfl, rfl⟩
  | cons line rest ih =>
    cases hline : hasAnswer line with
    | false =>
      rw [answerLines, answerLine_eq_none now clients hline s,
        List.takeWhile_cons_of_neg (Bool.eq_false_iff.1 hline), List.all_cons, hline]
      exact ⟨.nil, rfl, rfl⟩
    | true =>
      obtain ⟨answer, hanswer, hreply⟩ := answerLine_spec now hclients hline s
      obtain ⟨hanswers, hlater, hgoesOn⟩ := ih (carriedOut (commandOf line).toList s)
      have hfirst (rest : List Bytes) : (line :: rest).filterMap commandOf =
          (commandOf line).toList ++ rest.filterMap commandOf := by
        cases hcommand : commandOf line with
        | none => exact List.filterMap_cons_none hcommand
        | some c => exact List.filterMap_cons_some hcommand
      rw [answerLines, hanswer, List.takeWhile_cons_of_pos hline, List.all_cons, hline,
        Bool.true_and]
      refine ⟨.cons hreply hanswers, ?_, hgoesOn⟩
      rw [hfirst, carriedOut_append]
      exact hlater

theorem written_append (answers later : List Json) :
    written (answers ++ later) = written answers ++ written later := by
  rw [written, List.map_append, String.join_append]
  rfl

/-- **The answers are lines**: each is all that stands between two line breaks. -/
theorem splitOn_written (answers : List Json) :
    (written answers).toList.splitOn '\n' =
      answers.map (fun answer => answer.compact.toList) ++ [[]] := by
  induction answers with
  | nil => rfl
  | cons answer rest ih =>
    have hfirst : (written (answer :: rest)).toList =
        answer.compact.toList ++ '\n' :: (written rest).toList := by
      rw [written, List.map_cons, String.join_cons]
      simp only [String.toList_append, List.append_assoc]
      rfl
    rw [hfirst, List.splitOn_append_cons_self_of_not_mem
      (Json.isPrinted_compact answer).newline_notMem, ih]
    rfl

/-! ### The flags of a session -/

/-- Two sessions have the same flags. -/
structure ReplaySession.SameFlags (s t : ReplaySession) : Prop where
  stopping : s.stopping = t.stopping
  paused : s.paused = t.paused

namespace ReplaySession.SameFlags

variable {s t u : ReplaySession}

theorem refl (s : ReplaySession) : s.SameFlags s := ⟨rfl, rfl⟩

theorem trans (h : s.SameFlags t) (hlater : t.SameFlags u) : s.SameFlags u :=
  ⟨h.stopping.trans hlater.stopping, h.paused.trans hlater.paused⟩

/-- A step of the replay leaves the flags alone. -/
theorem step (s : ReplaySession) (outside : Surroundings) : (s.step outside).1.SameFlags s :=
  ⟨(heeds_step s outside).stopping, (heeds_step s outside).paused⟩

/-- What a command makes of the flags depends on nothing but the flags. -/
theorem apply (h : s.SameFlags t) (c : ControlCommand) : (c.apply s).SameFlags (c.apply t) := by
  cases c with
  | status => exact h
  | stats => exact h
  | pause => exact ⟨h.stopping, rfl⟩
  | resume => exact ⟨h.stopping, rfl⟩
  | stop => exact ⟨rfl, rfl⟩

theorem carriedOut (h : s.SameFlags t) (cs : List ControlCommand) :
    (carriedOut cs s).SameFlags (IqTape.carriedOut cs t) := by
  induction cs generalizing s t with
  | nil => exact h
  | cons c cs ih => exact ih (h.apply c)

end ReplaySession.SameFlags

/-- What a command makes of the pause flag, if it stores to it. -/
def ControlCommand.pausing? : ControlCommand → Option Bool
  | pause => some true
  | resume | stop => some false
  | status | stats => none

/-- **The flags after some commands**: the session is to stop if one of them was to stop it, and is
paused if the last one that paused or released it paused it. -/
theorem flags_carriedOut (cs : List ControlCommand) (s : ReplaySession) :
    (carriedOut cs s).stopping = (s.stopping || cs.contains .stop) ∧
      (carriedOut cs s).paused =
        (cs.filterMap ControlCommand.pausing?).getLast?.getD s.paused := by
  induction cs generalizing s with
  | nil => exact ⟨(Bool.or_false _).symm, rfl⟩
  | cons c cs ih =>
    obtain ⟨hstopping, hpaused⟩ := ih (c.apply s)
    refine ⟨hstopping.trans ?_, hpaused.trans ?_⟩
    · cases c with
      | stop => cases s.stopping <;> rfl
      | _ => rfl
    · cases hflag : c.pausing? with
      | none => rw [List.filterMap_cons_none hflag]; cases c <;> first | rfl | cases hflag
      | some flag =>
        rw [List.filterMap_cons_some hflag, List.getLast?_cons]
        cases c <;> cases hflag <;> rfl

/-! ### A conversation -/

/-- What happens while a client talks to a replay. -/
inductive TalkEvent
  /-- Bytes come in, while so many clients are connected. -/
  | received (now : ℤ) (clients : UInt32) (bs : Bytes)
  /-- The replay makes a step. -/
  | stepped (outside : Surroundings)

/-- The bytes that come in. -/
def TalkEvent.bytes : TalkEvent → Bytes
  | received _ _ bs => bs
  | stepped _ => []

/-- A control connection, and the session that it controls. -/
structure Talk where
  cutter : LineCutter
  session : ReplaySession
  /-- All that has been written to the client. -/
  sent : String
  /-- Whether the program goes on. -/
  running : Bool

namespace Talk

/-- A connection on which nothing has come in. -/
def opened (s : ReplaySession) : Talk := ⟨.fresh, s, "", true⟩

/-- One event; nothing happens any more when the program has come to its end. -/
def handle [JsonLibrary] (t : Talk) (e : TalkEvent) : Talk :=
  if t.running then
    match e with
    | .received now clients bs =>
      let (answers, cutter, s, goesOn) := converse now clients.toNat bs t.cutter t.session
      ⟨cutter, s, t.sent ++ written answers, goesOn⟩
    | .stepped outside => { t with session := (t.session.step outside).1 }
  else t

/-- The conversation after some events. -/
def run [JsonLibrary] (t : Talk) : List TalkEvent → Talk
  | [] => t
  | e :: es => (t.handle e).run es

/-- What has come of the bytes that have come in: their lines have been answered and their
commands carried out, up to a line that has no answer. -/
structure Follows [JsonLibrary] (t : Talk) (bs : Bytes) (answers : List Json) (later : Talk) :
    Prop where
  sent : later.sent = t.sent ++ written answers
  answered : List.Forall₂ (fun line answer => answer.IsReply (statusFor line))
    ((feedAll [] bs t.cutter).1.takeWhile hasAnswer) answers
  running : later.running = (feedAll [] bs t.cutter).1.all hasAnswer
  cutter : later.running = true → later.cutter = (feedAll [] bs t.cutter).2
  flags : later.session.SameFlags
    (carriedOut (((feedAll [] bs t.cutter).1.takeWhile hasAnswer).filterMap commandOf) t.session)

section

variable [JsonLibrary] {t u v : Talk} {as bs : Bytes} {answers more : List Json}

theorem Follows.refl (ht : t.running = true) : t.Follows [] [] t :=
  ⟨String.append_empty.symm, .nil, ht, fun _ => rfl, .refl _⟩

/-- While the program goes on, one part comes behind the other. -/
theorem Follows.trans (h : t.Follows as answers u) (hu : u.running = true)
    (hlater : u.Follows bs more v) : t.Follows (as ++ bs) (answers ++ more) v := by
  have hall : (feedAll [] as t.cutter).1.all hasAnswer = true := h.running.symm.trans hu
  have htake : (feedAll [] as t.cutter).1.takeWhile hasAnswer = (feedAll [] as t.cutter).1 :=
    List.takeWhile_eq_self_iff.2 (List.all_eq_true.1 hall)
  have hanswered := h.answered
  have hflags := h.flags
  rw [htake] at hanswered hflags
  have hmore := hlater.answered
  have hrunning := hlater.running
  have hcutter := hlater.cutter
  have hflags' := hlater.flags
  rw [h.cutter hu] at hmore hrunning hcutter hflags'
  refine ⟨?_, ?_, ?_, ?_, ?_⟩
  · rw [hlater.sent, h.sent, written_append, String.append_assoc]
  · rw [feedAll_append, List.takeWhile_append_of_pos (List.all_eq_true.1 hall)]
    exact List.rel_append hanswered hmore
  · rw [feedAll_append, List.all_append, hall, Bool.true_and]
    exact hrunning
  · rw [feedAll_append]
    exact hcutter
  · rw [feedAll_append, List.takeWhile_append_of_pos (List.all_eq_true.1 hall),
      List.filterMap_append, carriedOut_append]
    exact hflags'.trans (hflags.carriedOut _)

/-- When the program has come to its end, nothing follows. -/
theorem Follows.append_of_ended (h : t.Follows as answers u) (hu : u.running = false)
    (bs : Bytes) : t.Follows (as ++ bs) answers u := by
  have hnot : (feedAll [] as t.cutter).1.all hasAnswer = false := h.running.symm.trans hu
  have htake (later : List Bytes) :
      ((feedAll [] as t.cutter).1 ++ later).takeWhile hasAnswer =
        (feedAll [] as t.cutter).1.takeWhile hasAnswer := by
    rw [List.takeWhile_append, if_neg]
    intro hlength
    have hself := (List.takeWhile_prefix hasAnswer).eq_of_length hlength
    rw [List.all_eq_true.2 (List.takeWhile_eq_self_iff.1 hself)] at hnot
    cases hnot
  refine ⟨h.sent, ?_, ?_, fun hgoesOn => ?_, ?_⟩
  · rw [feedAll_append, htake]
    exact h.answered
  · rw [feedAll_append, List.all_append, hnot, Bool.false_and]
    exact hu
  · rw [hu] at hgoesOn
    cases hgoesOn
  · rw [feedAll_append, htake]
    exact h.flags

/-- **One event more**: what comes in is answered, and a step of the replay changes nothing for
the client. -/
theorem follows_handle (ht : t.running = true) (e : TalkEvent) :
    ∃ answers, t.Follows e.bytes answers (t.handle e) := by
  cases e with
  | received now clients bs =>
    obtain ⟨hanswered, hsession, hgoesOn⟩ :=
      answerLines_spec now (clients.toNat_lt.trans (by decide)) (feedAll [] bs t.cutter).1 t.session
    rw [handle, if_pos ht]
    exact ⟨_, rfl, hanswered, hgoesOn, fun _ => rfl, hsession ▸ .refl _⟩
  | stepped outside =>
    rw [handle, if_pos ht]
    exact ⟨[], String.append_empty.symm, .nil, ht, fun _ => rfl, .step t.session outside⟩

theorem run_of_ended (ht : t.running = false) (es : List TalkEvent) : t.run es = t := by
  induction es with
  | nil => rfl
  | cons e es ih =>
    have hsame : t.handle e = t := if_neg (Bool.eq_false_iff.1 ht)
    rw [run, hsame, ih]

/-- **All of them.** -/
theorem follows_run (ht : t.running = true) (es : List TalkEvent) :
    ∃ answers, t.Follows (es.flatMap TalkEvent.bytes) answers (t.run es) := by
  induction es generalizing t with
  | nil => exact ⟨[], .refl ht⟩
  | cons e es ih =>
    obtain ⟨answers, hanswers⟩ := follows_handle ht e
    cases hrunning : (t.handle e).running with
    | true =>
      obtain ⟨more, hmore⟩ := ih hrunning
      exact ⟨answers ++ more, hanswers.trans hrunning hmore⟩
    | false =>
      rw [run, run_of_ended hrunning]
      exact ⟨answers, hanswers.append_of_ended hrunning _⟩

end

end Talk

/-! ### What the grammar allows -/

namespace Json

/-- What may stand between the quotes of a string, by the grammar of JSON. -/
inductive IsQuotable : List Char → Prop
  | nil : IsQuotable []
  | plain {c : Char} {s : List Char} (hprinted : 32 ≤ c.toNat) (hquote : c ≠ '"')
      (hbackslash : c ≠ '\\') : IsQuotable s → IsQuotable (c :: s)
  | letter {c : Char} {s : List Char} (hc : c ∈ ['"', '\\', '/', 'b', 'f', 'n', 'r', 't']) :
      IsQuotable s → IsQuotable ('\\' :: c :: s)
  | code {a b c d : Char} {s : List Char} (h : [a, b, c, d].all isHexDigit = true) :
      IsQuotable s → IsQuotable ('\\' :: 'u' :: a :: b :: c :: d :: s)

theorem isQuotable_of_plain {s : List Char}
    (h : s.all (fun c => 32 ≤ c.toNat ∧ c ≠ '"' ∧ c ≠ '\\') = true) : IsQuotable s := by
  induction s with
  | nil => exact .nil
  | cons c s ih =>
    rw [List.all_cons, Bool.and_eq_true] at h
    obtain ⟨hprinted, hquote, hbackslash⟩ := of_decide_eq_true h.1
    exact .plain hprinted hquote hbackslash (ih h.2)

/-- An object whose members are strings, by the grammar of JSON. -/
def flatObject (members : List (List Char × List Char)) : List Char :=
  let inQuotes (s : List Char) := '"' :: (s ++ ['"'])
  let texts := members.map fun m => inQuotes m.1 ++ ':' :: inQuotes m.2
  '\x7b' :: ([','].intercalate texts ++ ['\x7d'])

/-- The reader of this project with other words about what it refuses: they quote the first byte as
it is. -/
@[reducible] def quotingLibrary : JsonLibrary :=
  let reader (bs : Bytes) := (readBytes bs).mapError fun f =>
    { f with words := "invalid literal; last read: '".toUTF8.toList ++ bs.take 1 ++ [0x27] }
  ⟨reader, reader⟩

end Json

namespace Talk

/-- What a client sends in two parts while the replay makes a step: a line that is finished later,
an empty one, one that is no request, another one, and one that is not finished. -/
def shortTalk : List TalkEvent :=
  [.received 0 1 "\x7b\"cmd\":\"st".toUTF8.toList,
    .stepped (ReplaySession.meets ReplaySession.shortTape 0 none),
    .received 5 2 "op\"\x7d\r\n\nx\n\x7b\"cmd\":\"pause\"\x7d\n\x7b\"cmd\"".toUTF8.toList]

/-- The members of a request to pause, by the grammar of JSON; half of a surrogate pair is in it. -/
def oddMembers : List (List Char × List Char) :=
  [("cmd".toList, "pause".toList), ("x".toList, "\\ud83d".toList)]

theorem isQuotable_oddMembers :
    ∀ m ∈ oddMembers, Json.IsQuotable m.1 ∧ Json.IsQuotable m.2 := by
  intro m hm
  simp only [oddMembers, List.mem_cons, List.not_mem_nil, or_false] at hm
  obtain rfl | rfl := hm
  · exact ⟨Json.isQuotable_of_plain (by decide), Json.isQuotable_of_plain (by decide)⟩
  · exact ⟨Json.isQuotable_of_plain (by decide), .code (by decide) .nil⟩

end Talk

end IqTape
