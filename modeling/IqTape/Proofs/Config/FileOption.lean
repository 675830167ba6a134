import IqTape.Config.Recorder
import IqTape.Config.Replayer

/-!
# The two readers of the configuration file option

The configuration file has to be read before the options, which override it.  So a search goes
over the arguments first, and it knows only what an argument looks like: it sees `-c` and
`--config` with the next argument, and what is attached to `-c` and to `--config=`.  The options
themselves are read by their rules, by which letters may share a dash and names may be cut short,
and by which an argument may be the value of another option or an operand.

The two agree as long as the option is spelled out when it comes first, and nothing before it that
is no option looks like it.

## Main definitions

* `Mention`, `mention` — what the search sees in an argument.
* `CommandLine.named` — the value of the first option with some meaning.
* `spelledOut` — whether the first mention is the first option.
* `NamesFile` — a table of options that has the option for the file.

## Main results

* `configFile_cons` — the search goes from mention to mention.
* `NamesFile.reading_of_next`, `NamesFile.reading_of_attached` — an option that is spelled out says
  what the search sees in it.
* `configFile_eq_named` — the search finds the file that the options name.
* `the_file_named_is_loaded` — **so both programs load the file that the options name**.
-/

namespace IqTape

/-! ### What the search sees -/

/-- What the search for the configuration file sees in an argument. -/
inductive Mention
  | nothing
  /-- The file is the next argument. -/
  | next
  /-- The file is part of the argument. -/
  | attached (file : String)
  deriving DecidableEq, Repr

/-- The name of the option. -/
def configName : List Char := ['c', 'o', 'n', 'f', 'i', 'g']

/-- What stands in front of a file that is attached to it. -/
def attachedFront : List Char := '-' :: '-' :: (configName ++ ['='])

/-- What the search sees in the characters of an argument that does not begin so. -/
def mentionOfLetter : List Char → Mention
  | '-' :: 'c' :: c :: s => .attached (String.ofList (c :: s))
  | _ => .nothing

def mention (argument : String) : Mention :=
  if argument = "-c" ∨ argument = "--config" then .next
  else if attachedFront.isPrefixOf argument.toList then
    .attached (String.ofList (argument.toList.drop attachedFront.length))
  else mentionOfLetter argument.toList

/-- **The search goes from mention to mention**, and ends at the first that has a file. -/
theorem configFile_cons (argument : String) (rest : List String) :
    configFile (argument :: rest) =
      match mention argument, rest with
      | .next, file :: _ => file
      | .attached file, _ => file
      | _, rest => configFile rest := by
  conv => lhs; unfold configFile
  unfold mention
  simp only
  split
  · rw [if_pos (.inl rfl)]
  · rw [if_pos (.inr rfl)]
  · next hshort hlong =>
    by_cases hnext : argument = "-c" ∨ argument = "--config"
    · -- The last argument can only be the option without its file.
      cases rest with
      | nil => rcases hnext with rfl | rfl <;> rfl
      | cons file rest =>
        rcases hnext with rfl | rfl
        · exact (hshort file rest rfl rfl).elim
        · exact (hlong file rest rfl rfl).elim
    · rw [if_neg hnext]
      by_cases hfront : attachedFront.isPrefixOf argument.toList = true
      · rw [if_pos hfront]
        exact if_pos hfront
      · rw [if_neg hfront]
        refine (if_neg hfront).trans ?_
        split
        · next hletter => rw [hletter, mentionOfLetter]
        · next hother =>
          rw [mentionOfLetter]
          exact hother

/-- A mention is one of the four spellings. -/
theorem spelling_of_mention {argument : String} (h : mention argument ≠ .nothing) :
    (mention argument = .next ∧
        (argument.toList = ['-', 'c'] ∨ argument.toList = '-' :: '-' :: configName)) ∨
      ∃ file, mention argument = .attached (String.ofList file) ∧
        (argument.toList = '-' :: '-' :: (configName ++ '=' :: file) ∨
          file ≠ [] ∧ argument.toList = '-' :: 'c' :: file) := by
  unfold mention at h ⊢
  by_cases hnext : argument = "-c" ∨ argument = "--config"
  · rw [if_pos hnext]
    refine .inl ⟨rfl, ?_⟩
    rcases hnext with rfl | rfl
    · exact .inl rfl
    · exact .inr rfl
  · rw [if_neg hnext] at h ⊢
    by_cases hfront : attachedFront.isPrefixOf argument.toList = true
    · rw [if_pos hfront]
      obtain ⟨file, hfile⟩ := List.isPrefixOf_iff_prefix.1 hfront
      refine .inr ⟨file, ?_, .inl hfile.symm⟩
      rw [← hfile, List.drop_left]
    · rw [if_neg hfront] at h ⊢
      unfold mentionOfLetter at h ⊢
      split at h
      · next c s hletter =>
        rw [hletter]
        exact .inr ⟨c :: s, rfl, .inr ⟨List.cons_ne_nil _ _, rfl⟩⟩
      · exact absurd rfl h

/-! ### What the options say -/

variable {α : Type} {rules : List (OptionRule α)} {m : α}

/-- What an argument says that begins with a dash. -/
def readOption (rules : List (OptionRule α)) (c : Char) (s : List Char) : Reading α :=
  if c = '-' then readName rules s else readLetters rules (c :: s)

/-- A table of options has the one for the configuration file. -/
structure NamesFile (rules : List (OptionRule α)) (m : α) : Prop where
  byLetter : rules.find? (·.letter == 'c') = some ⟨'c', "config", true, m⟩
  byName : rules.find? (·.name.toList == configName) = some ⟨'c', "config", true, m⟩

theorem RecorderConfig.namesFile : NamesFile RecorderConfig.rules Choice.file := ⟨rfl, rfl⟩

theorem ReplayConfig.namesFile : NamesFile ReplayConfig.rules Choice.file := ⟨rfl, rfl⟩

namespace NamesFile

/-- The option for the file, spelled out, has its value in the next argument. -/
theorem reading_of_next (hm : NamesFile rules m) {argument : String} {c : Char} {s : List Char}
    (hargument : argument.toList = '-' :: c :: s) (h : mention argument = .next) :
    readOption rules c s = .awaiting [] m := by
  have hsome : mention argument ≠ .nothing := by
    rw [h]
    decide
  rcases spelling_of_mention hsome with ⟨-, hspelled | hspelled⟩ | ⟨file, hattached, -⟩
  · rw [hargument] at hspelled
    cases hspelled
    rw [readOption, if_neg (by decide), readLetters, hm.byLetter]
    rfl
  · rw [hargument] at hspelled
    cases hspelled
    have hname : configName.takeWhile (· != '=') = configName := by decide
    have hrest : configName.dropWhile (· != '=') = [] := by decide
    rw [readOption, if_pos rfl, readName, hname, hrest, findRule?, hm.byName]
    rfl
  · rw [h] at hattached
    cases hattached

/-- Or it has its value behind it. -/
theorem reading_of_attached (hm : NamesFile rules m) {argument file : String} {c : Char}
    {s : List Char} (hargument : argument.toList = '-' :: c :: s)
    (h : mention argument = .attached file) :
    readOption rules c s = .complete [⟨m, some file⟩] := by
  have hsome : mention argument ≠ .nothing := by
    rw [h]
    exact Mention.noConfusion
  rcases spelling_of_mention hsome with ⟨hnext, -⟩ | ⟨value, hattached, hspelled⟩
  · rw [h] at hnext
    cases hnext
  · rw [h] at hattached
    cases hattached
    rcases hspelled with hspelled | ⟨hfile, hspelled⟩
    · rw [hargument] at hspelled
      cases hspelled
      have hname : (configName ++ '=' :: value).takeWhile (· != '=') = configName := by
        simp [configName]
      have hrest : (configName ++ '=' :: value).dropWhile (· != '=') = '=' :: value := by
        simp [configName]
      rw [readOption, if_pos rfl, readName, hname, hrest, findRule?, hm.byName]
      rfl
    · rw [hargument] at hspelled
      cases hspelled
      rw [readOption, if_neg (by decide), readLetters, hm.byLetter]
      simp only [if_true]
      rw [if_neg (by rwa [List.isEmpty_iff])]

end NamesFile

/-! ### Where the two agree -/

/-- An argument that does not begin with a dash and a letter is no mention. -/
theorem mention_of_operand {argument : String}
    (h : ∀ c s, argument.toList = '-' :: c :: s → c = '-' ∧ s = []) :
    mention argument = .nothing := by
  refine Decidable.byContradiction fun hsome => ?_
  rcases spelling_of_mention hsome with ⟨-, hspelled | hspelled⟩ | ⟨file, -, hspelled⟩
  · exact absurd (h _ _ hspelled).1 (by decide)
  · exact absurd (h _ _ hspelled).2 (by decide)
  · rcases hspelled with hspelled | ⟨-, hspelled⟩
    · exact absurd (h _ _ hspelled).2 (List.cons_ne_nil _ _)
    · exact absurd (h _ _ hspelled).1 (by decide)

theorem configFile_of_nothing {argument : String} (h : mention argument = .nothing)
    (rest : List String) : configFile (argument :: rest) = configFile rest := by
  rw [configFile_cons, h]

theorem configFile_of_attached {argument file : String} (h : mention argument = .attached file)
    (rest : List String) : configFile (argument :: rest) = file := by
  rw [configFile_cons, h]

theorem configFile_of_next {argument : String} (h : mention argument = .next) (file : String)
    (rest : List String) : configFile (argument :: file :: rest) = file := by
  rw [configFile_cons, h]

/-- Where nothing is mentioned no file is found. -/
theorem configFile_of_forall {arguments : List String}
    (h : ∀ argument ∈ arguments, mention argument = .nothing) : configFile arguments = "" := by
  induction arguments with
  | nil => rfl
  | cons argument rest ih =>
    rw [configFile_of_nothing (h argument List.mem_cons_self)]
    exact ih fun later hlater => h later (List.mem_cons_of_mem _ hlater)

variable [DecidableEq α]

/-- The value of the first option with some meaning. -/
def CommandLine.named (m : α) (line : CommandLine α) : Option String :=
  (line.given.find? (·.meaning = m)).bind (·.value)

theorem CommandLine.named_prepend {given : List (Given α)}
    (h : given.all (·.meaning ≠ m) = true) (line : CommandLine α) :
    (line.prepend given).named m = line.named m := by
  have hnone : given.find? (·.meaning = m) = none := by
    rw [List.find?_eq_none]
    intro g hg
    simpa using List.all_eq_true.1 h g hg
  rw [named, prepend, List.find?_append, hnone]
  rfl

theorem CommandLine.named_prepend_self (m : α) (value : Option String) (line : CommandLine α) :
    (line.prepend [⟨m, value⟩]).named m = value := by
  simp [named, prepend]

/-- Whether the first mention is the first option for the file: the option is spelled out, and
neither the value of another option before it nor, without it, an operand behind two dashes looks
like it. -/
def spelledOut (rules : List (OptionRule α)) (m : α) : List String → Bool
  | [] => true
  | argument :: rest =>
    match argument.toList with
    | ['-', '-'] => rest.all (mention · = .nothing)
    | '-' :: c :: s =>
      -- What comes behind the first mention makes no difference.
      if mention argument = .nothing then
        match readOption rules c s with
        | .complete given => given.all (·.meaning ≠ m) && spelledOut rules m rest
        | .awaiting given last =>
          given.all (·.meaning ≠ m) && last ≠ m &&
            match rest with
            | [] => true
            | value :: rest => mention value = .nothing && spelledOut rules m rest
        | .bad _ => true
      else true
    | _ => spelledOut rules m rest

/-- **The search finds the file that the options name**, if the options can be read and the one
for the file is spelled out. -/
theorem configFile_eq_named (hm : NamesFile rules m) {arguments : List String}
    (hspelled : spelledOut rules m arguments = true)
    (hread : (scanOptions rules arguments).operands.isSome = true) :
    configFile arguments = ((scanOptions rules arguments).named m).getD "" := by
  induction arguments using scanOptions.induct rules with
  | case1 => rfl
  | case2 argument rest hdashes =>
    -- Two dashes end the options, so there is none for the file.
    unfold spelledOut at hspelled
    unfold scanOptions
    simp only [hdashes] at hspelled ⊢
    have hnothing : mention argument = .nothing := by
      refine mention_of_operand fun c s h => ?_
      rw [hdashes] at h
      cases h
      exact ⟨rfl, rfl⟩
    have hrest : ∀ operand ∈ rest, mention operand = .nothing := fun operand hoperand =>
      of_decide_eq_true (List.all_eq_true.1 hspelled operand hoperand)
    rw [configFile_of_nothing hnothing, configFile_of_forall hrest]
    rfl
  | case3 argument rest c s hdashes h given hgiven ih =>
    have hreading : readOption rules c s = .complete given := hgiven
    unfold spelledOut at hspelled
    unfold scanOptions at hread ⊢
    simp only [h, hgiven, hreading] at hread hspelled ⊢
    cases hmention : mention argument with
    | nothing =>
      rw [if_pos hmention, Bool.and_eq_true] at hspelled
      rw [configFile_of_nothing hmention, CommandLine.named_prepend hspelled.1]
      exact ih hspelled.2 hread
    | next =>
      rw [hm.reading_of_next h hmention] at hreading
      cases hreading
    | attached file =>
      rw [hm.reading_of_attached h hmention] at hreading
      cases hreading
      rw [configFile_of_attached hmention, CommandLine.named_prepend_self]
      rfl
  | case4 argument c s hdashes h given last hgiven =>
    unfold scanOptions at hread
    simp only [h, hgiven] at hread
    cases hread
  | case5 argument c s hdashes h given last hgiven value rest ih =>
    have hreading : readOption rules c s = .awaiting given last := hgiven
    unfold spelledOut at hspelled
    unfold scanOptions at hread ⊢
    simp only [h, hgiven, hreading] at hread hspelled ⊢
    cases hmention : mention argument with
    | nothing =>
      rw [if_pos hmention, Bool.and_eq_true, Bool.and_eq_true, Bool.and_eq_true] at hspelled
      obtain ⟨⟨hgiven, hlast⟩, hvalue, hrest⟩ := hspelled
      rw [configFile_of_nothing hmention, configFile_of_nothing (of_decide_eq_true hvalue),
        CommandLine.named_prepend]
      · exact ih hrest hread
      · rw [List.all_append, hgiven, List.all_cons, hlast]
        rfl
    | next =>
      rw [hm.reading_of_next h hmention] at hreading
      cases hreading
      rw [configFile_of_next hmention, List.nil_append, CommandLine.named_prepend_self]
      rfl
    | attached file =>
      rw [hm.reading_of_attached h hmention] at hreading
      cases hreading
  | case6 argument rest c s hdashes h given hgiven =>
    unfold scanOptions at hread
    simp only [h, hgiven] at hread
    cases hread
  | case7 argument rest hdashes hoption ih =>
    unfold spelledOut at hspelled
    unfold scanOptions at hread ⊢
    simp only at hspelled hread ⊢
    have hnothing : mention argument = .nothing :=
      mention_of_operand fun c s h => (hoption c s h).elim
    rw [configFile_of_nothing hnothing]
    refine (ih hspelled ?_).trans rfl
    rwa [Option.isSome_map] at hread

/-- **Both programs load the file that the options name**, on every command line whose options can
be read and where the option for the file is spelled out: the search finds the value of the first
such option, or nothing where there is none, and the settings are taken from that file, with
whatever library reads it, before they are taken from the options. -/
theorem the_file_named_is_loaded [JsonLibrary] (files : FileTexts) (arguments : List String) :
    (∀ c : RecorderConfig,
      let line := scanOptions RecorderConfig.rules arguments
      spelledOut RecorderConfig.rules .file arguments = true → line.operands.isSome = true →
        let file := (line.named .file).getD ""
        configFile arguments = file ∧
          RecorderConfig.parseArguments files c arguments =
            if file.isEmpty then c.parseOptions arguments
            else
              match RecorderConfig.loadFile files c file with
              | (c, some f) => (c, some f)
              | (c, none) => c.parseOptions arguments) ∧
      ∀ c : ReplayConfig,
        let line := scanOptions ReplayConfig.rules arguments
        spelledOut ReplayConfig.rules .file arguments = true → line.operands.isSome = true →
          let file := (line.named .file).getD ""
          configFile arguments = file ∧
            ReplayConfig.parseArguments files c arguments =
              if file.isEmpty then c.parseOptions arguments
              else
                match ReplayConfig.loadFile files c file with
                | (c, some f) => (c, some f)
                | (c, none) => c.parseOptions arguments := by
  refine ⟨?_, ?_⟩
  · intro c line hspelled hread file
    have hfile : configFile arguments = file :=
      configFile_eq_named RecorderConfig.namesFile hspelled hread
    refine ⟨hfile, ?_⟩
    rw [← hfile]
    rfl
  · intro c line hspelled hread file
    have hfile : configFile arguments = file :=
      configFile_eq_named ReplayConfig.namesFile hspelled hread
    refine ⟨hfile, ?_⟩
    rw [← hfile]
    rfl

/-- The only file that there is. -/
def settingsFile : FileTexts := fun path =>
  if path = "f.json" then some "\x7b\"quiet\": true\x7d" else none

/-- Arguments that name it behind another option; an output that looks like a mention comes
later. -/
def recorderArguments : List String := ["-vo", "a.glos", "--config=f.json", "-o", "-cX"]

/-- Arguments that name it behind an operand. -/
def replayerArguments : List String := ["-l", "tape.glos", "-c", "f.json"]

set_option maxRecDepth 4000 in
/-- The file is found and read, and then the options. -/
theorem the_file_named_is_loaded_of_settingsFile :
    let recorder := (RecorderConfig.parseArguments settingsFile .initial recorderArguments).1
    let replayer := (ReplayConfig.parseArguments settingsFile .initial replayerArguments).1
    (spelledOut RecorderConfig.rules .file recorderArguments = true ∧
      (scanOptions RecorderConfig.rules recorderArguments).operands.isSome = true ∧
      configFile recorderArguments = "f.json" ∧
      recorder.file = "f.json" ∧ recorder.quiet = true ∧ recorder.output = "-cX") ∧
      spelledOut ReplayConfig.rules .file replayerArguments = true ∧
      (scanOptions ReplayConfig.rules replayerArguments).operands.isSome = true ∧
      configFile replayerArguments = "f.json" ∧
      replayer.file = "f.json" ∧ replayer.quiet = true ∧ replayer.input = "tape.glos" := by
  intro recorder replayer
  refine ⟨?_, ?_⟩
  · have hspelled : spelledOut RecorderConfig.rules .file recorderArguments = true := by
      decide +kernel
    have hread : (scanOptions RecorderConfig.rules recorderArguments).operands.isSome = true := by
      decide +kernel
    obtain ⟨hfile, hparsed⟩ :=
      (the_file_named_is_loaded settingsFile recorderArguments).1 .initial hspelled hread
    have hloaded : recorder.file = "f.json" ∧ recorder.quiet = true ∧ recorder.output = "-cX" := by
      simp only [recorder, hparsed]
      decide +kernel
    exact ⟨hspelled, hread, hfile.trans (by decide +kernel), hloaded⟩
  · have hspelled : spelledOut ReplayConfig.rules .file replayerArguments = true := by
      decide +kernel
    have hread : (scanOptions ReplayConfig.rules replayerArguments).operands.isSome = true := by
      decide +kernel
    obtain ⟨hfile, hparsed⟩ :=
      (the_file_named_is_loaded settingsFile replayerArguments).2 .initial hspelled hread
    have hloaded : replayer.file = "f.json" ∧ replayer.quiet = true ∧
        replayer.input = "tape.glos" := by
      simp only [replayer, hparsed]
      decide +kernel
    exact ⟨hspelled, hread, hfile.trans (by decide +kernel), hloaded⟩

/-- What the options make of some arguments, their operands and the file that is named, and what
the search makes of them. -/
def bothReadings (rules : List (OptionRule α)) (m : α) (arguments : List String) :
    Option (List String) × Option String × String :=
  let line := scanOptions rules arguments
  (line.operands, line.named m, configFile arguments)

/-- **The two disagree** where the option shares its dash or is cut short, and where the value of
another option or an operand looks like it. -/
theorem the_two_readings_differ :
    bothReadings RecorderConfig.rules .file ["-qc", "f.json"] = (some [], some "f.json", "") ∧
      bothReadings RecorderConfig.rules .file ["--conf", "f.json"] =
        (some [], some "f.json", "") ∧
      bothReadings RecorderConfig.rules .file ["-o", "-cX"] = (some [], none, "X") ∧
      bothReadings ReplayConfig.rules .file ["--", "-cX"] = (some ["-cX"], none, "X") := by
  decide +kernel

end IqTape
