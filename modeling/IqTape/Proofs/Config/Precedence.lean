import IqTape.Proofs.Config.FileOption

/-!
# The command line overrides the configuration file

Where the file is named in front of everything else, a command line is read in two halves: the
settings are taken from the file, and then from the arguments behind it as if they stood alone.
Among the options the one for the file changes nothing, since the file has been read by then.  So
whatever the arguments say is said last, and what they do not say is left as the file has it; a
mistake in the file ends the reading before them, and a mistake in them leaves what the file and
the options before it have set.

## Main results

* `NamesFile.scanOptions_of_next` — the option for the file is put in front of the others.
* `RecorderConfig.parseOptions_of_next`, `ReplayConfig.parseOptions_of_next` — and changes nothing.
* `the_command_line_overrides` — **the command line is read after the file**.
-/

namespace IqTape

/-- **The option for the file is put in front** of what the arguments behind it say. -/
theorem NamesFile.scanOptions_of_next {α : Type} {rules : List (OptionRule α)} {m : α}
    (hm : NamesFile rules m) {argument : String} (h : mention argument = .next) (file : String)
    (rest : List String) :
    scanOptions rules (argument :: file :: rest) =
      (scanOptions rules rest).prepend [⟨m, some file⟩] := by
  have hsome : mention argument ≠ .nothing := by
    rw [h]
    exact Mention.noConfusion
  obtain ⟨c, s, hargument, hdashes⟩ : ∃ c s, argument.toList = '-' :: c :: s ∧
      argument.toList ≠ ['-', '-'] := by
    rcases spelling_of_mention hsome with ⟨-, hspelled | hspelled⟩ | ⟨_, hattached, -⟩
    · exact ⟨'c', [], hspelled, by rw [hspelled]; decide⟩
    · exact ⟨'-', configName, hspelled, by rw [hspelled]; decide⟩
    · rw [h] at hattached
      cases hattached
  have hreading := hm.reading_of_next hargument h
  rw [readOption] at hreading
  conv => lhs; unfold scanOptions
  split
  · next hboth => exact absurd hboth hdashes
  · next c' s' hboth =>
    rw [hargument] at hboth
    cases hboth
    rw [hreading]
    rfl
  · next hneither => exact (hneither c s hargument).elim

/-- Among the options of a recorder the one for the file changes nothing. -/
theorem RecorderConfig.parseOptions_of_next {argument : String} (h : mention argument = .next)
    (file : String) (rest : List String) (c : RecorderConfig) :
    c.parseOptions (argument :: file :: rest) = c.parseOptions rest := by
  simp only [parseOptions, namesFile.scanOptions_of_next h]
  rfl

/-- Among the options of a replayer the one for the file changes nothing. -/
theorem ReplayConfig.parseOptions_of_next {argument : String} (h : mention argument = .next)
    (file : String) (rest : List String) (c : ReplayConfig) :
    c.parseOptions (argument :: file :: rest) = c.parseOptions rest := by
  simp only [parseOptions, namesFile.scanOptions_of_next h]
  rfl

/-- **The command line is read after the file.**  With a file in front, the settings are taken from
the file and, if it has no mistake, from the arguments behind it as from a command line of their
own, for both programs, whatever the file and the arguments say and whatever library reads it. -/
theorem the_command_line_overrides [JsonLibrary] (files : FileTexts) {file : String}
    (hfile : file ≠ "") {rest : List String} (hrest : configFile rest = "") :
    (∀ c : RecorderConfig,
      RecorderConfig.parseArguments files c ("-c" :: file :: rest) =
        match RecorderConfig.loadFile files c file with
        | (c, some f) => (c, some f)
        | (c, none) => RecorderConfig.parseArguments files c rest) ∧
      ∀ c : ReplayConfig,
        ReplayConfig.parseArguments files c ("-c" :: file :: rest) =
          match ReplayConfig.loadFile files c file with
          | (c, some f) => (c, some f)
          | (c, none) => ReplayConfig.parseArguments files c rest := by
  have hnext : mention "-c" = .next := if_pos (.inl rfl)
  have hnonempty : file.isEmpty = false := by simpa using hfile
  have hempty : "".isEmpty = true := rfl
  refine ⟨?_, ?_⟩
  · intro c
    rcases hload : RecorderConfig.loadFile files c file with ⟨c', _ | fault⟩
    · simp only [RecorderConfig.parseArguments, configFile_of_next hnext, hnonempty, hload, hrest,
        hempty, RecorderConfig.parseOptions_of_next hnext, if_true, Bool.false_eq_true, if_false]
    · simp only [RecorderConfig.parseArguments, configFile_of_next hnext, hnonempty, hload,
        Bool.false_eq_true, if_false]
  · intro c
    rcases hload : ReplayConfig.loadFile files c file with ⟨c', _ | fault⟩
    · simp only [ReplayConfig.parseArguments, configFile_of_next hnext, hnonempty, hload, hrest,
        hempty, ReplayConfig.parseOptions_of_next hnext, if_true, Bool.false_eq_true, if_false]
    · simp only [ReplayConfig.parseArguments, configFile_of_next hnext, hnonempty, hload,
        Bool.false_eq_true, if_false]

/-- A file with settings for both programs. -/
def sharedFile : FileTexts := fun path =>
  if path = "f.json" then
    some "\x7b\"output\": \"a.glos\", \"input\": \"a.glos\", \"stats-interval\": 7\x7d"
  else none

set_option maxRecDepth 4000 in
/-- The name of the tape is taken from the command line, and the rest from the file. -/
theorem the_command_line_overrides_sharedFile :
    let recorder := RecorderConfig.parseArguments sharedFile .initial
      ["-c", "f.json", "-o", "b.glos"]
    let replayer := ReplayConfig.parseArguments sharedFile .initial ["-c", "f.json", "b.glos", "-l"]
    (configFile ["-o", "b.glos"] = "" ∧ recorder.2 = none ∧ recorder.1.output = "b.glos" ∧
      recorder.1.interval = 7) ∧
      configFile ["b.glos", "-l"] = "" ∧ replayer.2 = none ∧ replayer.1.input = "b.glos" ∧
      replayer.1.interval = 7 ∧ replayer.1.loop = true := by
  intro recorder replayer
  have hfile : "f.json" ≠ "" := by decide
  have hoption : configFile ["-o", "b.glos"] = "" := by decide +kernel
  have hoperand : configFile ["b.glos", "-l"] = "" := by decide +kernel
  refine ⟨⟨hoption, ?_⟩, hoperand, ?_⟩
  · simp only [recorder, (the_command_line_overrides sharedFile hfile hoption).1]
    decide +kernel
  · simp only [replayer, (the_command_line_overrides sharedFile hfile hoperand).2]
    decide +kernel

end IqTape
