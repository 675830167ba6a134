import IqTape.Proofs.Config.Target
import IqTape.Proofs.Number.Exact

/-!
# Settings that are written and loaded again

The settings of a program are written as a value whose members have the names under which they are
loaded.  Every member is there and is of the kind that is wanted, and what is written is read as
what it was: the name of a device, a format or a payload form, a word, a number in single precision
that is written in double precision, a target in its kept form.  So whoever loads the value has the
settings that were written, whatever was set before.

## Main definitions

* `ConfigStep.Makes` — a step that is sure to be taken.

## Main results

* `ConfigStep.run_of_forall₂` — steps that cannot fail are taken to the end.
* `RecorderConfig.loadJson_toJson`, `ReplayConfig.loadJson_toJson` — the settings of each program.
* `exported_settings_load_back` — **what one program writes, another loads**.
-/

namespace IqTape

/-! ### Steps that are sure to be taken -/

section

variable {α β : Type} {key : String} {j v : Json} {b : β} {set : β → α → α}

/-- A step that, with a value, is sure to make a change. -/
def ConfigStep.Makes (j : Json) (step : ConfigStep α) (change : α → α) : Prop :=
  ∀ c, step j c = .ok (change c)

theorem member_of_field {wanted : Json.Kind} {read : Json → Option β}
    (hfield : j.field? key = some v) (hread : read v = some b) :
    (member key wanted read set).Makes j (set b) := by
  intro c
  simp only [member, hfield, hread]

theorem namedMember_of_field {setting : Setting} {read : String → Option β} {text : String}
    (hfield : j.field? key = some (.string text)) (hread : read text = some b) :
    (namedMember key setting read set).Makes j (set b) := by
  intro c
  simp only [namedMember, hfield, Json.asText?, hread]

theorem hertzMember_of_field {setting : Setting} {limit : ℕ} {hertz : UInt64}
    {set : UInt64 → α → α} (hfield : j.field? key = some v) (hread : v.asHertz? = some hertz)
    (hlimit : hertz.toNat < limit) : (hertzMember key setting limit set).Makes j (set hertz) := by
  intro c
  simp only [hertzMember, hfield, hread, if_pos hlimit]

/-- **Steps that cannot fail are taken to the end.** -/
theorem ConfigStep.run_of_forall₂ {steps : List (ConfigStep α)} {changes : List (α → α)}
    (h : List.Forall₂ (Makes j) steps changes) (c : α) :
    run steps j c = (changes.foldl (fun c change => change c) c, none) := by
  induction h generalizing c with
  | nil => rfl
  | cons hstep _ ih =>
    rw [run, hstep]
    exact ih _

end

/-! ### Values that are read as what they were -/

/-- A device is read from its name. -/
theorem DeviceKind.read?_name {d : DeviceKind} (h : d.isListed = true) :
    read? d.name = some d := by
  simp only [isListed, Bool.or_eq_true, decide_eq_true_eq] at h
  rcases h with (rfl | rfl) | rfl <;> rfl

/-- A sample format is read from its name. -/
theorem SampleFormat.read?_name {f : SampleFormat} (h : f.isListed = true) :
    read? f.name = some f := by
  simp only [isListed, Bool.or_eq_true, decide_eq_true_eq] at h
  rcases h with (rfl | rfl) | rfl <;> rfl

/-- A payload form is read from its name. -/
theorem PayloadForm.read?_name {f : PayloadForm} (h : f.isListed = true) :
    read? f.name = some f := by
  simp only [isListed, Bool.or_eq_true, decide_eq_true_eq] at h
  rcases h with rfl | rfl <;> rfl

namespace Json

theorem asWord?_word (n : UInt64) : (nat n.toNat).asWord? = some n := by
  have hlt := n.toNat_lt
  have hmod : ((n.toNat : ℤ) % 2 ^ 64).toNat = n.toNat := by omega
  rw [nat, asWord?, UInt64.ofInt, hmod, UInt64.ofNat_toNat]

theorem asWord32?_word (n : UInt32) : (nat n.toNat).asWord32? = some n := by
  have hlt := n.toNat_lt
  have hmod : ((n.toNat : ℤ) % 2 ^ 32).toNat = n.toNat := by omega
  rw [nat, asWord32?, UInt32.ofInt, hmod, UInt32.ofNat_toNat]

theorem asHertz?_word (n : UInt64) : (nat n.toNat).asHertz? = some n := by
  have hnonneg : ¬(n.toNat : ℤ) < 0 := by omega
  simp only [asHertz?, nat, if_neg hnonneg, Int.toNat_natCast]
  exact congrArg some UInt64.ofNat_toNat

theorem asInt32?_integer {n : ℤ} (hlow : -2 ^ 31 ≤ n) (hhigh : n < 2 ^ 31) :
    (integer n).asInt32? = some n := by
  have hword : n.bmod (2 ^ 32) = n := Int.bmod_eq_of_le (by omega) (by omega)
  rw [asInt32?, hword]

/-- A number in single precision is read from its value in double precision, unless it is a NaN. -/
theorem asSingle?_widen {x : Binary32} (h : ∀ negative fraction, x.datum ≠ .nan negative fraction) :
    (real x.widen).asSingle? = some x := by
  rw [asSingle?, Binary32.narrow_widen h]

end Json

/-! ### The settings of each program -/

/-- **The settings of a recorder are loaded as they were written**, and nothing else is changed. -/
theorem RecorderConfig.loadJson_toJson {c : RecorderConfig} (hdevice : c.device.isListed = true)
    (hformat : c.format.isListed = true) (hform : c.form.isListed = true)
    (hgain : ∀ negative fraction, c.gain.datum ≠ .nan negative fraction) (d : RecorderConfig) :
    d.loadJson c.toJson = ({ c with file := d.file, help := d.help, version := d.version }, none) := by
  have hrate : c.rate.toUInt64.toUInt32 = c.rate := UInt32.toUInt32_toUInt64 c.rate
  have hsteps : List.Forall₂ (ConfigStep.Makes c.toJson) members _ :=
    .cons (namedMember_of_field rfl (DeviceKind.read?_name hdevice)) <|
      .cons (hertzMember_of_field rfl (Json.asHertz?_word c.frequency) c.frequency.toNat_lt) <|
      .cons (hertzMember_of_field rfl (Json.asHertz?_word c.rate.toUInt64) c.rate.toNat_lt) <|
      .cons (member_of_field rfl (Json.asSingle?_widen hgain)) <|
      .cons (member_of_field rfl rfl) <|
      .cons (member_of_field rfl (Json.asWord?_word c.duration)) <|
      .cons (namedMember_of_field rfl (SampleFormat.read?_name hformat)) <|
      .cons (namedMember_of_field rfl (PayloadForm.read?_name hform)) <|
      .cons (member_of_field rfl (Json.asWord32?_word c.blockSamples)) <|
      .cons (member_of_field rfl (Json.asWord?_word c.capacity)) <|
      .cons (member_of_field rfl (Json.asWord?_word c.interval)) <|
      .cons (member_of_field rfl rfl) <|
      .cons (member_of_field rfl rfl) .nil
  rw [loadJson, ConfigStep.run_of_forall₂ hsteps]
  -- The rate is read as a longer word and cut to its own.
  simp only [List.foldl_cons, List.foldl_nil, hrate]

/-- **The settings of a replayer are loaded as they were written**, and nothing else is changed. -/
theorem ReplayConfig.loadJson_toJson {c : ReplayConfig} {text : String}
    (htarget : normalTarget? text = some c.target) (hlow : -2 ^ 31 ≤ c.controlPort)
    (hhigh : c.controlPort < 2 ^ 31) (d : ReplayConfig) :
    d.loadJson c.toJson = ({ c with file := d.file, help := d.help, version := d.version }, none) := by
  have hsteps : List.Forall₂ (ConfigStep.Makes c.toJson) members _ :=
    .cons (member_of_field rfl rfl) <|
      .cons (namedMember_of_field rfl (normalTarget?_of_kept htarget)) <|
      .cons (member_of_field rfl rfl) <|
      .cons (member_of_field rfl rfl) <|
      .cons (member_of_field rfl rfl) <|
      .cons (member_of_field rfl (Json.asWord?_word c.interval)) <|
      .cons (member_of_field rfl (Json.asInt32?_integer hlow hhigh)) <|
      .cons (member_of_field rfl rfl) <|
      .cons (member_of_field rfl rfl) .nil
  rw [loadJson, ConfigStep.run_of_forall₂ hsteps]
  rfl

/-- **What one program writes, another loads.**  Settings that are written as a value are loaded
from it without a fault, and the settings are then those that were written, but for the file that
was read and the questions that were asked, which are as they were before.  The device, the format
and the payload form of a recorder must have names and its gain be a number; the target of a
replayer must be in its kept form, and its port is a signed word of 32 bits. -/
theorem exported_settings_load_back :
    (∀ c d : RecorderConfig, c.device.isListed = true → c.format.isListed = true →
      c.form.isListed = true → (∀ negative fraction, c.gain.datum ≠ .nan negative fraction) →
        d.loadJson c.toJson =
          ({ c with file := d.file, help := d.help, version := d.version }, none)) ∧
      ∀ c d : ReplayConfig, (∃ text, normalTarget? text = some c.target) →
        -2 ^ 31 ≤ c.controlPort → c.controlPort < 2 ^ 31 →
          d.loadJson c.toJson =
            ({ c with file := d.file, help := d.help, version := d.version }, none) := by
  refine ⟨fun c d hdevice hformat hform hgain => ?_, fun c d hkept hlow hhigh => ?_⟩
  · exact RecorderConfig.loadJson_toJson hdevice hformat hform hgain d
  · obtain ⟨text, htarget⟩ := hkept
    exact ReplayConfig.loadJson_toJson htarget hlow hhigh d

/-- Settings of a recorder: its gain is the largest that is negative. -/
def faintRecorder : RecorderConfig :=
  { RecorderConfig.initial with
    device := .pluto, rate := 4294967295, gain := ⟨0x80000001⟩, form := .lz4, file := "a.json" }

/-- Settings of a replayer: its port is the least word. -/
def oddReplayer : ReplayConfig :=
  { ReplayConfig.initial with target := "127.0.0.1:80", controlPort := -2 ^ 31, help := true }

/-- They are loaded into settings that are different. -/
theorem exported_settings_load_back_of_faintRecorder :
    ({ RecorderConfig.initial with file := "b.json", quiet := true }).loadJson faintRecorder.toJson =
        ({ faintRecorder with file := "b.json" }, none) ∧
      ({ ReplayConfig.initial with speed := .zero, version := true }).loadJson oddReplayer.toJson =
        ({ oddReplayer with help := false, version := true }, none) := by
  have hdatum : faintRecorder.gain.datum = .finite true 1 (-149) := by decide
  have hgain : ∀ negative fraction, faintRecorder.gain.datum ≠ .nan negative fraction := by
    rw [hdatum]
    exact nofun
  have hkept : normalTarget? " udp://127.0.0.1: 0080 " = some oddReplayer.target := rfl
  exact ⟨exported_settings_load_back.1 faintRecorder _ (by decide) (by decide) (by decide) hgain,
    exported_settings_load_back.2 oddReplayer _ ⟨_, hkept⟩ (by decide) (by decide)⟩

end IqTape
