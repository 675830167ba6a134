import IqTape.Capture.Recording
import IqTape.Capture.Tone

/-!
# The recorder

The recorder takes its settings from the command line, makes a device, records it
and prints a summary.

## Main definitions

* `RecorderTool.prepare` — the settings and the device, or the end of the tool.
* `RecorderTool.banner` — what is printed before recording.
* `RecorderTool.launch` — a recording that is ready for the device.
* `RecorderTool.conclude` — the end of the tool after recording.
-/

namespace IqTape

namespace RecorderTool

/-- The settings and the device that a command line asks for; or the end of the
tool, if there is nothing to record. -/
def prepare [JsonLibrary] (program : String) (files : FileTexts) (arguments : List String) :
    Except ToolResult (RecorderConfig × ToneDevice) :=
  match RecorderConfig.parseArguments files .initial arguments with
  | (_, some (.notCaught _)) => .error .aborted
  | (_, some f) => .error (.failure ⟨RecorderConfig.usage program, f.notice⟩)
  | (c, none) =>
    if c.help then .error (.success (RecorderConfig.usage program))
    else if c.version then .error (.success RecorderConfig.versionText)
    else
      match ToneDevice.ofConfig c with
      | .error f => .error (.failure (.complain f.notice))
      | .ok d => .ok (c, d)

/-- A frequency in millions of hertz. -/
def inMegahertz (hertz : Nat) : String := Layout.plain.write ((Binary64.ofNat hertz).div million)

/-- What is printed before recording. -/
def banner (c : RecorderConfig) (device : DeviceInfo) : Console :=
  if c.quiet then .silent
  else .report <| IqTape.banner RecorderConfig.toolName toolsVersion [
    "Device:         ", device.name, "\n",
    "Center freq:    ", inMegahertz c.frequency.toNat, " MHz\n",
    "Sample rate:    ", inMegahertz c.rate.toNat, " Msps\n",
    "Gain:           ", Layout.plain.writeSingle c.gain, " dB\n",
    "Format:         ", c.format.name, "\n",
    "Compression:    ", c.form.name, "\n",
    "Block samples:  ", decimal c.blockSamples.toNat, "\n",
    "Output:         ", c.output, "\n",
    "Duration:       ",
    if 0 < c.duration then decimal c.duration.toNat ++ " s\n" else "until Ctrl+C\n"]

/-- A recording that is ready for the device, or over if there is no tape; and what
has been printed. -/
def launch (now : Moment) (file : Option Sink) (c : RecorderConfig) (device : DeviceInfo) :
    Recording × Console :=
  let (r, said) := ((Recording.idle c now.steady).begin device file).settle now
  (r, banner c device ++ .join (said.map (·.console)))

/-- The end of the tool after recording. -/
def conclude (now : Int) (r : Recording) : ToolResult :=
  let c := r.counters
  let summary :=
    if r.config.quiet then ""
    else "\nRecording summary:\n" ++ (c.summary (c.elapsed now)).text
  if !r.succeeded then .failure (.report summary)
  else if 0 < c.writeErrors then
    .failure ⟨summary, "Error: " ++ decimal c.writeErrors.toNat ++ " blocks failed to write\n"⟩
  else ⟨.report summary, if r.deviceFailed then 1 else 0⟩

end RecorderTool

end IqTape
