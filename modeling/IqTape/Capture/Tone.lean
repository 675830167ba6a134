import IqTape.Capture.Device
import IqTape.Number.Rate

/-!
# The simulated device

The simulated device delivers a complex tone: the in-phase part is the sine and
the quadrature part the cosine of the phase, at full scale of the sample format.
Chunks are dated from the start of the run by their first sample.  The device
keeps to the pace of its sample rate unless it is told not to.

## Main definitions

* `ToneDevice` — the settings of the device.
* `ToneDevice.ofConfig` — the device that a configuration asks for.
* `ToneDevice.chunkAt` — the chunk that starts at some sample.
* `ToneRun`, `ToneRun.step` — a run, step by step.
-/

namespace IqTape

/-- The settings of the simulated device. -/
structure ToneDevice where
  /-- Samples per second. -/
  rate : UInt32
  /-- Centre frequency in hertz. -/
  frequency : UInt64
  /-- Gain in decibels. -/
  gain : Binary32
  format : SampleFormat
  chunkSamples : UInt32
  /-- The frequency of the tone in hertz. -/
  tone : Binary64
  /-- Whether the device keeps to its sample rate. -/
  paced : Bool
  /-- How many chunks a run delivers; zero is no limit. -/
  maxChunks : Nat
  deriving DecidableEq, Repr, Inhabited

namespace ToneDevice

/-- The device that a configuration asks for, with a tone of a kilohertz. -/
def ofConfig (c : RecorderConfig) : Except DeviceFault ToneDevice :=
  if c.device = .simulated then
    .ok ⟨c.rate, c.frequency, c.gain, c.format, 4096, .ofNat 1000, true, 0⟩
  else if c.device.isListed then .error (.notSupported c.device)
  else .error .unlisted

/-- What the device says of itself. -/
def info (d : ToneDevice) : DeviceInfo :=
  ⟨"Simulated SDR", "SIM-0001", d.rate, d.frequency, d.gain, d.format⟩

/-! ### Samples -/

/-- A full turn in radians. -/
def turn : Binary64 := ⟨0x401921FB54442D18⟩

/-- A wave at a phase; there is none at a phase that is not finite. -/
def wave (f : Float → Float) (phase : Binary64) : Binary64 :=
  match phase.datum with
  | .finite _ _ _ => ⟨(f (Float.ofBits phase.bits)).toBits⟩
  | .infinite _ => .invalid
  | .nan s p => .propagate s p

/-- The phase of a sample. -/
def phase (d : ToneDevice) (index : UInt64) : Binary64 :=
  (turn.mul d.tone).mul ((Binary64.ofNat index.toNat).div (.ofNat d.rate.toNat))

/-- A number from minus one to one as a word of some bytes, scaled and cut off. -/
def wholeWord (bytes scale : Nat) (x : Binary64) : Bytes :=
  let n := ((Binary64.ofNat scale).mul x).toInt64
  ByteOrder.big.encode bytes (n % 2 ^ (8 * bytes)).toNat

/-- One part of a sample in some format. -/
def partBytes (f : SampleFormat) (x : Binary64) : Bytes :=
  if f = .int8 then wholeWord 1 127 x
  else if f = .int16 then wholeWord 2 32767 x
  else if f = .float32 then ByteOrder.big.encode 4 x.narrow.bits.toNat
  else []

def sample (d : ToneDevice) (index : UInt64) : Bytes :=
  let phase := d.phase index
  partBytes d.format (wave Float.sin phase) ++ partBytes d.format (wave Float.cos phase)

/-- The samples of the chunk that starts at some sample. -/
def samplesFrom (d : ToneDevice) (first : UInt64) : Bytes :=
  if d.format.isListed then
    (List.range d.chunkSamples.toNat).flatMap fun i => d.sample (first + i.toUInt64)
  else []

/-- How long so many samples take, in nanoseconds. -/
def time (d : ToneDevice) (samples : UInt64) : Binary64 :=
  let period := (Binary64.ofNat nanosPerSecond).div (.ofNat d.rate.toNat)
  (Binary64.ofNat samples.toNat).mul period

/-- The chunk that starts at some sample of a run that began at some time. -/
def chunkAt (d : ToneDevice) (began first : UInt64) : Chunk :=
  ⟨began + (d.time first).toWord, d.chunkSamples, d.samplesFrom first⟩

end ToneDevice

/-! ### A run -/

/-- What a run does next. -/
inductive TonePhase
  /-- It looks at the stop flag and makes a chunk. -/
  | producing
  | pacing
  | ended
  deriving DecidableEq, Repr, Inhabited

/-- A run of the simulated device. -/
structure ToneRun where
  phase : TonePhase
  /-- When it began. -/
  began : Moment
  /-- How many samples have been made. -/
  samples : UInt64
  /-- How many chunks have been made. -/
  chunks : Nat
  deriving DecidableEq, Repr, Inhabited

/-- What a step of a run asks for. -/
inductive ToneAction
  | nothing
  | offer (c : Chunk)
  /-- To sleep so many nanoseconds. -/
  | sleep (nanos : Int)
  deriving DecidableEq, Repr

namespace ToneRun

/-- Begin a run, unless its chunks would be empty. -/
def begin (d : ToneDevice) (now : Moment) : Except DeviceFault ToneRun :=
  if d.rate = 0 ∨ d.chunkSamples = 0 then .error .emptyChunks
  else .ok ⟨.producing, now, 0, 0⟩

/-- Whether as many chunks have been made as were asked for. -/
def isComplete (d : ToneDevice) (r : ToneRun) : Bool :=
  d.maxChunks != 0 && decide (d.maxChunks ≤ r.chunks)

/-- One step of a run.  A sleep lasts until the samples made so far would have
been taken. -/
def step (d : ToneDevice) (stopping : Bool) (now : Int) (r : ToneRun) : ToneRun × ToneAction :=
  match r.phase with
  | .producing =>
    if stopping || r.isComplete d then ({ r with phase := .ended }, .nothing)
    else
      ({ r with
          phase := if d.paced then .pacing else .producing
          samples := r.samples + d.chunkSamples.toUInt64
          chunks := r.chunks + 1 },
        .offer (d.chunkAt r.began.nano r.samples))
  | .pacing =>
    let lead := (d.time r.samples).toInt64 - (now - r.began.steady)
    ({ r with phase := .producing }, if 0 < lead then .sleep lead else .nothing)
  | .ended => (r, .nothing)

end ToneRun

end IqTape
