import IqTape.Capture.Queue
import IqTape.Config.Recorder

/-!
# Devices

A device delivers chunks of samples until it is asked to stop or has no more.
Here is what is known of a device before it runs, and what can keep one from
running.

## Main definitions

* `DeviceInfo` — what a device says of itself.
* `DeviceFault`, `DeviceFault.notice` — why there is no device, or why it does not
  run.
-/

namespace IqTape

/-- What a device says of itself. -/
structure DeviceInfo where
  name : String
  serial : String
  /-- Samples per second. -/
  rate : UInt32
  /-- Centre frequency in hertz. -/
  frequency : UInt64
  /-- Gain in decibels. -/
  gain : Binary32
  format : SampleFormat
  deriving DecidableEq, Repr, Inhabited

/-- Why there is no device, or why it does not run. -/
inductive DeviceFault
  /-- There is no support for the device. -/
  | notSupported (d : DeviceKind)
  /-- The number of the device means nothing. -/
  | unlisted
  /-- A rate or a chunk size is zero. -/
  | emptyChunks
  deriving DecidableEq, Repr

/-- What is said about a device that is not there or does not run. -/
def DeviceFault.notice : DeviceFault → String
  | notSupported d =>
    "Error: " ++ d.radio.name ++ " device not found (not supported in this build)\n"
  | unlisted => ""
  | emptyChunks => "Error: Simulated device needs a non-zero sample rate and chunk size\n"

end IqTape
