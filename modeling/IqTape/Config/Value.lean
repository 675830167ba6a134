import IqTape.Number.Numeral
import IqTape.Tape.Registry

/-!
# Values that users write

Frequencies and the names of devices, sample formats and payload forms are read
without regard to case and to blanks around them.

A frequency is a whole number of hertz, or a real number with a unit, which is
rounded to the nearest hertz, a half going up.

## Main definitions

* `DeviceKind` — the devices that a recorder can be told to use.
* `readFrequency?` — a frequency in hertz.
* `DeviceKind.read?`, `SampleFormat.read?`, `PayloadForm.read?` — names.
-/

namespace IqTape

/-- A device that a recorder can be told to use, by its number. -/
structure DeviceKind where
  /-- Its number; only three of them mean something. -/
  code : Int
  deriving DecidableEq, Repr, Inhabited

namespace DeviceKind

def simulated : DeviceKind := ⟨0⟩

def hackRf : DeviceKind := ⟨1⟩

def pluto : DeviceKind := ⟨2⟩

/-- The name of a device. -/
def name (d : DeviceKind) : String :=
  if d = simulated then "sim"
  else if d = hackRf then "hackrf"
  else if d = pluto then "pluto"
  else "?"

/-- Whether a device is one of the three. -/
def isListed (d : DeviceKind) : Bool := d = simulated || d = hackRf || d = pluto

/-- The radio that a tape recorded with the device names. -/
def radio (d : DeviceKind) : RadioModel :=
  if d = hackRf then .hackRf else if d = pluto then .pluto else .unknown

end DeviceKind

/-- A text as it is compared with names. -/
def folded (text : String) : String := String.ofList (lower (trim text.toList))

/-- The device with a given name. -/
def DeviceKind.read? (text : String) : Option DeviceKind :=
  let s := folded text
  if s ∈ ["sim", "simulated"] then some .simulated
  else if s ∈ ["hackrf", "hackrf_one"] then some .hackRf
  else if s ∈ ["pluto", "plutosdr", "adalm-pluto"] then some .pluto
  else none

/-- The sample format with a given name. -/
def SampleFormat.read? (text : String) : Option SampleFormat :=
  let s := folded text
  if s ∈ ["int8", "i8"] then some .int8
  else if s ∈ ["int16", "i16"] then some .int16
  else if s ∈ ["float32", "f32"] then some .float32
  else none

/-- The payload form with a given name. -/
def PayloadForm.read? (text : String) : Option PayloadForm :=
  let s := folded text
  if s ∈ ["none", "no", "off"] then some .raw
  else if s ∈ ["lz4"] then some .lz4
  else none

/-! ### Frequencies -/

/-- The units of a frequency, the longer names first, with the hertz in each. -/
def frequencyUnits : List (List Char × Nat) :=
  [(['g', 'h', 'z'], 1000000000), (['m', 'h', 'z'], 1000000), (['k', 'h', 'z'], 1000),
    (['h', 'z'], 1)]

/-- The text in front of the first of some endings that it has. -/
def splitUnit? (s : List Char) : List (List Char × Nat) → Option (List Char × Nat)
  | [] => none
  | (ending, hertz) :: rest =>
    if ending.isSuffixOf s then some (s.take (s.length - ending.length), hertz)
    else splitUnit? s rest

/-- A real number of some unit in whole hertz: not negative, and at most `2 ^ 64`,
which as a word is zero. -/
def wholeHertz? (x : Binary64) (hertz : Nat) : Option UInt64 :=
  if x.lt .zero then none
  else
    match (x.mul (.ofNat hertz)).datum with
    | .finite _ m q =>
      let n := Binary64.nearestWhole m q
      if 2 ^ 64 < n then none else some n.toUInt64
    | _ => none

/-- A frequency in hertz. -/
def readFrequency? (text : String) : Option UInt64 :=
  let s := lower (trim text.toList)
  match splitUnit? s frequencyUnits with
  | none => readNat? s
  | some (number, hertz) => (readReal? number).bind fun x => wholeHertz? x hertz

end IqTape
