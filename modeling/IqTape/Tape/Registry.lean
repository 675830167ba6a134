/-!
# Numbers of devices, sample formats and payload forms

A header names the radio, the sample format and the form of the payloads by one
byte each.  The byte is kept as it is, since a header with an unlisted number can
still be written and compared; the listed numbers have names.

## Main definitions

* `RadioModel`, `SampleFormat`, `PayloadForm` — the three kinds of number.
* `RadioModel.name`, `SampleFormat.name`, `PayloadForm.name` — their names.
* `SampleFormat.bytesPerSample` — the size of one I/Q pair.
* `SampleFormat.ofByte?`, `PayloadForm.ofByte?`, `RadioModel.ofByte` — reading a
  byte; only a radio may be unlisted.
-/

namespace IqTape

/-- The radio that made a recording. -/
structure RadioModel where
  code : UInt8
  deriving DecidableEq, Repr, Inhabited

/-- How samples are stored. -/
structure SampleFormat where
  code : UInt8
  deriving DecidableEq, Repr, Inhabited

/-- How payloads are stored. -/
structure PayloadForm where
  code : UInt8
  deriving DecidableEq, Repr, Inhabited

namespace RadioModel

def hackRf : RadioModel := ⟨0⟩

def pluto : RadioModel := ⟨1⟩

/-- The USRP B200. -/
def b200 : RadioModel := ⟨2⟩

/-- A radio that is not known. -/
def unknown : RadioModel := ⟨255⟩

/-- The name of a radio. -/
def name (r : RadioModel) : String :=
  if r = hackRf then "HackRF"
  else if r = pluto then "PlutoSDR"
  else if r = b200 then "USRP B200"
  else "Unknown"

/-- Whether a radio has a number of its own. -/
def isListed (r : RadioModel) : Bool :=
  r = hackRf || r = pluto || r = b200 || r = unknown

/-- The radio with a given number; an unlisted number is an unknown radio. -/
def ofByte (b : UInt8) : RadioModel := if isListed ⟨b⟩ then ⟨b⟩ else unknown

end RadioModel

namespace SampleFormat

/-- Pairs of signed bytes. -/
def int8 : SampleFormat := ⟨0⟩

/-- Pairs of signed 16-bit words. -/
def int16 : SampleFormat := ⟨1⟩

/-- Pairs of single-precision numbers. -/
def float32 : SampleFormat := ⟨2⟩

/-- The name of a format. -/
def name (f : SampleFormat) : String :=
  if f = int8 then "int8"
  else if f = int16 then "int16"
  else if f = float32 then "float32"
  else "?"

/-- The size of one I/Q pair; an unlisted format has none. -/
def bytesPerSample (f : SampleFormat) : Nat :=
  if f = int8 then 2
  else if f = int16 then 4
  else if f = float32 then 8
  else 0

/-- Whether a format is one of the three. -/
def isListed (f : SampleFormat) : Bool := f = int8 || f = int16 || f = float32

/-- The format with a given number. -/
def ofByte? (b : UInt8) : Option SampleFormat := if isListed ⟨b⟩ then some ⟨b⟩ else none

end SampleFormat

namespace PayloadForm

/-- Samples as they are. -/
def raw : PayloadForm := ⟨0⟩

/-- Samples packed with LZ4. -/
def lz4 : PayloadForm := ⟨1⟩

/-- The name of a form. -/
def name (c : PayloadForm) : String :=
  if c = raw then "none"
  else if c = lz4 then "lz4"
  else "?"

/-- Whether a form is one of the two. -/
def isListed (c : PayloadForm) : Bool := c = raw || c = lz4

/-- The form with a given number. -/
def ofByte? (b : UInt8) : Option PayloadForm := if isListed ⟨b⟩ then some ⟨b⟩ else none

/-- Whether payloads of this form are packed. -/
def packs (c : PayloadForm) : Bool := c = lz4

end PayloadForm

end IqTape
