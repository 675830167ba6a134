import IqTape.Bytes.Checksum
import IqTape.Json.Value
import IqTape.Tape.Fault
import IqTape.Tape.Registry

/-!
# The header of a tape

A tape starts with 128 bytes about the session.  The first 72 are covered by a
checksum, which is always stored with its most significant byte first; the
numbers in front of it are stored in the order that the flags name.

| place | bytes | content |
|---|---|---|
| 0 | 4 | the mark |
| 4 | 1 | version |
| 5 | 1 | flags, of which the lowest names the byte order |
| 6 | 6 | zeros |
| 12 | 3 | radio, sample format, payload form |
| 15 | 1 | zero |
| 16 | 4 | samples per second |
| 20 | 8 | centre frequency |
| 28 | 4 | gain |
| 32 | 24 | start, end, total |
| 56 | 16 | zeros |
| 72 | 4 | checksum |
| 76 | 52 | zeros |

## Main definitions

* `Header` — what the header says.
* `Header.encode`, `Header.decode` — to bytes and back.
-/

namespace IqTape

/-- What is known about a recording session. -/
structure Header where
  version : UInt8
  /-- Flags; the lowest says that numbers are stored least significant byte first. -/
  flags : UInt8
  radio : RadioModel
  format : SampleFormat
  form : PayloadForm
  /-- Samples per second. -/
  rate : UInt32
  /-- Centre frequency in hertz. -/
  frequency : UInt64
  /-- Gain in decibels. -/
  gain : Binary32
  /-- When the session started, in seconds since the epoch. -/
  start : UInt64
  /-- When the session ended; zero while it is open. -/
  finish : UInt64
  /-- How many samples were recorded; zero while the session is open. -/
  total : UInt64
  deriving DecidableEq, Repr

namespace Header

/-- The header of a session about which nothing is known. -/
def blank : Header where
  version := 1
  flags := 0
  radio := .unknown
  format := .int16
  form := .raw
  rate := 0
  frequency := 0
  gain := ⟨0⟩
  start := 0
  finish := 0
  total := 0

instance : Inhabited Header := ⟨blank⟩

/-- The header of a session that starts at a given second. -/
def opened (radio : RadioModel) (rate : UInt32) (frequency : UInt64) (second : UInt64) : Header :=
  { blank with radio := radio, rate := rate, frequency := frequency, start := second }

/-- The byte order of the numbers. -/
def byteOrder (flags : UInt8) : ByteOrder := if flags &&& 1 = 1 then .little else .big

/-- Whether numbers are stored least significant byte first. -/
def isLittleEndian (h : Header) : Bool := byteOrder h.flags = .little

/-- Whether the session was closed properly. -/
def isFinalized (h : Header) : Bool := h.finish != 0

/-! ### Layout -/

/-- The size of a header. -/
def size : Nat := 128

/-- How many bytes the checksum covers; it follows them. -/
def covered : Nat := 72

/-- The only version there is. -/
def knownVersion : UInt8 := 1

/-- The bytes that every tape starts with. -/
def mark : Bytes := [0x47, 0x4C, 0x4F, 0x53]

/-- The bytes in front of the checksum. -/
def fields (h : Header) : Bytes :=
  let order := byteOrder h.flags
  mark ++ [h.version, h.flags] ++ List.replicate 6 0 ++
    [h.radio.code, h.format.code, h.form.code, 0] ++
    order.encode 4 h.rate.toNat ++ order.encode 8 h.frequency.toNat ++
    order.encode 4 h.gain.bits.toNat ++ order.encode 8 h.start.toNat ++
    order.encode 8 h.finish.toNat ++ order.encode 8 h.total.toNat ++ List.replicate 16 0

/-- The bytes of a header. -/
def encode (h : Header) : Bytes :=
  let fields := h.fields
  fields ++ ByteOrder.big.encode 4 (crc32 fields).toNat ++ List.replicate 52 0

@[simp] theorem length_fields (h : Header) : h.fields.length = covered := by
  simp [fields, mark, covered]

@[simp] theorem length_encode (h : Header) : h.encode.length = size := by
  simp [encode, covered, size]

/-- The number in a field. -/
def number (order : ByteOrder) (bs : Bytes) (place width : Nat) : Nat :=
  order.decode (bs.slice place width)

/-- The byte at a place. -/
def byteAt (bs : Bytes) (place : Nat) : UInt8 := bs.getD place 0

/-- The header at the front of a string of bytes.  Faults are found in this order:
too few bytes, the mark, the version, the checksum, unlisted numbers. -/
def decode (bs : Bytes) : Except Fault Header :=
  if !bs.covers size then .error .incomplete
  else if bs.take 4 ≠ mark then .error .invalidMagic
  else if byteAt bs 4 ≠ knownVersion then .error .unsupportedVersion
  else if number .big bs covered 4 ≠ (crc32First covered bs).toNat then .error .checksumMismatch
  else
    match SampleFormat.ofByte? (byteAt bs 13), PayloadForm.ofByte? (byteAt bs 14) with
    | some format, some form =>
      let order := byteOrder (byteAt bs 5)
      .ok {
        version := byteAt bs 4
        flags := byteAt bs 5
        radio := .ofByte (byteAt bs 12)
        format := format
        form := form
        rate := (number order bs 16 4).toUInt32
        frequency := (number order bs 20 8).toUInt64
        gain := ⟨(number order bs 28 4).toUInt32⟩
        start := (number order bs 32 8).toUInt64
        finish := (number order bs 40 8).toUInt64
        total := (number order bs 48 8).toUInt64 }
    | _, _ => .error .formatViolation

/-- The header as a report. -/
def toJson (h : Header) : Json :=
  .object [
    ("version", .nat h.version.toNat),
    ("little_endian", .bool h.isLittleEndian),
    ("device", .string h.radio.name),
    ("sample_format", .string h.format.name),
    ("compression", .string h.form.name),
    ("sample_rate_hz", .nat h.rate.toNat),
    ("center_freq_hz", .nat h.frequency.toNat),
    ("gain_db", .real h.gain.widen),
    ("timestamp_start", .nat h.start.toNat),
    ("timestamp_end", .nat h.finish.toNat),
    ("total_samples", .nat h.total.toNat),
    ("finalized", .bool h.isFinalized)]

end Header

end IqTape
