import IqTape.Bytes.Word

/-!
# Sinks

What a tape is written to: a string of bytes with a position, which may take
bytes only below some offset, may refuse to move, and may hold bytes back before
it passes them on.  Once an operation has failed, everything after it fails and
nothing more is taken.

## Main definitions

* `Sink` — the bytes and the state of a sink.
* `Sink.empty`, `Sink.full` — a file, and a device without room.
* `Sink.put`, `Sink.flush`, `Sink.rewind`, `Sink.forward` — its operations.

## Main results

* `Sink.content_place` — where written bytes go.
-/

namespace IqTape

/-- Something that bytes are written to. -/
structure Sink where
  /-- The bytes so far, the last one first, so that appending is cheap. -/
  backwards : Bytes
  size : Nat
  /-- Where the next byte goes, at most `size`. -/
  position : Nat
  /-- Only offsets below this take a byte. -/
  limit : Option Nat
  /-- Whether the position can be moved. -/
  seekable : Bool
  /-- How many bytes can be held back; a write that would fill the room, or is
  large, passes everything on. -/
  room : Nat
  /-- The bytes held back. -/
  held : Bytes
  /-- Whether everything has worked so far. -/
  good : Bool
  deriving DecidableEq, Repr, Inhabited

namespace Sink

/-- The bytes that have arrived. -/
def content (s : Sink) : Bytes := s.backwards.reverse

/-- A sink that already holds some bytes and goes on behind them. -/
def ofBytes (bs : Bytes) (limit : Option Nat) (seekable : Bool) : Sink :=
  ⟨bs.reverse, bs.length, bs.length, limit, seekable, 0, [], true⟩

/-- An empty sink that takes everything. -/
def empty : Sink := ofBytes [] none true

/-- The bytes that a file holds back before it passes them on. -/
def fileRoom : Nat := 8191

/-- A write of so many bytes is large: holding them back would gain nothing. -/
def large : Nat := 1024

/-- A device that takes nothing, behind the room of a file. -/
def full : Sink := { empty with limit := some 0, room := fileRoom }

/-- Put bytes at the position, over what is there. -/
def place (s : Sink) (bs : Bytes) : Sink :=
  let n := bs.length
  if s.position = s.size then
    { s with backwards := bs.reverseAux s.backwards, size := s.size + n, position := s.size + n }
  else
    let old := s.content
    let new := old.take s.position ++ bs ++ old.drop (s.position + n)
    { s with
      backwards := new.reverse, size := max s.size (s.position + n), position := s.position + n }

/-- Written bytes replace what stood at the position. -/
theorem content_place (s : Sink) (bs : Bytes) (h : s.size = s.backwards.length) :
    (s.place bs).content =
      s.content.take s.position ++ bs ++ s.content.drop (s.position + bs.length) := by
  unfold place
  split
  · next he =>
    have hl : s.content.length ≤ s.position := by simp [content]; omega
    simp only [content, List.reverseAux_eq, List.reverse_append, List.reverse_reverse]
    simp only [content] at hl
    rw [List.take_of_length_le hl, List.drop_of_length_le (by omega), List.append_nil]
  · simp [content]

/-- Pass bytes on.  What lies beyond the limit is cut off, and that is a failure. -/
def pass (s : Sink) (bs : Bytes) : Sink :=
  match s.limit with
  | none => s.place bs
  | some limit =>
    if s.position + bs.length ≤ limit then s.place bs
    else { s.place (bs.take (limit - s.position)) with good := false }

/-- Write bytes. -/
def put (s : Sink) (bs : Bytes) : Sink :=
  if !s.good then s
  else if min large (s.room - s.held.length) ≤ bs.length then
    let next := s.pass (s.held ++ bs)
    if next.good then { next with held := [] } else next
  else { s with held := s.held ++ bs }

/-- Pass on what is held back. -/
def flush (s : Sink) : Sink :=
  if !s.good || s.held.isEmpty then s
  else
    let next := s.pass s.held
    if next.good then { next with held := [] } else next

/-- Move to an offset. -/
def moveTo (s : Sink) (position : Sink → Nat) : Sink :=
  let s := s.flush
  if !s.good then s
  else if !s.seekable then { s with good := false }
  else { s with position := position s }

/-- Move to the start. -/
def rewind (s : Sink) : Sink := s.moveTo fun _ => 0

/-- Move to the end. -/
def forward (s : Sink) : Sink := s.moveTo Sink.size

end Sink

end IqTape
