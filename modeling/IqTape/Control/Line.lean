import IqTape.Bytes.Word

/-!
# Lines on a control connection

Requests come as lines.  Carriage returns are dropped and empty lines are skipped.
A line that grows too long ends the connection, and what stands behind the last
line break is no line.

## Main definitions

* `LineCutter` — the unfinished line of a connection.
* `LineCutter.feed` — one byte.
* `linesOf` — the lines among some bytes.
-/

namespace IqTape

/-- The unfinished line of a connection. -/
inductive LineCutter
  /-- The bytes of the line so far, the last one first, and their number. -/
  | open (backwards : Bytes) (count : Nat)
  /-- A line was too long; nothing more is read. -/
  | closed
  deriving DecidableEq, Repr, Inhabited

namespace LineCutter

/-- The most bytes in a line. -/
def maxLength : Nat := 4096

/-- A connection on which nothing has come in. -/
def fresh : LineCutter := .open [] 0

/-- Take one byte; a line that it ends comes out, unless it is empty. -/
def feed (b : UInt8) : LineCutter → LineCutter × Option Bytes
  | .closed => (.closed, none)
  | .open backwards count =>
    if b = 0x0A then (fresh, if count = 0 then none else some backwards.reverse)
    else if b = 0x0D then (.open backwards count, none)
    else if maxLength ≤ count then (.closed, none)
    else (.open (b :: backwards) (count + 1), none)

/-- Take bytes; `found` holds the lines so far, the latest first. -/
def feedAll (found : List Bytes) : Bytes → LineCutter → List Bytes × LineCutter
  | [], c => (found.reverse, c)
  | b :: rest, c =>
    match c.feed b with
    | (c, some line) => feedAll (line :: found) rest c
    | (c, none) => feedAll found rest c

end LineCutter

/-- The lines among the bytes of a connection. -/
def linesOf (bs : Bytes) : List Bytes := (LineCutter.feedAll [] bs .fresh).1

end IqTape
