import IqTape.Number.Rate

/-!
# The schedule of a replay

Blocks are sent at the pace at which they were recorded, times a speed.  The
first block after the start is due at once and fixes the origin; any other is due
when the recorded time since the origin, divided by the speed, has passed.  The
schedule is absolute, so an error in one wait does not carry over to the next.
Time spent paused moves the whole schedule.  Times and what is computed from them
are signed words of nanoseconds, and a time that is too far ahead for one wraps
around.

A wait is made of steps, each of which looks at the pause flag and the clock once
and may ask for a sleep.

## Main definitions

* `Schedule` — speed, start and origin.
* `Schedule.offset`, `Schedule.target` — when a block is due.
* `Wait`, `Wait.step` — a wait for a block, step by step.
-/

namespace IqTape

/-- When blocks are due. -/
structure Schedule where
  /-- How much faster than recorded. -/
  speed : Binary64
  /-- The clock reading at which the origin is due. -/
  start : Int
  /-- The timestamp of the first block. -/
  origin : Option UInt64
  deriving DecidableEq, Repr, Inhabited

namespace Schedule

/-- The slowest speed, a hundredth. -/
def minSpeed : Binary64 := .ofRatio false 1 100

/-- A schedule that starts now. -/
def starting (speed : Binary64) (now : Int) : Schedule := ⟨speed.max minSpeed, now, none⟩

/-- Start again now; the next block fixes the origin. -/
def restart (s : Schedule) (now : Int) : Schedule := { s with start := now, origin := none }

/-- Move the whole schedule. -/
def shift (s : Schedule) (nanos : Int) : Schedule :=
  { s with start := signedNanos (s.start + nanos) }

/-- Fix the origin, unless it is fixed. -/
def anchor (s : Schedule) (timestamp : UInt64) : Schedule :=
  { s with origin := some (s.origin.getD timestamp) }

/-- A recorded gap in real nanoseconds. -/
def offset (speed : Binary64) (gap : UInt64) : Int := ((Binary64.ofNat gap.toNat).div speed).toInt64

/-- The recorded time since the origin; none for what was recorded before it. -/
def gap (s : Schedule) (timestamp : UInt64) : UInt64 :=
  let origin := s.origin.getD timestamp
  if origin < timestamp then timestamp - origin else 0

/-- When a block is due. -/
def target (s : Schedule) (timestamp : UInt64) : Int :=
  signedNanos (s.start + offset s.speed (s.gap timestamp))

/-- A block that is later than this many nanoseconds is an underrun. -/
def underrunThreshold : Int := 1000000

/-- How long a paused replay sleeps before it looks at the flag again. -/
def pausePoll : Int := 20000000

end Schedule

/-- How far a wait for a block has got. -/
inductive Wait
  | arriving (timestamp : UInt64)
  /-- The replay was found paused at some time. -/
  | paused (timestamp : UInt64) (since : Int)
  /-- The replay is not paused. -/
  | pacing (timestamp : UInt64)
  /-- The wait sleeps up to a time. -/
  | sleeping (target : Int)
  /-- The block may be sent, with the error of its time in nanoseconds. -/
  | due (error : UInt64) (underrun : Bool)
  deriving DecidableEq, Repr, Inhabited

/-- A clock difference as a word. -/
def lagWord (n : Int) : UInt64 := (n % 2 ^ 64).toNat.toUInt64

/-- One step of a wait.  The last part of the result is a time to sleep before
the next step.  A lag too long for a signed word comes out negative, and is none
for the underruns. -/
def Wait.step (pausing : Bool) (now : Int) (s : Schedule) : Wait → Wait × Schedule × Option Int
  | .arriving timestamp =>
    (if pausing then .paused timestamp now else .pacing timestamp, s, none)
  | .paused timestamp since =>
    if pausing then (.paused timestamp since, s, some Schedule.pausePoll)
    else (.pacing timestamp, s.shift (signedNanos (now - since)), none)
  | .pacing timestamp =>
    let s := s.anchor timestamp
    let target := s.target timestamp
    if now < target then (.sleeping target, s, some (signedNanos (target - now)))
    else
      let lag := now - target
      (.due (lagWord lag) (decide (Schedule.underrunThreshold < signedNanos lag)), s, none)
  | .sleeping target => (.due (if now ≤ target then 0 else lagWord (now - target)) false, s, none)
  | .due error underrun => (.due error underrun, s, none)

end IqTape
