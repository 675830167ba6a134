import IqTape.Number.Layout

/-!
# Times and rates

The steady clock measures time spans, and only differences of its readings mean
anything; the wall clock dates samples and tapes.  No definition of this library
reads a clock: what the clocks show when something happens is handed in.  Both
count nanoseconds in a signed word.

Reports show how long a session has run and how fast it went.  A time is a
difference of two clock readings in nanoseconds, which is negative when the clock
was set back in between; every quotient is taken in double precision.

## Main definitions

* `signedNanos` — a number of nanoseconds as clocks count them.
* `Moment` — a reading of both clocks.
* `Moment.second`, `Moment.nano` — the wall clock as a word.
* `intervalNanos` — a number of seconds to compare with a difference of readings.
* `seconds` — nanoseconds as seconds.
* `megaPerSecond` — a count over a time, in millions per second.
* `inMillions` — a count in millions.

## Main results

* `signedNanos_eq_self`, `signedNanos_eq_sub` — what fits a signed word, and what does not.
-/

namespace IqTape

/-- Nanoseconds in a second. -/
def nanosPerSecond : Nat := 1000000000

/-! ### Clocks -/

/-- A number of nanoseconds as clocks count them, in a signed word of 64 bits; what
does not fit wraps around. -/
def signedNanos (n : Int) : Int := n.bmod (2 ^ 64)

theorem signedNanos_bounds (n : Int) : -2 ^ 63 ≤ signedNanos n ∧ signedNanos n < 2 ^ 63 := by
  have hle := Int.le_bmod (x := n) (m := 2 ^ 64) (by omega)
  have hlt := Int.bmod_lt (x := n) (m := 2 ^ 64) (by omega)
  unfold signedNanos
  omega

theorem signedNanos_eq_self {n : Int} (hle : -2 ^ 63 ≤ n) (hlt : n < 2 ^ 63) :
    signedNanos n = n := Int.bmod_eq_of_le (by omega) (by omega)

/-- A number that is too large by one bit loses a whole word. -/
theorem signedNanos_eq_sub {n : Int} (hle : 2 ^ 63 ≤ n) (hlt : n < 2 ^ 64 + 2 ^ 63) :
    signedNanos n = n - 2 ^ 64 := by
  have hword : signedNanos (n - 2 ^ 64) = signedNanos n := Int.sub_mul_bmod_self_right n 1 (2 ^ 64)
  rw [← hword, signedNanos_eq_self (by omega) (by omega)]

/-- A reading of both clocks, in nanoseconds. -/
structure Moment where
  steady : Int
  /-- The wall clock, since the epoch. -/
  wall : Int
  deriving DecidableEq, Repr, Inhabited

/-- The wall clock in nanoseconds since the epoch; what is before it wraps around. -/
def Moment.nano (m : Moment) : UInt64 := UInt64.ofInt m.wall

/-- The wall clock in whole seconds away from the epoch; what is before it wraps around. -/
def Moment.second (m : Moment) : UInt64 := UInt64.ofInt (m.wall.tdiv nanosPerSecond)

/-- A number of seconds in nanoseconds, as a signed word of 64 bits. -/
def intervalNanos (seconds : UInt64) : Int :=
  ((seconds.toNat * nanosPerSecond : Nat) : Int).bmod (2 ^ 64)

/-! ### Rates -/

/-- A number of nanoseconds in seconds. -/
def seconds (nanos : Int) : Binary64 := (Binary64.ofInt nanos).div (.ofNat nanosPerSecond)

/-- The time between two readings of a clock, in seconds. -/
def secondsBetween (start now : Int) : Binary64 := seconds (now - start)

/-- One million. -/
def million : Binary64 := .ofNat 1000000

/-- Times shorter than a nanosecond have no rate. -/
def shortestTime : Binary64 := .ofRatio false 1 nanosPerSecond

/-- Millions per second; zero when hardly any time has passed, or less than none. -/
def megaPerSecond (count : UInt64) (time : Binary64) : Binary64 :=
  if time.lt shortestTime then .zero
  else ((Binary64.ofNat count.toNat).div time).div million

/-- A count in millions. -/
def inMillions (count : UInt64) : Binary64 := (Binary64.ofNat count.toNat).div million

/-- A line across a report. -/
def ruleLine : String := "-------------------------------------------\n"

/-- A number with a fixed number of places. -/
def places (n : Nat) (x : Binary64) : String := Layout.write (.fixed n) x

end IqTape
