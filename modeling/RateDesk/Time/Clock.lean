import RateDesk.Fault
import RateDesk.Time.Timestamp

/-!
# The steady clock

Deadlines are readings of a clock that never goes back, in milliseconds since its origin. Main
definition: `Instant.after`.
-/

namespace RateDesk

/-- A reading of the steady clock, in milliseconds. -/
abbrev Instant := Nat

namespace Instant

/-- The first count of seconds that a reading cannot have. -/
abbrev secondsBound : Nat := twoPow 63

/-- The reading `delay` milliseconds later, if the clock can have it. -/
def after (now : Instant) (delay : Nat) : Except Fault Instant :=
  if (now + delay) / 1000 < secondsBound then .ok (now + delay) else .error .deadline

end Instant

/-- What the two clocks show: the steady one for deadlines, the calendar for time stamps. -/
structure Now where
  instant : Instant
  time : Timestamp
deriving DecidableEq

end RateDesk
