/-!
# Faults

A computation that has no representable result stops where it stands; what it did before stays done.
-/

namespace RateDesk

/-- A result that cannot be represented. -/
inductive Fault where
  /-- A sum needs more than 96 bits at scale zero. -/
  | addition
  /-- A difference needs more than 96 bits at scale zero. -/
  | subtraction
  /-- A product needs more than 96 bits at scale zero. -/
  | multiplication
  /-- A quotient needs more than 96 bits at scale zero. -/
  | division
  /-- A deadline lies beyond the clock's range. -/
  | deadline
deriving DecidableEq, Repr

namespace Fault

def message : Fault → String
  | addition => "Addition overflowed"
  | subtraction => "Subtraction overflowed"
  | multiplication => "Multiplication overflowed"
  | division => "Division overflowed"
  | deadline => "overflow when adding duration to instant"

end Fault

end RateDesk
