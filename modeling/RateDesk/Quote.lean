import RateDesk.Decimal.Basic
import RateDesk.Time.Timestamp

/-!
# Quotes and rates

A quote is a bid and an ask. A rate is a quote for an instrument as one platform reported it; a
calculated rate belongs to no platform.
-/

namespace RateDesk

structure Quote where
  bid : Decimal
  ask : Decimal
deriving DecidableEq

/-- A quote that one platform reported for an instrument. -/
structure Rate where
  instrument : String
  bid : Decimal
  ask : Decimal
  observedAt : Timestamp
deriving DecidableEq

/-- A consensus or re-based quote for an instrument. -/
structure CalculatedRate where
  instrument : String
  bid : Decimal
  ask : Decimal
  computedAt : Timestamp
deriving DecidableEq

namespace Rate

def quote (r : Rate) : Quote := ⟨r.bid, r.ask⟩

/-- Whether two rates agree in instrument, time and the values of bid and ask. -/
def same (r s : Rate) : Bool :=
  r.instrument == s.instrument && r.bid.same s.bid && r.ask.same s.ask && r.observedAt == s.observedAt

end Rate

namespace CalculatedRate

/-- Whether two calculated rates agree in instrument, time and the values of bid and ask. -/
def same (r s : CalculatedRate) : Bool :=
  r.instrument == s.instrument && r.bid.same s.bid && r.ask.same s.ask && r.computedAt == s.computedAt

end CalculatedRate

end RateDesk
