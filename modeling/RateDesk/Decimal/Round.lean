import RateDesk.Decimal.Basic
import RateDesk.Number.Round

/-!
# Rounding to 96 bits

A half goes to the even neighbour. `fit` writes an exact value at the largest scale at which its
rounded coefficient fits.
-/

namespace RateDesk.Decimal

/-- The exact value `m / 10 ^ (s + d)`, of which `d` digits are dropped already, at the largest
scale at most `s` at which its rounded coefficient fits in 96 bits. -/
def fitBelow (m d : Nat) : (s : Nat) → Option (Nat × Nat)
  | 0 =>
    let q := roundHalfEven m (tenPow d)
    if q < coeffBound then some (q, 0) else none
  | s + 1 =>
    let q := roundHalfEven m (tenPow d)
    if q < coeffBound then some (q, s + 1) else fitBelow m (d + 1) s

/-- The exact value `c / 10 ^ s` rounded once, at the largest scale at which it fits; none when it
does not fit at scale zero. -/
def fit (c : Int) (s : Nat) : Option Decimal := do
  let (m, s) ← fitBelow c.natAbs (s - maxScale) (min s maxScale)
  of? (if c < 0 then -(m : Int) else m) s

end RateDesk.Decimal
