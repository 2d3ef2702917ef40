import RateDesk.Number.Power

/-!
# Decimals

A decimal is a signed 96-bit coefficient over a power of ten: `coeff / 10 ^ scale` with at most 28
fraction digits. The scale is part of the number as written (`1.10` keeps its zero), so two decimals
may be equal in value and differ in scale. Main definitions: `Decimal`, `Decimal.of?`,
`Decimal.value`, `Decimal.cmp`.
-/

namespace RateDesk

/-- A number `coeff / 10 ^ scale` whose coefficient fits in 96 bits and a sign. -/
structure Decimal where
  coeff : Int
  scale : Nat
  coeff_lt : coeff.natAbs < twoPow 96
  scale_le : scale ≤ 28
deriving DecidableEq

namespace Decimal

/-- One more than the largest coefficient. -/
abbrev coeffBound : Nat := twoPow 96

abbrev maxScale : Nat := 28

/-- The decimal with a given coefficient and scale, if both are in range. -/
def of? (coeff : Int) (scale : Nat) : Option Decimal :=
  if h : coeff.natAbs < twoPow 96 ∧ scale ≤ 28 then some ⟨coeff, scale, h.1, h.2⟩ else none

def value (x : Decimal) : Rat := (x.coeff : Rat) / (tenPow x.scale : Nat)

/-- Zero without fraction digits. -/
def zero : Decimal := ⟨0, 0, by decide, by decide⟩

/-- Two without fraction digits. -/
def two : Decimal := ⟨2, 0, by decide, by decide⟩

instance : Inhabited Decimal := ⟨zero⟩

def isZero (x : Decimal) : Bool := x.coeff == 0

def neg (x : Decimal) : Decimal :=
  ⟨-x.coeff, x.scale, by rw [Int.natAbs_neg]; exact x.coeff_lt, x.scale_le⟩

def abs (x : Decimal) : Decimal :=
  ⟨x.coeff.natAbs, x.scale, by rw [Int.natAbs_natCast]; exact x.coeff_lt, x.scale_le⟩

/-- The coefficient that a decimal would have at a larger scale. -/
def coeffAt (x : Decimal) (scale : Nat) : Int := x.coeff * tenPow (scale - x.scale)

def le (x y : Decimal) : Bool :=
  let s := max x.scale y.scale
  x.coeffAt s ≤ y.coeffAt s

def same (x y : Decimal) : Bool :=
  let s := max x.scale y.scale
  x.coeffAt s == y.coeffAt s

end Decimal

end RateDesk
