import RateDesk.Fault
import RateDesk.Decimal.Round

/-!
# Decimal arithmetic

Sums, differences and products are computed exactly and rounded once by `fit`. Quotients grow digit
by digit (`extend`) until they are exact, have 28 fraction digits or fill 96 bits; a quotient that
had to grow loses some trailing zeros again (`shorten`).
-/

namespace RateDesk.Decimal

/-- The sum; a zero summand leaves the other one as it is, scale included. -/
def add (x y : Decimal) : Except Fault Decimal :=
  if x.isZero then .ok y
  else if y.isZero then .ok x
  else
    let s := max x.scale y.scale
    match fit (x.coeffAt s + y.coeffAt s) s with
    | some z => .ok z
    | none => .error .addition

def sub (x y : Decimal) : Except Fault Decimal :=
  match add x y.neg with
  | .ok z => .ok z
  | .error _ => .error .subtraction

/-- The product. A product of two short coefficients with more than 47 fraction digits is zero. -/
def mul (x y : Decimal) : Except Fault Decimal :=
  if x.isZero || y.isZero then .ok zero
  else
    let s := x.scale + y.scale
    if x.coeff.natAbs < twoPow 32 ∧ y.coeff.natAbs < twoPow 32 ∧ 47 < s then .ok zero
    else
      match fit (x.coeff * y.coeff) s with
      | some z => .ok z
      | none => .error .multiplication

/-! ## Quotients -/

/-- The largest `p` at most `bound` with `q * 10 ^ p` below 96 bits. -/
def room (q : Nat) : (bound : Nat) → Nat
  | 0 => 0
  | p + 1 => if q * tenPow (p + 1) < coeffBound then p + 1 else room q p

/-- A quotient that left 96 bits by a carry, one digit shorter; `sticky` tells that digits were cut
off already. -/
def carryOut (q : Nat) (scale : Int) (sticky : Bool) : Option (Nat × Int) :=
  if scale < 1 then none
  else
    let r := q % 10
    let up := 5 < r ∨ (r = 5 ∧ (sticky ∨ q / 10 % 2 = 1))
    some (if up then q / 10 + 1 else q / 10, scale - 1)

/-- The quotient `q` with remainder `r` of a division by `d`, rounded to its last digit. -/
def roundLast (q r d : Nat) (scale : Int) : Option (Nat × Int) :=
  let q' := if d < 2 * r ∨ (2 * r = d ∧ q % 2 = 1) then q + 1 else q
  if q' < coeffBound then some (q', scale) else carryOut q' scale true

/-- Carries a division by `d` on from the quotient `q` and the remainder `r`, up to nine digits a
round. The flag tells that a remainder was left at some time. `fuel` bounds the rounds. -/
def extend (d : Nat) : (fuel q r : Nat) → (scale : Int) → (grown : Bool) → Option (Nat × Int × Bool)
  | 0, q, _, scale, grown => some (q, scale, grown)
  | fuel + 1, q, r, scale, grown =>
    if r = 0 ∧ 0 ≤ scale then some (q, scale, grown)
    else
      let p :=
        if r = 0 then min 9 (-scale).toNat
        else room q (min 9 ((maxScale : Int) - scale).toNat)
      if r ≠ 0 ∧ p < 9 ∧ p + scale < 0 then none
      else if r ≠ 0 ∧ p = 0 then (roundLast q r d scale).map fun (q, s) => (q, s, true)
      else
        let grown := grown || r ≠ 0
        let scale := scale + p
        if coeffBound ≤ q * tenPow p then none
        else
          let q' := q * tenPow p + r * tenPow p / d
          let r' := r * tenPow p % d
          if q' < coeffBound then extend d fuel q' r' scale grown
          else (carryOut q' scale (r' ≠ 0)).map fun (q, s) => (q, s, true)

/-- Strips eight zeros at a time while the low 32 bits are clear. -/
def shorten8 : (fuel q : Nat) → (scale : Int) → Nat × Int
  | 0, q, scale => (q, scale)
  | fuel + 1, q, scale =>
    if q % twoPow 32 = 0 ∧ 8 ≤ scale ∧ q % tenPow 8 = 0 then
      shorten8 fuel (q / tenPow 8) (scale - 8)
    else (q, scale)

/-- Strips `10 ^ k` once where the value has that factor and as many fraction digits. -/
def shortenBy (k : Nat) (x : Nat × Int) : Nat × Int :=
  if x.1 % tenPow k = 0 ∧ (k : Int) ≤ x.2 then (x.1 / tenPow k, x.2 - k) else x

/-- A quotient without some of its trailing zeros: eights by `shorten8`, then four, two and one. -/
def shorten (q : Nat) (scale : Int) : Nat × Int :=
  shortenBy 1 (shortenBy 2 (shortenBy 4 (shorten8 4 q scale)))

def div (x y : Decimal) : Except Fault Decimal :=
  if x.isZero then .ok zero
  else
    let n := x.coeff.natAbs
    let d := y.coeff.natAbs
    let result : Option Decimal := do
      let (q, scale, grown) ← extend d 64 (n / d) (n % d) ((x.scale : Int) - y.scale) false
      let (q, scale) := if grown then shorten q scale else (q, scale)
      of? (if x.coeff < 0 ∧ 0 < y.coeff ∨ 0 < x.coeff ∧ y.coeff < 0 then -(q : Int) else q) scale.toNat
    match result with
    | some z => .ok z
    | none => .error .division

/-- The whole number `n`, which has to be below 96 bits. -/
def ofNat (n : Nat) : Decimal := (of? n 0).getD zero

end RateDesk.Decimal
