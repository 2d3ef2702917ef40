/-!
# Rounding quotients

Two ways of rounding a quotient of natural numbers to the nearest one: a half goes to the even
neighbour or up.
-/

namespace RateDesk

/-- The natural number nearest to `n / d`; of two equally near ones the even one. -/
def roundHalfEven (n d : Nat) : Nat :=
  let q := n / d
  let r := n % d
  if d < 2 * r ∨ (2 * r = d ∧ q % 2 = 1) then q + 1 else q

/-- The natural number nearest to `n / d`; of two equally near ones the larger one. -/
def roundHalfUp (n d : Nat) : Nat := (2 * n + d) / (2 * d)

end RateDesk
