import RateDesk.Number.Power

/-!
# Decimal numerals

ASCII digits, the value of a run of digits, and the printing of natural numbers. Main definitions:
`digit?`, `numeral?`, `ofDigits`, `printNat`, `padded`.
-/

namespace RateDesk.Text

def digit? (c : Char) : Option Nat :=
  if '0'.toNat ≤ c.toNat ∧ c.toNat ≤ '9'.toNat then some (c.toNat - '0'.toNat) else none

def isDigit (c : Char) : Bool := (digit? c).isSome

def digitChar (n : Nat) : Char := Char.ofNat ('0'.toNat + n)

/-- The number that a list of digit values denotes, with `acc` written before it. -/
def ofDigits (acc : Nat) : List Nat → Nat
  | [] => acc
  | d :: ds => ofDigits (acc * 10 + d) ds

def digits? : List Char → Option (List Nat)
  | [] => some []
  | c :: r => do
    let d ← digit? c
    let ds ← digits? r
    return d :: ds

/-- The number written by one or more digits. -/
def numeral? (s : List Char) : Option Nat :=
  if s.isEmpty then none else (digits? s).map (ofDigits 0)

/-- The decimal digits of a number in front of `tail`; `fuel` bounds how many are written. -/
def writeDigits : (fuel n : Nat) → (tail : List Char) → List Char
  | 0, _, tail => tail
  | fuel + 1, n, tail =>
    if n < 10 then digitChar n :: tail else writeDigits fuel (n / 10) (digitChar (n % 10) :: tail)

/-- A number in decimal digits, without leading zeros. -/
def printNat (n : Nat) : List Char := writeDigits (n + 1) n []

/-- An integer in decimal digits, a minus sign before a negative one. -/
def printInt (n : Int) : List Char :=
  if n < 0 then '-' :: printNat n.natAbs else printNat n.natAbs

/-- A number in at least `width` digits, filled up with zeros. -/
def padded (width n : Nat) : List Char :=
  let ds := printNat n
  List.replicate (width - ds.length) '0' ++ ds

/-- The value of an unsigned numeral: an optional plus sign, then digits, below `bound`. -/
def unsigned? (bound : Nat) (s : List Char) : Option Nat := do
  let n ← match s with
    | '+' :: r => numeral? r
    | r => numeral? r
  if n < bound then some n else none

/-- The value of a signed numeral between `-2 ^ 63` and `2 ^ 63 - 1`. -/
def signed64? (s : List Char) : Option Int := do
  let n : Int ← match s with
    | '-' :: r => (numeral? r).map fun n => -(n : Int)
    | '+' :: r => (numeral? r).map Int.ofNat
    | r => (numeral? r).map Int.ofNat
  if -(twoPow 63 : Int) ≤ n ∧ n < (twoPow 63 : Int) then some n else none

end RateDesk.Text
