import RateDesk.Text.Numeral
import RateDesk.Time.Calendar

/-!
# Timestamps

A timestamp is a point in Coordinated Universal Time with nanoseconds. A leap second counts as a
second `:59` with a thousand million nanoseconds or more. `Timestamp.print` writes RFC 3339 text
with a trailing `Z`.
-/

namespace RateDesk

/-- A point in time: whole seconds since 1970 and nanoseconds, which reach into a second thousand
million during a leap second. -/
structure Timestamp where
  seconds : Int
  nanos : Nat
deriving DecidableEq, Repr

namespace Timestamp

open Text Time

/-- Nanoseconds in a second. -/
abbrev perSecond : Nat := 1000000000

abbrev firstYear : Int := -262143

abbrev lastYear : Int := 262142

/-- Whether a count of seconds lies in the years that can be represented. -/
def inRange (seconds : Int) : Bool :=
  daysBeforeYear firstYear * 86400 ≤ seconds && seconds < daysBeforeYear (lastYear + 1) * 86400

/-- A year in four digits; a sign and as many digits as needed outside 0 to 9999. -/
def printYear (y : Int) : List Char :=
  if 0 ≤ y ∧ y ≤ 9999 then padded 4 y.toNat
  else (if y < 0 then '-' else '+') :: padded 4 y.natAbs

/-- A point and three, six or nine digits, the fewest that suffice; nothing for a whole second. -/
def printFraction (n : Nat) : List Char :=
  if n = 0 then []
  else if n % 1000000 = 0 then '.' :: padded 3 (n / 1000000)
  else if n % 1000 = 0 then '.' :: padded 6 (n / 1000)
  else '.' :: padded 9 n

/-- RFC 3339 text with a `Z`. -/
def print (t : Timestamp) : List Char :=
  let date := dateOf (t.seconds / 86400)
  let s := (t.seconds % 86400).toNat
  printYear date.year ++ '-' :: padded 2 date.month ++ '-' :: padded 2 date.day ++ 'T' :: padded 2 (s / 3600) ++
    ':' :: padded 2 (s / 60 % 60) ++ ':' :: padded 2 (s % 60 + t.nanos / perSecond) ++
    printFraction (t.nanos % perSecond) ++ ['Z']

instance : ToString Timestamp := ⟨fun t => String.ofList t.print⟩

end Timestamp

end RateDesk
