/-!
# The Gregorian calendar

Days are counted from 1 January 1970 and years run through zero into negative numbers. Main
definitions: `daysBeforeYear`, `dayNumber` (of a date) and `dateOf` (of a day number).
-/

namespace RateDesk.Time

def isLeapYear (y : Int) : Bool := y % 4 == 0 && (y % 100 != 0 || y % 400 == 0)

def monthLengths (leap : Bool) : List Nat :=
  [31, if leap then 29 else 28, 31, 30, 31, 30, 31, 31, 30, 31, 30, 31]

/-- The length of month `m`, counted from one; zero when there is no such month. -/
def daysInMonth (y : Int) (m : Nat) : Nat :=
  if m = 0 then 0 else (monthLengths (isLeapYear y)).getD (m - 1) 0

/-- The number of leap days in the years below `y`, up to a constant. -/
def leapDaysBefore (y : Int) : Int := (y - 1) / 4 - (y - 1) / 100 + (y - 1) / 400

/-- The number of the first day of a year. -/
def daysBeforeYear (y : Int) : Int := 365 * (y - 1970) + (leapDaysBefore y - leapDaysBefore 1970)

def daysBeforeMonth (y : Int) (m : Nat) : Nat :=
  ((monthLengths (isLeapYear y)).take (m - 1)).foldl (· + ·) 0

structure Date where
  year : Int
  month : Nat
  day : Nat
deriving DecidableEq, Repr

namespace Date

def exists? (d : Date) : Bool :=
  1 ≤ d.month && d.month ≤ 12 && 1 ≤ d.day && d.day ≤ daysInMonth d.year d.month

/-- The number of a date, day zero being 1 January 1970. -/
def dayNumber (d : Date) : Int := daysBeforeYear d.year + daysBeforeMonth d.year d.month + d.day - 1

end Date

def yearOf (n : Int) : Int :=
  let y := 1970 + n * 400 / 146097
  if n < daysBeforeYear y then y - 1 else if daysBeforeYear (y + 1) ≤ n then y + 1 else y

/-- Month and day of the day `n` days after the first of month `m`, given the lengths of the months
from `m` on. -/
def monthAndDay : (lengths : List Nat) → (m n : Nat) → Nat × Nat
  | [], m, n => (m, n + 1)
  | l :: ls, m, n => if n < l then (m, n + 1) else monthAndDay ls (m + 1) (n - l)

def dateOf (n : Int) : Date :=
  let y := yearOf n
  let (m, d) := monthAndDay (monthLengths (isLeapYear y)) 1 (n - daysBeforeYear y).toNat
  ⟨y, m, d⟩

/-- The day of the week of a day number, Sunday being zero. -/
def weekdayOf (n : Int) : Nat := ((n + 4) % 7).toNat

end RateDesk.Time
