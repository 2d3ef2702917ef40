import RateDesk.Text.Numeral
import RateDesk.Text.Cut
import RateDesk.Time.Calendar

/-!
# Local zones

A zone has one offset from Coordinated Universal Time or two that alternate every year.
`Zone.offsetOfWall` finds the offset that a local time is read with: a time that the clocks skip has
none, except for the very second at which they are put forward, and a time that occurs twice is read
as standard time. `Zone.read` reads the POSIX notation (`EST5EDT,M3.2.0,M11.1.0`).

Zones whose changes are given as days of the year (`Jn` or `n`) or whose summer time is behind
standard time cannot be expressed, and `Zone.read` refuses them.
-/

namespace RateDesk.Time

open Text

/-- A day of the year: the `week`-th `weekday` of a month, the fifth being the last. Sunday is
zero. -/
structure YearlyDay where
  month : Nat
  week : Nat
  weekday : Nat
deriving DecidableEq, Repr

def YearlyDay.dayNumber (d : YearlyDay) (year : Int) : Int :=
  let first : Int := (Date.mk year d.month 1).dayNumber
  let offset := (d.weekday + 7 - weekdayOf first) % 7 + 7 * (d.week - 1)
  first + (if daysInMonth year d.month ≤ offset then offset - 7 else offset : Nat)

/-- A yearly change of the clocks: the day and the seconds after midnight on the clock that ends. -/
structure Change where
  day : YearlyDay
  time : Nat
deriving DecidableEq, Repr

/-- The local second, on the clock that ends, at which a change happens in a given year. -/
def Change.at (c : Change) (year : Int) : Int := c.day.dayNumber year * 86400 + c.time

/-- The rule of a local zone. Offsets are seconds east of Greenwich. -/
inductive Zone where
  /-- One offset throughout. -/
  | fixed (offset : Int)
  /-- Standard time, put forward by `ahead` seconds from the change `start` to the change `stop`. -/
  | seasonal (standard : Int) (ahead : Nat) (start stop : Change)
deriving DecidableEq, Repr

namespace Zone

def utc : Zone := .fixed 0

/-- The offset that a local time, in seconds, is read with; none for a time that the clocks skip. -/
def offsetOfWall : Zone → (wall : Int) → Option Int
  | .fixed offset, _ => some offset
  | .seasonal standard ahead start stop, wall =>
    let year := yearOf (wall / 86400)
    let summer := standard + ahead
    let forward := start.at year
    let back := stop.at year
    if start.day.month < stop.day.month then
      if wall ≤ forward then some standard
      else if wall < forward + ahead then none
      else if wall < back - ahead then some summer
      else some standard
    else
      if wall < back - ahead then some summer
      else if wall < forward then some standard
      else if wall < forward + ahead then none
      else some summer

/-! ## POSIX notation -/

/-- The name of a clock: three letters or more, or anything between angle brackets. -/
def readName : List Char → Option (List Char)
  | '<' :: r => (cutAt '>' r).map (·.2)
  | s => if 3 ≤ (s.takeWhile Char.isAlpha).length then some (s.dropWhile Char.isAlpha) else none

def readNumber (s : List Char) : Option (Nat × List Char) :=
  (numeral? (s.takeWhile isDigit)).map fun n => (n, s.dropWhile isDigit)

/-- Hours, minutes and seconds as seconds: `h[:mm[:ss]]`. -/
def readClock (s : List Char) : Option (Nat × List Char) := do
  let (h, s) ← readNumber s
  match s with
  | ':' :: s =>
    let (m, s) ← readNumber s
    match s with
    | ':' :: s =>
      let (x, s) ← readNumber s
      return (h * 3600 + m * 60 + x, s)
    | s => return (h * 3600 + m * 60, s)
  | s => return (h * 3600, s)

/-- An offset, which POSIX counts westwards. -/
def readOffset : List Char → Option (Int × List Char)
  | '-' :: s => (readClock s).map fun (n, s) => ((n : Int), s)
  | '+' :: s => (readClock s).map fun (n, s) => (-(n : Int), s)
  | s => (readClock s).map fun (n, s) => (-(n : Int), s)

/-- A change `,Mm.w.d` with an optional `/time`, two o'clock where it is left out. -/
def readChange : List Char → Option (Change × List Char)
  | ',' :: 'M' :: s => do
    let (month, s) ← readNumber s
    let s ← afterPrefix? ['.'] s
    let (week, s) ← readNumber s
    let s ← afterPrefix? ['.'] s
    let (weekday, s) ← readNumber s
    let day : YearlyDay := ⟨month, week, weekday⟩
    if month = 0 ∨ 12 < month ∨ week = 0 ∨ 5 < week ∨ 6 < weekday then none
    else
      match s with
      | '/' :: s => (readClock s).map fun (time, s) => (⟨day, time⟩, s)
      | s => return (⟨day, 7200⟩, s)
  | _ => none

/-- The offset of summer time where it is given: a change follows at once where it is one hour
ahead. -/
def readSummer (standard : Int) : List Char → Option (Int × List Char)
  | ',' :: s => some (standard + 3600, ',' :: s)
  | s => readOffset s

/-- Reads a zone in POSIX notation, with changes by month, week and weekday; summer time has to be
ahead of standard time. -/
def read (s : List Char) : Option Zone := do
  let s ← readName s
  let (standard, s) ← readOffset s
  if s.isEmpty then return .fixed standard
  let s ← readName s
  let (summer, s) ← readSummer standard s
  let (start, s) ← readChange s
  let (stop, s) ← readChange s
  if s.isEmpty ∧ standard < summer then return .seasonal standard (summer - standard).toNat start stop else none

end Zone

end RateDesk.Time
