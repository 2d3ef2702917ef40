import RateDesk.Text.Blank
import RateDesk.Time.Timestamp
import RateDesk.Time.Zone

/-!
# Timestamps in writing

A timestamp is RFC 3339 text (`readRfc3339`) or a local time without an offset (`readLocal`), which
a zone turns into a point in time. Local times are read leniently: blanks before a number, fewer
digits, signed years. Main definitions: `Timestamp.read` for venues and `Timestamp.readLenient` for
frames, which need an offset.
-/

namespace RateDesk.Timestamp

open Text Time

inductive ReadError where
  /-- The text has none of the accepted forms. -/
  | malformed
  /-- The clocks of the zone skip the local time. -/
  | skipped
deriving DecidableEq, Repr

/-! ## Fields -/

def readNumber (least most : Nat) (s : List Char) : Option (Nat × List Char) := do
  let ds := (s.take most).takeWhile isDigit
  if ds.length < least then none
  else
    let vs ← digits? ds
    return (ofDigits 0 vs, s.drop ds.length)

/-- A fraction of a second in nanoseconds: digits beyond the ninth are skipped. -/
def readNanos (s : List Char) : Option (Nat × List Char) := do
  let (n, r) ← readNumber 1 9 s
  return (n * tenPow (9 - (s.length - r.length)), r.dropWhile isDigit)

/-- The nanoseconds after a point, zero where no point follows. -/
def readFraction : List Char → Option (Nat × List Char)
  | '.' :: s => readNanos s
  | s => some (0, s)

def expect (c : Char) (s : List Char) : Option (List Char) := afterPrefix? [c] s

/-- A date and a time of day on some clock; the second is 60 in a leap second. -/
structure Wall where
  date : Date
  hour : Nat
  minute : Nat
  second : Nat
  nanos : Nat
deriving DecidableEq, Repr

def Wall.exists? (w : Wall) : Bool :=
  w.date.exists? && firstYear ≤ w.date.year && w.date.year ≤ lastYear &&
    w.hour < 24 && w.minute < 60 && w.second ≤ 60

/-- The point in time at which a clock that is `offset` seconds ahead of Coordinated Universal Time
shows `w`. -/
def Wall.toTimestamp (w : Wall) (offset : Int) : Timestamp :=
  let seconds : Int := w.date.dayNumber * 86400 + (w.hour * 3600 + w.minute * 60 + min w.second 59 : Nat)
  ⟨seconds - offset, w.nanos + (if w.second = 60 then perSecond else 0)⟩

/-! ## RFC 3339 -/

/-- Whole minutes east of Greenwich, as seconds: `Z` or a signed `hh:mm` below a day. -/
def readOffset : List Char → Option (Int × List Char)
  | [] => none
  | c :: s =>
    if c = 'Z' ∨ c = 'z' then some (0, s)
    else if c = '+' ∨ c = '-' ∨ c = '\u2212' then do
      let (h, s) ← readNumber 2 2 s
      let s ← expect ':' s
      let (m, s) ← readNumber 2 2 s
      if 23 < h ∨ 59 < m then none
      else
        let n : Int := (h * 3600 + m * 60 : Nat)
        return (if c = '+' then n else -n, s)
    else none

/-- The rest after the letter or blank between date and time of day. -/
def afterSeparator : List Char → Option (List Char)
  | c :: s => if c = 'T' ∨ c = 't' ∨ c = ' ' then some s else none
  | [] => none

/-- Reads a text with four digits for the year, two for every other field and an offset. -/
def readRfc3339 (s : List Char) : Option Timestamp := do
  let (year, s) ← readNumber 4 4 s
  let s ← expect '-' s
  let (month, s) ← readNumber 2 2 s
  let s ← expect '-' s
  let (day, s) ← readNumber 2 2 s
  let s ← afterSeparator s
  let (hour, s) ← readNumber 2 2 s
  let s ← expect ':' s
  let (minute, s) ← readNumber 2 2 s
  let s ← expect ':' s
  let (sec, s) ← readNumber 2 2 s
  let (nanos, s) ← readFraction s
  let (offset, s) ← readOffset s
  let w : Wall := ⟨⟨year, month, day⟩, hour, minute, sec, nanos⟩
  if s.isEmpty ∧ w.exists? then return w.toTimestamp offset else none

/-! ## Lenient fields -/

/-- A number of at most `most` digits after any white space. -/
def readField (most : Nat) (s : List Char) : Option (Nat × List Char) := readNumber 1 most (trimStart s)

/-- A year after any white space: up to four digits, or any number of them after a sign. -/
def readYear (s : List Char) : Option (Int × List Char) :=
  match trimStart s with
  | '-' :: r => (readNumber 1 r.length r).map fun (n, r) => (-(n : Int), r)
  | '+' :: r => (readNumber 1 r.length r).map fun (n, r) => ((n : Int), r)
  | r => (readNumber 1 4 r).map fun (n, r) => ((n : Int), r)

/-! ## Lenient RFC 3339 -/

/-- Whether a character may stand between the hours and minutes of a lenient offset. -/
def isOffsetMark (c : Char) : Bool := c == ':' || isBlank c

/-- A lenient offset: `UTC`, `Z` or a sign, hours and minutes with any marks between them. -/
def readLenientOffset (s : List Char) : Option (Int × List Char) :=
  if (s.take 3).map Char.toUpper = "UTC".toList then some (0, s.drop 3)
  else
    match s with
    | [] => none
    | c :: s =>
      if c = 'Z' ∨ c = 'z' then some (0, s)
      else if c = '+' ∨ c = '-' ∨ c = '\u2212' then do
        let (h, s) ← readNumber 2 2 s
        let (m, s) ← readNumber 2 2 (s.dropWhile isOffsetMark)
        if 23 < h ∨ 59 < m then none
        else
          let n : Int := (h * 3600 + m * 60 : Nat)
          return (if c = '+' then n else -n, s)
      else none

/-- Reads RFC 3339 text that may have white space around its marks, fewer digits and a signed
year. -/
def readLenient (s : List Char) : Option Timestamp := do
  let (year, s) ← readYear s
  let s ← expect '-' (trimStart s)
  let (month, s) ← readField 2 s
  let s ← expect '-' (trimStart s)
  let (day, s) ← readField 2 s
  let s ← afterSeparator s
  let (hour, s) ← readField 2 s
  let s ← expect ':' (trimStart s)
  let (minute, s) ← readField 2 s
  let s ← expect ':' (trimStart s)
  let (sec, s) ← readField 2 s
  let (nanos, s) ← readFraction s
  let (offset, s) ← readLenientOffset (trimStart s)
  let w : Wall := ⟨⟨year, month, day⟩, hour, minute, sec, nanos⟩
  let t := w.toTimestamp offset
  if (trimStart s).isEmpty ∧ w.exists? ∧ inRange t.seconds then return t else none

/-! ## Local times -/

def readMinutes (s : List Char) : Option (Wall × List Char) := do
  let (year, s) ← readYear s
  let s ← expect '-' s
  let (month, s) ← readField 2 s
  let s ← expect '-' s
  let (day, s) ← readField 2 s
  let s ← expect 'T' s
  let (hour, s) ← readField 2 s
  let s ← expect ':' s
  let (minute, s) ← readField 2 s
  return (⟨⟨year, month, day⟩, hour, minute, 0, 0⟩, s)

def readLocalSeconds (s : List Char) : Option Wall := do
  let (w, s) ← readMinutes s
  let s ← expect ':' s
  let (sec, s) ← readField 2 s
  let (nanos, s) ← readFraction s
  let w := { w with second := sec, nanos := nanos }
  if s.isEmpty ∧ w.exists? then return w else none

def readLocalMinutes (s : List Char) : Option Wall := do
  let (w, s) ← readMinutes s
  if s.isEmpty ∧ w.exists? then return w else none

def readLocal (s : List Char) : Option Wall := readLocalSeconds s <|> readLocalMinutes s

/-- The point in time at which the clocks of a zone show `w`. -/
def ofWall? (zone : Zone) (w : Wall) : Option Timestamp := do
  let offset ← zone.offsetOfWall (w.toTimestamp 0).seconds
  let t := w.toTimestamp offset
  if inRange t.seconds then return t else none

/-- Reads a timestamp: RFC 3339 text, or else a local time of the zone. -/
def read (zone : Zone) (s : List Char) : Except ReadError Timestamp :=
  match readRfc3339 s with
  | some t => .ok t
  | none =>
    match readLocal s with
    | none => .error .malformed
    | some w =>
      match ofWall? zone w with
      | some t => .ok t
      | none => .error .skipped

end RateDesk.Timestamp
