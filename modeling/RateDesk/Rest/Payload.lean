import RateDesk.Feed.Line
import RateDesk.Json.Reader

/-!
# Bodies of a polled venue

The login request and its response, and the rate that a venue answers a poll with. Bid and ask may
be numbers or strings; both are read as decimals, so no digit is lost.
-/

namespace RateDesk

open Json

def loginRequest (username password : String) : String :=
  String.ofList ("\x7b\"username\":".toList ++ printString username.toList ++ ",\"password\":".toList ++
    printString password.toList ++ ['\x7d'])

/-- Refuses a field that was given before. -/
def allowOnce {α : Type} (name : String) : Option α → Except Json.Error Unit
  | some _ => .error (.duplicateField name)
  | none => .ok ()

/-- The value of a field that has to be there. -/
def required {α : Type} (name : String) : Option α → Except Json.Error α
  | some a => .ok a
  | none => .error (.missingField name)

/-! ## Login response -/

/-- The reader of a login response, which carries the bearer token. -/
def loginResponse : RecordReader (Option (List Char)) (List Char) where
  expected := "struct LoginResponse"
  width := 1
  start := none
  allow name key := if name = "apiKey".toList then allowOnce "apiKey" key else .ok ()
  member name key s :=
    if name = "apiKey".toList then (readText s).map fun (t, r) => (some t, r)
    else (skipValue s).map fun r => (key, r)
  element _ _ s := (readText s).map fun (t, r) => (some t, r)
  finish := required "apiKey"

/-! ## Rates -/

/-- A rate as a polled venue reports it. -/
structure RestRate where
  name : List Char
  bid : Decimal
  ask : Decimal
  timestamp : Timestamp
deriving DecidableEq

def RestRate.toRate (r : RestRate) (instrument : String) : Rate :=
  ⟨instrument, r.bid, r.ask, r.timestamp⟩

namespace RestRate

/-- The fields of a rate that were read so far. -/
structure Fields where
  name : Option (List Char) := none
  bid : Option Decimal := none
  ask : Option Decimal := none
  timestamp : Option Timestamp := none

/-- The text of a decimal's JSON value, which is a string or a number. -/
def decimalText : Json → Except Json.Error (List Char)
  | .string s => .ok s
  | .number n => .ok n
  | v => .error (.refused ("Expected decimal, got " ++ String.ofList v.print))

def readPrice (s : List Char) : Except Json.Error (Decimal × List Char) := do
  let (v, r) ← readValue (maxDepth - 1) s
  match readDecimal (← decimalText v) with
  | .ok x => return (x, r)
  | .error e => .error (.refused e.toFailure.message)

def readTime (zone : Time.Zone) (s : List Char) : Except Json.Error (Timestamp × List Char) := do
  let (t, r) ← readText s
  match readTimestamp zone t with
  | .ok t => return (t, r)
  | .error e => .error (.refused e.toFailure.message)

def place? (name : List Char) : Option Nat :=
  if name = "name".toList then some 0
  else if name = "bid".toList then some 1
  else if name = "ask".toList then some 2
  else if name = "timestamp".toList then some 3
  else none

/-- Refuses a second value for the field at a place. -/
def allow (place : Nat) (f : Fields) : Except Json.Error Unit :=
  match place with
  | 0 => allowOnce "name" f.name
  | 1 => allowOnce "bid" f.bid
  | 2 => allowOnce "ask" f.ask
  | _ => allowOnce "timestamp" f.timestamp

def readField (zone : Time.Zone) (place : Nat) (f : Fields) (s : List Char) :
    Except Json.Error (Fields × List Char) :=
  match place with
  | 0 => (readText s).map fun (v, r) => ({ f with name := some v }, r)
  | 1 => (readPrice s).map fun (v, r) => ({ f with bid := some v }, r)
  | 2 => (readPrice s).map fun (v, r) => ({ f with ask := some v }, r)
  | _ => (readTime zone s).map fun (v, r) => ({ f with timestamp := some v }, r)

/-- The reader of a rate; local times are those of the zone. -/
def reader (zone : Time.Zone) : RecordReader Fields RestRate where
  expected := "struct RestRate"
  width := 4
  start := {}
  allow name f :=
    match place? name with
    | some place => allow place f
    | none => .ok ()
  member name f s :=
    match place? name with
    | some place => readField zone place f s
    | none => (skipValue s).map fun r => (f, r)
  element place f s := readField zone place f s
  finish f := do
    return ⟨← required "name" f.name, ← required "bid" f.bid, ← required "ask" f.ask,
      ← required "timestamp" f.timestamp⟩

end RestRate

end RateDesk
