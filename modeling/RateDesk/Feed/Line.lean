import RateDesk.Decimal.Text
import RateDesk.Failure
import RateDesk.Quote
import RateDesk.Time.Reader

/-!
# Feed lines

A streaming venue sends one message a line: a status (`SUCCESS`, `INFO`, `ERROR`), or a quote such
as `TCP_USDTRY|B:34.40|A:34.50|T:2024-05-01T12:30:45Z`. Main definitions: `readDecimal`,
`readTimestamp`, `FeedMessage`, `FeedMessage.read`.
-/

namespace RateDesk

open Text

/-- Why a line or a field of a venue cannot be used. -/
inductive FeedError where
  | decimal (text : List Char) (why : Decimal.ReadError)
  | timestamp (text : List Char) (why : Timestamp.ReadError)
  | feedName (name : List Char)
  | missingField (field line : List Char)
  | missingTimestamp (line : List Char)
deriving DecidableEq, Repr

namespace FeedError

/-- The text shown for a line or field that cannot be used. -/
def message : FeedError → String
  | decimal t why => "Invalid decimal '" ++ String.ofList t ++ "': " ++ why.message
  | timestamp t .malformed => "Invalid timestamp: " ++ String.ofList t
  | timestamp t .skipped => "Nonexistent local time: " ++ String.ofList t
  | feedName n => "Invalid feed name: " ++ String.ofList n
  | missingField f l => "Missing " ++ String.ofList f ++ " field: " ++ String.ofList l
  | missingTimestamp l => "Missing timestamp: " ++ String.ofList l

/-- The failure that a line or field of a venue amounts to. -/
def toFailure (e : FeedError) : Failure := .protocol e.message

end FeedError

def readDecimal (s : List Char) : Except FeedError Decimal :=
  match Decimal.read (trim s) with
  | .ok x => .ok x
  | .error why => .error (.decimal (trim s) why)

/-- Reads a timestamp between white space; local times are those of the zone. -/
def readTimestamp (zone : Time.Zone) (s : List Char) : Except FeedError Timestamp :=
  match Timestamp.read zone (trim s) with
  | .ok t => .ok t
  | .error why => .error (.timestamp (trim s) why)

structure FeedQuote where
  platform : List Char
  instrument : List Char
  bid : Decimal
  ask : Decimal
  timestamp : Timestamp
deriving DecidableEq

def FeedQuote.toRate (q : FeedQuote) : Rate := ⟨String.ofList q.instrument, q.bid, q.ask, q.timestamp⟩

inductive FeedMessage where
  | quote (q : FeedQuote)
  | success (text : List Char)
  | info (text : List Char)
  | error (text : List Char)
  | unknown (line : List Char)
deriving DecidableEq

namespace FeedMessage

def isLineEnd (c : Char) : Bool := c == '\r' || c == '\n'

/-- The text after a status word, without the bars before it. -/
def statusText (s : List Char) : List Char := s.dropWhile (· == '|')

/-- The platform and the instrument of a feed name, neither of them empty. -/
def readName (name : List Char) : Except FeedError (List Char × List Char) :=
  match cutAt '_' name with
  | some (p, i) => if p.isEmpty ∨ i.isEmpty then .error (.feedName name) else .ok (p, i)
  | none => .error (.feedName name)

def readField (label line : List Char) (part : Option (List Char)) : Except FeedError (List Char) :=
  match part.bind (afterPrefix? label) with
  | some v => .ok v
  | none => .error (.missingField label line)

/-- Reads a quote: name, bid, ask and timestamp between bars; further fields are ignored. -/
def readQuote (zone : Time.Zone) (line : List Char) : Except FeedError FeedQuote := do
  let parts := fields '|' line
  let (platform, instrument) ← readName (parts.headD [])
  let bid ← readField ['B', ':'] line parts[1]?
  let ask ← readField ['A', ':'] line parts[2]?
  match parts[3]?.bind (afterPrefix? ['T', ':']) with
  | none => .error (.missingTimestamp line)
  | some t =>
    let bid ← readDecimal bid
    let ask ← readDecimal ask
    return ⟨platform, instrument, bid, ask, ← readTimestamp zone t⟩

/-- Whether a line begins with a feed name: it has a bar and an underscore before the first one. -/
def namesFeed (line : List Char) : Bool :=
  match cutAt '|' line with
  | some (name, _) => name.contains '_'
  | none => false

/-- Reads a line; line ends at its end are ignored. -/
def read (zone : Time.Zone) (raw : List Char) : Except FeedError FeedMessage :=
  let line := dropTrailing isLineEnd raw
  match afterPrefix? "SUCCESS".toList line with
  | some r => .ok (.success (statusText r))
  | none =>
    match afterPrefix? "INFO".toList line with
    | some r => .ok (.info (statusText r))
    | none =>
      match afterPrefix? "ERROR".toList line with
      | some r => .ok (.error (statusText r))
      | none => if namesFeed line then (readQuote zone line).map .quote else .ok (.unknown line)

end FeedMessage

end RateDesk
