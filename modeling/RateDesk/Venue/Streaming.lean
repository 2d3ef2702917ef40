import RateDesk.Feed.Command
import RateDesk.Feed.Line
import RateDesk.Platform.Worker
import RateDesk.Settings.Basic
import RateDesk.Venue.Wire

/-!
# Streaming venues

One session at a time: a connection on which commands are written and feed lines are read. Whoever
ends a session first claims its end; only a reader that claims the end of the stored session reports
it. Main definitions: `Dial`, `StreamingVenue`, `connect`, `subscribe`, `unsubscribe`, `disconnect`,
`receive`, `endOfStream`, `idle`.
-/

namespace RateDesk

/-! ## Dialing -/

/-- What comes of dialing a venue, logging in and waiting for its first line. -/
inductive Dial where
  /-- No connection is made. -/
  | refused (why : String)
  /-- The connection breaks before a line arrives. -/
  | broken (why : String)
  | timedOut
  /-- The venue closes the connection without a line. -/
  | closed
  | greeted (line : List Char)
deriving DecidableEq, Repr

namespace Dial

/-- Milliseconds that a venue has for its first line. -/
abbrev patience : Nat := 10000

/-- Whether a connection was made, so that the login was written. -/
def connects : Dial → Bool
  | refused _ => false
  | _ => true

/-- Whether a session can begin: the first line has to report success. -/
def outcome (zone : Time.Zone) : Dial → Except Failure Unit
  | refused why => .error (.connection why)
  | broken why => .error (.connection why)
  | timedOut => .error .timeout
  | closed => .error (.connection "Server closed connection without response")
  | greeted line =>
    match FeedMessage.read zone line with
    | .ok (.success _) => .ok ()
    | .ok (.error reason) => .error (.authentication (String.ofList reason))
    | _ => .error (.protocol ("Unexpected handshake: " ++ String.ofList line))

/-- What a line that is not UTF-8 is called. -/
abbrev damaged : String := "stream did not contain valid UTF-8"

/-- The dial to a venue that answers with some bytes, and then may close; and the bytes after the
first line. -/
def ofBytes (bytes : List UInt8) (closes : Bool) : Dial × List UInt8 :=
  let greet (line : List UInt8) : Dial := ((Wire.lineText? line).map greeted).getD (broken damaged)
  match bytes.dropWhile (· ≠ 10) with
  | _ :: rest => (greet (Wire.dropReturn (bytes.takeWhile (· ≠ 10))), rest)
  | [] => (if !closes then timedOut else if bytes.isEmpty then closed else greet bytes, [])

end Dial

/-! ## The venue -/

/-- A session: its number, and the bytes that came after the last whole line. -/
structure StreamSession where
  id : Nat
  pending : List UInt8
deriving DecidableEq, Repr

structure StreamingVenue where
  platform : String
  username : String
  password : String
  readTimeoutSecs : Nat
  zone : Time.Zone
  session : Option StreamSession
  /-- The number of the last connection, zero before the first. -/
  lastId : Nat
  /-- The sessions whose end was claimed. -/
  claimed : List Nat
  subscriptions : List String
  /-- The instruments that had a quote since they were last subscribed. -/
  seen : List String
  /-- The commands written so far, oldest first, each with the number of its connection. -/
  sent : List (Nat × FeedCommand)
deriving DecidableEq

namespace StreamingVenue

abbrev kindName : String := "streaming"

def ofSettings (zone : Time.Zone) (p : PlatformSettings) : Except Failure StreamingVenue := do
  let _ ← p.socketAddress
  return {
    platform := p.name
    username := p.username
    password := p.password
    readTimeoutSecs := p.readTimeoutSecs.toNat
    zone := zone
    session := none
    lastId := 0
    claimed := []
    subscriptions := []
    seen := []
    sent := [] }

/-! ## Steps -/

def take (v : StreamingVenue) : Option StreamSession × StreamingVenue :=
  (v.session, { v with session := none })

/-- Claims the end of a session, and says whether it was claimed before. -/
def claim (v : StreamingVenue) (id : Nat) : Bool × StreamingVenue :=
  (id ∈ v.claimed, if id ∈ v.claimed then v else { v with claimed := id :: v.claimed })

def reset (v : StreamingVenue) : StreamingVenue := { v with subscriptions := [], seen := [] }

def write (v : StreamingVenue) (id : Nat) (c : FeedCommand) : StreamingVenue :=
  { v with sent := v.sent ++ [(id, c)] }

def dial (v : StreamingVenue) : StreamingVenue :=
  { v with lastId := v.lastId + 1 }.write (v.lastId + 1) (.connect v.username v.password)

/-- Stores the session of the last connection and reports it. -/
def store (v : StreamingVenue) : List VenueEvent × StreamingVenue :=
  ([.connected true], { v with session := some ⟨v.lastId, []⟩ })

/-- Reports the end of a session that is still the stored one. -/
def reportEnd (v : StreamingVenue) (id : Nat) : List VenueEvent × StreamingVenue :=
  if v.session.map StreamSession.id = some id then
    ([.disconnected], { v with session := none }.reset)
  else ([], v)

/-- What the reader of a session does when its stream ends. -/
def readerEnds (v : StreamingVenue) (id : Nat) : List VenueEvent × StreamingVenue :=
  let (before, v) := v.claim id
  if before then ([], v) else v.reportEnd id

/-- Ends the stored session on purpose, with a parting command. -/
def closeSession (v : StreamingVenue) : StreamingVenue :=
  match v.take with
  | (none, v) => v
  | (some s, v) => (v.claim s.id).2.write s.id (.disconnect v.username v.password)

/-! ## Calls -/

/-- Begins a new session in place of the stored one, given what comes of dialing. -/
def connect (v : StreamingVenue) (d : Dial) : Except Failure Unit × List VenueEvent × StreamingVenue :=
  let v := v.closeSession.reset
  let v := if d.connects then v.dial else v
  match d.outcome v.zone with
  | .error f => (.error f, [.connected false], v)
  | .ok _ =>
    let (es, v) := v.store
    (.ok (), es, v)

/-- Writes a command on the stored session; `broken` says why writing fails, if it does. -/
def send (v : StreamingVenue) (c : FeedCommand) (broken : Option String) : Except Failure Unit × StreamingVenue :=
  match v.session, broken with
  | none, _ => (.error (.notConnected v.platform), v)
  | some _, some why => (.error (.connection why), v)
  | some s, none => (.ok (), v.write s.id c)

def subscribe (v : StreamingVenue) (i : String) (broken : Option String) : Except Failure Unit × StreamingVenue :=
  if i ∈ v.subscriptions then (.ok (), v)
  else
    let (r, w) := { v with subscriptions := i :: v.subscriptions }.send (.subscribe v.platform i) broken
    match r with
    | .ok _ => (r, w)
    | .error _ => (r, { w with subscriptions := w.subscriptions.filter (· ≠ i) })

def unsubscribe (v : StreamingVenue) (i : String) (broken : Option String) : Except Failure Unit × StreamingVenue :=
  if i ∈ v.subscriptions then
    let v := { v with subscriptions := v.subscriptions.filter (· ≠ i), seen := v.seen.filter (· ≠ i) }
    v.send (.unsubscribe v.platform i) broken
  else (.ok (), v)

def disconnect (v : StreamingVenue) : StreamingVenue := v.closeSession.reset

def subscribed (v : StreamingVenue) : List String := v.subscriptions.mergeSort fun a b => decide (a ≤ b)

/-! ## Reading -/

def lower (s : List Char) : List Char := s.map Char.toLower

/-- Reports a quote: the first one of its instrument, or a later one. -/
def report (v : StreamingVenue) (i : String) (r : Rate) : List VenueEvent × StreamingVenue :=
  if i ∈ v.seen then ([.update i r], v) else ([.available i r], { v with seen := i :: v.seen })

/-- Handles a line: a quote of this platform, in any case, for a subscribed instrument is reported;
nothing else is. -/
def handleLine (v : StreamingVenue) (line : List Char) : List VenueEvent × StreamingVenue :=
  match FeedMessage.read v.zone line with
  | .ok (.quote q) =>
    let i := String.ofList q.instrument
    if lower q.platform = lower v.platform.toList ∧ i ∈ v.subscriptions then v.report i q.toRate else ([], v)
  | _ => ([], v)

/-- Handles lines up to one that is not UTF-8, which ends the session. -/
def handleLines (v : StreamingVenue) (id : Nat) : List (List UInt8) → List VenueEvent × StreamingVenue
  | [] => ([], v)
  | l :: ls =>
    match Wire.lineText? l with
    | none => v.readerEnds id
    | some t =>
      let (es, v) := v.handleLine t
      let (fs, v) := v.handleLines id ls
      (es ++ fs, v)

def receive (v : StreamingVenue) (bytes : List UInt8) : List VenueEvent × StreamingVenue :=
  match v.session with
  | none => ([], v)
  | some s =>
    let (lines, rest) := Wire.cutLines (s.pending ++ bytes)
    { v with session := some { s with pending := rest } }.handleLines s.id (lines.map Wire.dropReturn)

/-- Handles the end of the bytes of the stored session: what came after the last line is a line too,
with every byte of it. -/
def endOfStream (v : StreamingVenue) : List VenueEvent × StreamingVenue :=
  match v.session with
  | none => ([], v)
  | some s =>
    let (es, v) := v.handleLines s.id (if s.pending.isEmpty then [] else [s.pending])
    let (fs, v) := v.readerEnds s.id
    (es ++ fs, v)

/-- Handles a time without bytes, which ends the session if it is too long. -/
def idle (v : StreamingVenue) (ms : Nat) : List VenueEvent × StreamingVenue :=
  match v.session with
  | none => ([], v)
  | some s => if v.readTimeoutSecs * 1000 ≤ ms then v.readerEnds s.id else ([], v)

def written (v : StreamingVenue) (id : Nat) : String :=
  String.join ((v.sent.filter fun p => p.1 = id).map fun p => p.2.line)

end StreamingVenue

end RateDesk
