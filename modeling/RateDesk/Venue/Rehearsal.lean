import RateDesk.Venue.Polling

/-!
# Polled venues that answer from a script

A rehearsal of a polled venue: replies to logins, and for each instrument replies to its polls, are
used up one by one. A request that finds none left waits. Main definitions: `PollingRehearsal`,
`connect`, `subscribe`, `unsubscribe`, `disconnect`, `timeOut`, `replace`.
-/

namespace RateDesk

/-- A polled venue, the replies it has left, and what it was asked. -/
structure PollingRehearsal where
  venue : PollingVenue
  /-- The replies to logins that are left. -/
  logins : List HttpReply
  /-- The replies to polls that are left, by instrument. -/
  replies : List (String × List HttpReply)
  /-- The jobs whose request has no reply yet. -/
  waiting : List PollTask
  /-- All requests so far, oldest first. -/
  requests : List HttpRequest

namespace PollingRehearsal

def start (venue : PollingVenue) (logins : List HttpReply) (replies : List (String × List HttpReply)) :
    PollingRehearsal := ⟨venue, logins, replies, [], []⟩

def note (r : PollingRehearsal) (q : HttpRequest) : PollingRehearsal :=
  { r with requests := r.requests ++ [q] }

def left (r : PollingRehearsal) (i : String) : List HttpReply := (r.replies.lookup i).getD []

/-- Replaces the replies for an instrument; a request that waits goes on waiting. -/
def replace (r : PollingRehearsal) (i : String) (replies : List HttpReply) : PollingRehearsal :=
  { r with replies := (i, replies) :: r.replies.filter (fun p => p.1 ≠ i) }

/-- Puts the venue in place of the one before, and drops the requests of cancelled jobs. -/
def withVenue (r : PollingRehearsal) (v : PollingVenue) : PollingRehearsal :=
  { r with venue := v, waiting := r.waiting.filter fun t => t.mark ∉ v.cancelled }

/-! ## Polls -/

/-- Lets a job poll with the replies that are left for its instrument, until it stops or waits. -/
def pollWith (r : PollingRehearsal) (t : PollTask) : List HttpReply → List VenueEvent × PollingRehearsal
  | [] =>
    let r := (r.note (r.venue.pollRequest t)).replace t.instrument []
    ([], { r with waiting := r.waiting ++ [t] })
  | reply :: rest =>
    let (es, next, venue) := r.venue.settle t (readPoll r.venue.zone t.instrument reply)
    let r := (r.note (r.venue.pollRequest t)).withVenue venue
    match next with
    | none => (es, r.replace t.instrument rest)
    | some t =>
      let (fs, r) := r.pollWith t rest
      (es ++ fs, r)

def poll (r : PollingRehearsal) (t : PollTask) : List VenueEvent × PollingRehearsal :=
  if t.mark ∈ r.venue.cancelled then ([], r) else r.pollWith t (r.left t.instrument)

def pollAll (r : PollingRehearsal) : List PollTask → List VenueEvent × PollingRehearsal
  | [] => ([], r)
  | t :: ts =>
    let (es, r) := r.poll t
    let (fs, r) := r.pollAll ts
    (es ++ fs, r)

/-- Lets the requests of some jobs time out; the jobs that go on come back. -/
def failAll (r : PollingRehearsal) : List PollTask → List VenueEvent × List PollTask × PollingRehearsal
  | [] => ([], [], r)
  | t :: ts =>
    let (es, next, venue) := r.venue.settle t .failed
    let (fs, going, r) := (r.withVenue venue).failAll ts
    (es ++ fs, next.toList ++ going, r)

/-- Lets every request that waits time out; then the jobs that go on poll again. -/
def timeOut (r : PollingRehearsal) : List VenueEvent × PollingRehearsal :=
  let (es, going, r) := { r with waiting := [] }.failAll r.waiting
  let (fs, r) := r.pollAll going
  (es ++ fs, r)

/-! ## Calls -/

/-- Logs in with the next reply; a login without a reply times out. -/
def connect (r : PollingRehearsal) : Except LoginFailure Unit × List VenueEvent × PollingRehearsal :=
  let (result, es, venue) := r.venue.connect (readLogin (r.logins.headD .timedOut))
  (result, es, { (r.note r.venue.loginRequest).withVenue venue with logins := r.logins.drop 1 })

def subscribe (r : PollingRehearsal) (i : String) : Except Failure Unit × List VenueEvent × PollingRehearsal :=
  match r.venue.subscribe i with
  | (.error f, venue) => (.error f, [], r.withVenue venue)
  | (.ok none, venue) => (.ok (), [], r.withVenue venue)
  | (.ok (some t), venue) =>
    let (es, r) := (r.withVenue venue).poll t
    (.ok (), es, r)

def unsubscribe (r : PollingRehearsal) (i : String) : PollingRehearsal :=
  r.withVenue (r.venue.unsubscribe i)

def disconnect (r : PollingRehearsal) : PollingRehearsal := r.withVenue r.venue.disconnect

end PollingRehearsal

end RateDesk
