import RateDesk.Platform.Worker
import RateDesk.Rest.Payload
import RateDesk.Settings.Basic
import RateDesk.Venue.Http

/-!
# Polled venues

A login gives a token; then one job per subscribed instrument asks for its rate again and again. A
job that fails too often takes the whole platform down, and that is reported once. Main definitions:
`PollingVenue`, `PollTask`, `PollResult`, `connect`, `subscribe`, `unsubscribe`, `disconnect`,
`settle`.
-/

namespace RateDesk

/-! ## Logging in -/

inductive LoginFailure where
  | timedOut
  | unreachable
  | status (code : Nat)
  | body (e : Json.Error)
deriving DecidableEq, Repr

namespace LoginFailure

def toFailure : LoginFailure → Failure
  | timedOut => .timeout
  | unreachable => .restApi "error sending request"
  | status code => .authentication ("Login returned status " ++ statusLine code)
  | body e => .protocol e.message

end LoginFailure

def readLogin : HttpReply → Except LoginFailure String
  | .timedOut => .error .timedOut
  | .dropped => .error .unreachable
  | .answered code bytes =>
    if code ≠ 200 then .error (.status code)
    else
      match loginResponse.readAll (Text.decodeLossy bytes) with
      | .ok key => .ok (String.ofList key)
      | .error e => .error (.body e)

/-! ## Polls -/

inductive PollResult where
  | quote (r : Rate)
  /-- The venue does not know the instrument. -/
  | notOffered
  | malformed
  | failed
deriving DecidableEq

def readPoll (zone : Time.Zone) (instrument : String) : HttpReply → PollResult
  | .timedOut => .failed
  | .dropped => .failed
  | .answered code bytes =>
    if code = 200 then
      match (RestRate.reader zone).readAll (Text.decodeLossy bytes) with
      | .ok r => .quote (r.toRate instrument)
      | .error _ => .malformed
    else if code = 400 then .notOffered
    else .failed

/-! ## The venue -/

/-- A job as it runs: the mark it is cancelled by, and its failures since the last rate. -/
structure PollTask where
  mark : Nat
  instrument : String
  token : String
  failures : Nat
deriving DecidableEq, Repr

structure PollingVenue where
  platform : String
  baseUrl : String
  username : String
  password : String
  zone : Time.Zone
  /-- Consecutive failures of one job that take the platform down; at least one. -/
  maxFailures : Nat
  token : Option String
  /-- The instruments with a job, each with the mark of its job. -/
  jobs : List (String × Nat)
  lastMark : Nat
  /-- The marks of cancelled jobs. -/
  cancelled : List Nat
  seen : List String
  /-- Whether a job has taken the platform down since the last login. -/
  disconnecting : Bool
deriving DecidableEq

namespace PollingVenue

abbrev kindName : String := "polling"

def ofSettings (zone : Time.Zone) (p : PlatformSettings) : Except Failure PollingVenue := do
  let baseUrl ← p.resolvedBaseUrl
  return {
    platform := p.name
    baseUrl := baseUrl
    username := p.username
    password := p.password
    zone := zone
    maxFailures := max p.maxPollFailures.toNat 1
    token := none
    jobs := []
    lastMark := 0
    cancelled := []
    seen := []
    disconnecting := false }

def loginRequest (v : PollingVenue) : HttpRequest :=
  ⟨"POST", "/auth/login", none, some "application/json", RateDesk.loginRequest v.username v.password⟩

def pollRequest (v : PollingVenue) (t : PollTask) : HttpRequest :=
  ⟨"GET", "/api/rates/" ++ v.platform ++ "_" ++ t.instrument, some ("Bearer " ++ t.token), none, ""⟩

/-! ## Calls -/

def reset (v : PollingVenue) : PollingVenue :=
  { v with cancelled := v.jobs.map Prod.snd ++ v.cancelled, jobs := [], token := none, seen := [] }

/-- Logs in anew, given what comes of it. -/
def connect (v : PollingVenue) (login : Except LoginFailure String) :
    Except LoginFailure Unit × List VenueEvent × PollingVenue :=
  let v := v.reset
  match login with
  | .ok token => (.ok (), [.connected true], { v with token := some token, disconnecting := false })
  | .error f => (.error f, [.connected false], v)

def subscribe (v : PollingVenue) (i : String) : Except Failure (Option PollTask) × PollingVenue :=
  match v.token with
  | none => (.error (.notConnected v.platform), v)
  | some token =>
    if (v.jobs.lookup i).isSome then (.ok none, v)
    else
      let mark := v.lastMark + 1
      (.ok (some ⟨mark, i, token, 0⟩), { v with jobs := (i, mark) :: v.jobs, lastMark := mark })

def unsubscribe (v : PollingVenue) (i : String) : PollingVenue :=
  match v.jobs.lookup i with
  | none => v
  | some mark =>
    { v with
      jobs := v.jobs.filter (fun p => p.1 ≠ i)
      cancelled := mark :: v.cancelled
      seen := v.seen.filter (· ≠ i) }

def disconnect (v : PollingVenue) : PollingVenue := v.reset

def subscribed (v : PollingVenue) : List String :=
  (v.jobs.map Prod.fst).mergeSort fun a b => decide (a ≤ b)

/-! ## Jobs -/

/-- Removes a job that ended by itself. The quote mark of its instrument goes in any case, the entry
of the instrument only if it is this job's. -/
def retire (v : PollingVenue) (t : PollTask) : PollingVenue :=
  { v with
    cancelled := t.mark :: v.cancelled
    jobs :=
      if v.jobs.lookup t.instrument = some t.mark then v.jobs.filter (fun p => p.1 ≠ t.instrument)
      else v.jobs
    seen := v.seen.filter (· ≠ t.instrument) }

/-- Takes the platform down, unless a job has done so since the last login. -/
def takeDown (v : PollingVenue) : List VenueEvent × PollingVenue :=
  if v.disconnecting then ([], v) else ([.disconnected], { v.reset with disconnecting := true })

/-- Reports a quote: the first one of its instrument, or a later one. -/
def report (v : PollingVenue) (i : String) (r : Rate) : List VenueEvent × PollingVenue :=
  if i ∈ v.seen then ([.update i r], v) else ([.available i r], { v with seen := i :: v.seen })

/-- What a job does with the result of a poll: the events, whether and how it goes on, and the venue
after it. The result of a cancelled job counts for nothing. -/
def settle (v : PollingVenue) (t : PollTask) (r : PollResult) : List VenueEvent × Option PollTask × PollingVenue :=
  if t.mark ∈ v.cancelled then ([], none, v)
  else
    match r with
    | .quote rate =>
      let (es, v) := v.report t.instrument rate
      (es, some { t with failures := 0 }, v)
    | .notOffered => ([], none, v.retire t)
    | .malformed => ([], some t, v)
    | .failed =>
      if v.maxFailures ≤ t.failures + 1 then
        let (es, v) := v.takeDown
        (es, none, v)
      else ([], some { t with failures := t.failures + 1 }, v)

end PollingVenue

end RateDesk
