import RateDesk.Desk
import RateDesk.Platform.Status
import RateDesk.Venue.Basic

/-!
# The coordinator

One post per platform: its worker, its venue and the events that wait to be handled. All posts share
one desk. A fault ends the worker of its post and nothing else. Main definitions: `Post`,
`Coordinator`, `Coordinator.act`, `Coordinator.settle`, `Coordinator.start`, `Coordinator.deliver`,
`Coordinator.unsubscribe`, `Coordinator.advance`, `Coordinator.shutdown`.
-/

namespace RateDesk

/-- Whether a worker has begun, and whether it has ended. -/
inductive Phase where
  | waiting
  | running
  | ended
deriving DecidableEq, Repr

/-- A platform with its worker and its venue. -/
structure Post (σ : Type) where
  worker : Worker
  phase : Phase
  venue : σ
  /-- The events of the venue that were not handled yet, oldest first. -/
  inbox : List VenueEvent
  /-- Whether a connect was begun that the venue has not seen yet. -/
  dialing : Bool
  status : PlatformStatus

/-- What all posts share: the desk, and the alerts sent so far, oldest first. -/
structure Shared where
  desk : Desk
  alerts : List Alert

def Shared.mapMetrics (s : Shared) (f : Metrics → Metrics) : Shared :=
  { s with desk := { s.desk with metrics := f s.desk.metrics } }

namespace Post

variable {σ : Type} [Venue σ]

def ofSettings (p : PlatformSettings) (policy : RetrySettings) (venue : σ) (time : Timestamp) : Post σ where
  worker := Worker.ofSettings p policy
  phase := .waiting
  venue := venue
  inbox := []
  dialing := false
  status :=
    { platform := p.name, kind := Venue.kind venue, state := .disconnected, attempts := 0, limit := policy.limit.toNat,
      delaySecs := policy.delaySecs.toNat, subscriptions := [], updatedAt := time }

def present (p : Post σ) (state : PlatformState) (attempts : Nat) (time : Timestamp) : Post σ :=
  { p with status :=
      { platform := p.worker.platform, kind := Venue.kind p.venue, state := state, attempts := attempts,
        limit := p.worker.retry.limit, delaySecs := p.worker.retry.delaySecs,
        subscriptions := Venue.subscriptions p.venue, updatedAt := time } }

/-- What an effect leaves: the post, what is shared, the answer of the venue to an unsubscribe, and
a fault. -/
structure Outcome (σ : Type) where
  post : Post σ
  shared : Shared
  reply : Option (Except Failure Unit)
  fault : Option Fault

def handQuote (d : Derivation) (now : Now) (platform : String) (first : Bool) (instrument : String) (r : Rate)
    (s : Shared) : Shared × Option Fault :=
  let step : Desk.Step Unit := do
    Desk.count (.received platform first)
    if first then Desk.first now platform instrument r
    else
      let _ ← Desk.update d now platform instrument r
  match step.run s.desk with
  | (.ok _, desk) => ({ s with desk := desk }, none)
  | (.error f, desk) => ({ s with desk := desk }, some f)

def perform (d : Derivation) (now : Now) (p : Post σ) (s : Shared) : Effect → Outcome σ
  | .enter state attempts =>
    ⟨p.present state attempts now.time, s.mapMetrics (·.set (.state p.worker.platform) state.code), none, none⟩
  | .refresh state attempts => ⟨p.present state attempts now.time, s, none, none⟩
  | .countAttempt => ⟨p, s.mapMetrics (·.count (.attempts p.worker.platform)), none, none⟩
  | .connect => ⟨{ p with dialing := true }, s, none, none⟩
  | .subscribe i => ⟨{ p with venue := (Venue.subscribe i p.venue).2 }, s, none, none⟩
  | .unsubscribe i =>
    let (reply, venue) := Venue.unsubscribe i p.venue
    ⟨{ p with venue := venue }, s, some reply, none⟩
  | .quote first i r =>
    let (s, fault) := handQuote d now p.worker.platform first i r s
    ⟨p, s, none, fault⟩
  | .alert =>
    let a : Alert := ⟨p.worker.platform, p.worker.retry.limit, p.worker.retry.delaySecs⟩
    ⟨p, { s with alerts := s.alerts ++ [a] }, none, none⟩
  | .halt f => ⟨p, s, none, some f⟩

/-- Carries out effects up to a fault. -/
def performAll (d : Derivation) (now : Now) (p : Post σ) (s : Shared) : List Effect → Outcome σ
  | [] => ⟨p, s, none, none⟩
  | e :: es =>
    let o := perform d now p s e
    match o.fault with
    | some _ => o
    | none =>
      let rest := performAll d now o.post o.shared es
      { rest with reply := o.reply.or rest.reply }

/-- Carries out what a worker decided; a fault ends the worker. -/
def apply (d : Derivation) (now : Now) (p : Post σ) (s : Shared) (decision : Worker × List Effect) : Outcome σ :=
  let o := performAll d now { p with worker := decision.1 } s decision.2
  match o.fault with
  | some _ => { o with post := { o.post with phase := .ended, inbox := [] } }
  | none => o

def idle (p : Post σ) (s : Shared) : Outcome σ := ⟨p, s, none, none⟩

def begin (d : Derivation) (now : Now) (p : Post σ) (s : Shared) : Outcome σ :=
  if p.phase = .waiting then apply d now { p with phase := .running } s p.worker.begin else idle p s

def act (d : Derivation) (now : Now) (p : Post σ) (s : Shared) (i : WorkerInput) : Outcome σ :=
  if p.phase = .running then apply d now p s (p.worker.step now.instant i) else idle p s

/-- Puts an event of the venue where the worker will find it; a worker that ended finds nothing. -/
def push (p : Post σ) (es : List VenueEvent) : Post σ :=
  if p.phase = .ended then p else { p with inbox := p.inbox ++ es }

/-- What a post does next, if anything: the oldest event, else the connect that was begun, else the
retry that is due. -/
def turn? (d : Derivation) (now : Now) (p : Post σ) (s : Shared) : Option (Post σ × Shared) :=
  match p.phase, p.inbox with
  | .running, e :: r =>
    let o := act d now { p with inbox := r } s (.event e)
    some (o.post, o.shared)
  | _, _ =>
    if p.dialing then
      let (es, venue) := Venue.connect p.venue
      some ({ p with venue := venue, dialing := false }.push es, s)
    else if p.phase = .running ∧ p.worker.timer.any (· ≤ now.instant) then
      let o := act d now p s .retryDue
      some (o.post, o.shared)
    else none

/-- Takes turns until nothing is left to do, or `fuel` turns were taken. -/
def settle (d : Derivation) (now : Now) : (fuel : Nat) → Post σ → Shared → Post σ × Shared
  | 0, p, s => (p, s)
  | fuel + 1, p, s =>
    match turn? d now p s with
    | some (p, s) => settle d now fuel p s
    | none => (p, s)

def stop (p : Post σ) : Post σ :=
  if p.phase = .running then
    { p with phase := .ended, inbox := [], dialing := false, venue := Venue.disconnect p.venue }
  else p

end Post

/-! ## All posts -/

/-- The posts, what they share, and the steady clock. -/
structure Coordinator (σ : Type) where
  derivation : Derivation
  posts : List (Post σ)
  shared : Shared
  clock : Instant
  /-- Whether the workers have begun and were not told to stop. -/
  isOpen : Bool

namespace Coordinator

variable {σ : Type} [Venue σ]

def ofSettings (s : Settings) (build : PlatformSettings → Except Failure σ) (time : Timestamp) :
    Except Failure (Coordinator σ) := do
  let posts ← s.platforms.mapM fun p => do return Post.ofSettings p s.retry (← build p) time
  let gauges := s.platforms.foldl (fun m p => m.set (.state p.name) PlatformState.disconnected.code) Metrics.empty
  return {
    derivation := s.derivation
    posts := posts
    shared := ⟨{ Desk.empty s.cache.ttlSecs.toNat with metrics := gauges }, []⟩
    clock := 0
    isOpen := false }

/-- What the clocks show, given the calendar time. -/
def now (c : Coordinator σ) (time : Timestamp) : Now := ⟨c.clock, time⟩

def eachPost (c : Coordinator σ) (f : Post σ → Shared → Post σ × Shared) : Coordinator σ :=
  let (posts, shared) := c.posts.foldl (fun (ps, s) p => let (p, s) := f p s; (ps ++ [p], s)) ([], c.shared)
  { c with posts := posts, shared := shared }

abbrev maxTurns : Nat := 100000

def settle (c : Coordinator σ) (time : Timestamp) : Coordinator σ :=
  c.eachPost (Post.settle c.derivation (c.now time) maxTurns)

def start (c : Coordinator σ) (time : Timestamp) : Coordinator σ :=
  let c := c.eachPost fun p s => let o := Post.begin c.derivation (c.now time) p s; (o.post, o.shared)
  { c with isOpen := true }.settle time

def deliver (c : Coordinator σ) (time : Timestamp) (platform : String) (es : List VenueEvent) : Coordinator σ :=
  let posts := c.posts.map fun p => if p.worker.platform = platform then p.push es else p
  { c with posts := posts }.settle time

/-- Changes the first post of a platform. -/
def actOn (d : Derivation) (now : Now) (platform : String) (i : WorkerInput) (s : Shared) :
    List (Post σ) → List (Post σ) × Shared × Except Failure Unit
  | [] => ([], s, .error (.config ("Unknown platform: " ++ platform)))
  | p :: ps =>
    if p.worker.platform = platform then
      let o := p.act d now s i
      (o.post :: ps, o.shared, o.reply.getD (.error (.notConnected platform)))
    else
      let (ps, s, r) := actOn d now platform i s ps
      (p :: ps, s, r)

def unsubscribe (c : Coordinator σ) (time : Timestamp) (platform instrument : String) :
    Except Failure Unit × Coordinator σ :=
  let (posts, shared, reply) := actOn c.derivation (c.now time) platform (.unsubscribe instrument) c.shared c.posts
  (reply, { c with posts := posts, shared := shared }.settle time)

/-- The earliest retry that is due up to a reading of the clock. -/
def nextDue? (c : Coordinator σ) (target : Instant) : Option Instant :=
  ((c.posts.filterMap fun p => if p.phase = .running then p.worker.timer else none).filter (· ≤ target)).min?

/-- Moves the clock to a reading, stopping wherever a retry is due on the way. -/
def advanceTo (time : Timestamp) (target : Instant) : (fuel : Nat) → Coordinator σ → Coordinator σ
  | 0, c => { c with clock := target }
  | fuel + 1, c =>
    match c.nextDue? target with
    | some due => advanceTo time target fuel ({ c with clock := max c.clock due }.settle time)
    | none => { c with clock := target }

def advance (c : Coordinator σ) (time : Timestamp) (ms : Nat) : Coordinator σ :=
  (advanceTo time (c.clock + ms) maxTurns c).settle time

def shutdown (c : Coordinator σ) : Coordinator σ :=
  { c with posts := c.posts.map Post.stop, isOpen := false }

/-- The status of every platform, by name. -/
def statuses (c : Coordinator σ) : List PlatformStatus :=
  PlatformStatus.sorted (c.posts.map Post.status)

def status? (c : Coordinator σ) (platform : String) : Option PlatformStatus :=
  c.statuses.find? fun s => s.platform == platform

end Coordinator

end RateDesk
