import RateDesk.Platform.State
import RateDesk.Quote
import RateDesk.Time.Clock

/-!
# The worker of a platform

A worker decides what an event of its venue, a command or its retry timer means. It answers with a
list of effects, in the order in which they happen. Main definitions: `VenueEvent`, `WorkerInput`,
`Effect`, `Worker`, `Worker.begin`, `Worker.step`.
-/

namespace RateDesk

inductive VenueEvent where
  | connected (ok : Bool)
  | disconnected
  /-- The first quote for an instrument. -/
  | available (instrument : String) (rate : Rate)
  /-- A later quote for an instrument. -/
  | update (instrument : String) (rate : Rate)
deriving DecidableEq

inductive WorkerInput where
  | event (e : VenueEvent)
  | unsubscribe (instrument : String)
  | retryDue
deriving DecidableEq

inductive Effect where
  /-- Shows a new state, on the gauge and in the status. -/
  | enter (state : PlatformState) (attempts : Nat)
  /-- Shows the state again in the status. -/
  | refresh (state : PlatformState) (attempts : Nat)
  | countAttempt
  /-- Begins to connect to the venue. -/
  | connect
  | subscribe (instrument : String)
  | unsubscribe (instrument : String)
  /-- Counts a quote and hands it to the desk. -/
  | quote (first : Bool) (instrument : String) (rate : Rate)
  /-- Tells operators that the platform was given up. -/
  | alert
  /-- Stops the worker with a fault. -/
  | halt (f : Fault)
deriving DecidableEq

structure Worker where
  platform : String
  /-- What is to be subscribed after every successful connect. -/
  instruments : List String
  state : PlatformState
  retry : RetryState
  /-- When the next connect is due, if one is. -/
  timer : Option Instant
deriving DecidableEq

namespace Worker

def ofSettings (p : PlatformSettings) (policy : RetrySettings) : Worker :=
  ⟨p.name, p.instruments, .disconnected, RetryState.start p.name policy, none⟩

def begin (w : Worker) : Worker × List Effect :=
  ({ w with state := .connecting }, [.enter .connecting w.retry.attempts, .countAttempt, .connect])

/-- Subscribes everything after a successful connect, unless the platform was given up. -/
def onConnected (w : Worker) : Worker × List Effect :=
  if w.state = .failed then (w, [])
  else
    ({ w with state := .subscribed, retry := w.retry.reset },
      .enter .connected 0 :: w.instruments.map .subscribe ++ [.enter .subscribed 0])

/-- Waits for the next attempt after a failed connect or a lost connection, or gives up when none is
left. A worker that waits already, or gave up, does nothing. -/
def onLost (w : Worker) (now : Instant) : Worker × List Effect :=
  if w.state = .disconnected ∨ w.state = .failed then (w, [])
  else if w.retry.exhausted then
    ({ w with state := .failed }, [.enter .failed w.retry.attempts, .alert])
  else
    let retry := { w.retry with attempts := w.retry.attempts + 1 }
    let w := { w with state := .disconnected, retry := retry }
    match now.after retry.delay with
    | .ok due => ({ w with timer := some due }, [.enter .disconnected retry.attempts])
    | .error f => (w, [.enter .disconnected retry.attempts, .halt f])

def onQuote (w : Worker) (first : Bool) (instrument : String) (r : Rate) : Worker × List Effect :=
  if w.state.acceptsRates then (w, [.quote first instrument r]) else (w, [])

def onEvent (w : Worker) (now : Instant) : VenueEvent → Worker × List Effect
  | .connected true => w.onConnected
  | .connected false => w.onLost now
  | .disconnected => w.onLost now
  | .available instrument r => w.onQuote true instrument r
  | .update instrument r => w.onQuote false instrument r

def onUnsubscribe (w : Worker) (instrument : String) : Worker × List Effect :=
  ({ w with instruments := w.instruments.filter (· ≠ instrument) },
    [.unsubscribe instrument, .refresh w.state w.retry.attempts])

def step (w : Worker) (now : Instant) : WorkerInput → Worker × List Effect
  | .event e => w.onEvent now e
  | .unsubscribe instrument => w.onUnsubscribe instrument
  | .retryDue => { w with timer := none }.begin

end Worker

end RateDesk
