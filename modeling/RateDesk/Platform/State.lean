import RateDesk.Settings.Basic

/-!
# The state of a platform

Main definitions: `PlatformState` and `RetryState`.
-/

namespace RateDesk

/-- How far the connection to a platform has got. -/
inductive PlatformState where
  | disconnected
  | connecting
  | connected
  | subscribed
  /-- Given up for good. -/
  | failed
deriving DecidableEq, Repr

namespace PlatformState

def code : PlatformState → Nat
  | disconnected => 0
  | connecting => 1
  | connected => 2
  | subscribed => 3
  | failed => 4

def name : PlatformState → String
  | disconnected => "disconnected"
  | connecting => "connecting"
  | connected => "connected"
  | subscribed => "subscribed"
  | failed => "failed"

def all : List PlatformState := [disconnected, connecting, connected, subscribed, failed]

def ofName? (s : String) : Option PlatformState := all.find? fun x => x.name == s

def acceptsRates : PlatformState → Bool
  | disconnected => false
  | failed => false
  | _ => true

end PlatformState

/-- How often a platform was tried again in vain, and how often it may be. -/
structure RetryState where
  platform : String
  /-- Attempts since the last connection that succeeded. -/
  attempts : Nat
  limit : Nat
  delaySecs : Nat
deriving DecidableEq, Repr

namespace RetryState

def start (platform : String) (policy : RetrySettings) : RetryState :=
  ⟨platform, 0, policy.limit.toNat, policy.delaySecs.toNat⟩

def reset (r : RetryState) : RetryState := { r with attempts := 0 }

def exhausted (r : RetryState) : Bool := decide (r.limit ≤ r.attempts)

/-- The milliseconds between a loss and the next attempt. -/
def delay (r : RetryState) : Nat := r.delaySecs * 1000

end RetryState

end RateDesk
