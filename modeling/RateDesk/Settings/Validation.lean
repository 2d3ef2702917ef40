import RateDesk.Settings.Basic
import RateDesk.Text.Blank

/-!
# Validation of settings

`Settings.violation?` finds the first rule that settings break: platforms in order, then the rules
for all of them.
-/

namespace RateDesk

inductive Violation where
  | noPlatforms
  | blankName
  | duplicateName (name : String)
  /-- An underscore separates platform and instrument in a feed. -/
  | underscoreInName (name : String)
  | zeroReadTimeout (name : String)
  | zeroPollInterval (name : String)
  | noInstruments (name : String)
  | zeroRetryDelay
  | zeroTtl
  | zeroEvictionInterval
deriving DecidableEq, Repr

namespace Violation

def message : Violation → String
  | noPlatforms => "No platforms configured"
  | blankName => "Platform with empty name"
  | duplicateName n => "Duplicate platform: " ++ n
  | underscoreInName n => "Platform name " ++ n ++ " must not contain '_'"
  | zeroReadTimeout n => "Platform " ++ n ++ ": read_timeout_secs must be positive"
  | zeroPollInterval n => "Platform " ++ n ++ ": poll_interval_ms must be positive"
  | noInstruments n => "Platform " ++ n ++ " has no instruments"
  | zeroRetryDelay => "retry.delay_secs must be positive"
  | zeroTtl => "cache.ttl_secs must be positive"
  | zeroEvictionInterval => "cache.eviction_interval_secs must be positive"

def toFailure (v : Violation) : Failure := .config v.message

end Violation

/-- The first rule that a platform breaks, given the names before it. -/
def PlatformSettings.violation? (p : PlatformSettings) (earlier : List String) : Option Violation :=
  if (Text.trim p.name.toList).isEmpty then some .blankName
  else if p.name ∈ earlier then some (.duplicateName p.name)
  else if '_' ∈ p.name.toList then some (.underscoreInName p.name)
  else if p.readTimeoutSecs = 0 then some (.zeroReadTimeout p.name)
  else if p.pollIntervalMs = 0 then some (.zeroPollInterval p.name)
  else if p.instruments.isEmpty then some (.noInstruments p.name)
  else none

namespace Settings

/-- The first rule that one of several platforms breaks, given the names before them. -/
def platformViolation? (earlier : List String) : List PlatformSettings → Option Violation
  | [] => none
  | p :: ps => (p.violation? earlier).or (platformViolation? (p.name :: earlier) ps)

/-- The first rule that what all platforms share breaks. -/
def sharedViolation? (s : Settings) : Option Violation :=
  if s.retry.delaySecs = 0 then some .zeroRetryDelay
  else if s.cache.ttlSecs = 0 then some .zeroTtl
  else if s.cache.evictionIntervalSecs = 0 then some .zeroEvictionInterval
  else none

/-- The first rule that settings break. -/
def violation? (s : Settings) : Option Violation :=
  if s.platforms.isEmpty then some .noPlatforms
  else (platformViolation? [] s.platforms).or s.sharedViolation?

def validate (s : Settings) : Except Violation Unit :=
  match s.violation? with
  | some v => .error v
  | none => .ok ()

end Settings

end RateDesk
