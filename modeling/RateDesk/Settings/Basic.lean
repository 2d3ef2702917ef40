import RateDesk.Cache.Basic
import RateDesk.Derivation
import RateDesk.Failure
import RateDesk.Text.Cut

/-!
# Settings

The platforms to watch and how to watch them, with the values that stand for what is not given. Main
definitions: `Settings`, `PlatformSettings`, `PlatformSettings.socketAddress`,
`PlatformSettings.resolvedBaseUrl`.
-/

namespace RateDesk

structure PlatformSettings where
  name : String
  kind : String
  host : Option String
  port : Option UInt16
  baseUrl : Option String
  username : String
  password : String
  instruments : List String
  pollIntervalMs : UInt64
  readTimeoutSecs : UInt64
  /-- Consecutive failed polls that take a platform down. -/
  maxPollFailures : UInt32
deriving DecidableEq, Repr

/-- How often and how soon a lost connection is tried again. -/
structure RetrySettings where
  limit : UInt32
  delaySecs : UInt64
deriving DecidableEq, Repr

/-- How long rates live, and how often dead ones are swept out. -/
structure CacheSettings where
  ttlSecs : UInt64
  evictionIntervalSecs : UInt64
deriving DecidableEq, Repr

structure Settings where
  platforms : List PlatformSettings
  retry : RetrySettings
  cache : CacheSettings
  derivation : Derivation
  ipcSocketPath : String
  healthPort : UInt16
  alertWebhookUrl : Option String
deriving DecidableEq, Repr

/-! ## What stands for what is not given -/

namespace PlatformSettings

abbrev defaultPollIntervalMs : UInt64 := 500

abbrev defaultReadTimeoutSecs : UInt64 := 60

abbrev defaultMaxPollFailures : UInt32 := 3

end PlatformSettings

def RetrySettings.standard : RetrySettings := ⟨12, 10⟩

def CacheSettings.standard : CacheSettings := ⟨1800, 60⟩

namespace Settings

abbrev defaultIpcSocketPath : String := "/tmp/fx-collector.sock"

abbrev defaultHealthPort : UInt16 := 9090

end Settings

/-! ## Addresses -/

namespace PlatformSettings

def socketAddress (p : PlatformSettings) : Except Failure String :=
  match p.host, p.port with
  | some host, some port => .ok (host ++ ":" ++ toString port)
  | _, _ => .error (.config ("Platform " ++ p.name ++ " requires host and port"))

/-- The address that requests to a polled venue begin with, without slashes at its end. -/
def resolvedBaseUrl (p : PlatformSettings) : Except Failure String :=
  match p.baseUrl with
  | some url =>
    if url.isEmpty then .error (.config ("Platform " ++ p.name ++ " requires base_url"))
    else .ok (String.ofList (Text.dropTrailing (· == '/') url.toList))
  | none => .error (.config ("Platform " ++ p.name ++ " requires base_url"))

end PlatformSettings

end RateDesk
