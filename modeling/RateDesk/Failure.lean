/-!
# Failures

What can go wrong between the desk and the outside world: twelve kinds of failure, each with one
text for operators.
-/

namespace RateDesk

/-- A failed call, with the detail that its text shows. -/
inductive Failure where
  | connection (detail : String)
  | authentication (reason : String)
  | notConnected (platform : String)
  | protocol (detail : String)
  | instrumentNotOffered (instrument : String)
  | restApi (detail : String)
  | ipc (detail : String)
  | config (detail : String)
  | unknownAdapter (platform kind : String)
  | serialization (detail : String)
  | metrics (detail : String)
  | timeout
deriving DecidableEq, Repr

namespace Failure

def message : Failure → String
  | connection d => "Connection error: " ++ d
  | authentication r => "Authentication failed: " ++ r
  | notConnected p => "Platform " ++ p ++ " is not connected"
  | protocol d => "Protocol error: " ++ d
  | instrumentNotOffered i => "Instrument not offered by venue: " ++ i
  | restApi d => "REST API error: " ++ d
  | ipc d => "IPC error: " ++ d
  | config d => "Configuration error: " ++ d
  | unknownAdapter p k => "Unknown adapter kind '" ++ k ++ "' for platform " ++ p
  | serialization d => "Serialization error: " ++ d
  | metrics d => "Metrics error: " ++ d
  | timeout => "Request timed out"

end Failure

end RateDesk
