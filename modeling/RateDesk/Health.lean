import RateDesk.Failure
import RateDesk.Json.Basic
import RateDesk.Metrics
import RateDesk.Platform.Status
import RateDesk.Text.Cut

/-!
# Health and metrics over HTTP

Two routes: `/health` tells in JSON how the platforms do, `/metrics` exposes the metrics as text.
Main definitions: `HealthReport`, `respond`, `serveEnd`.
-/

namespace RateDesk

structure HealthReport where
  cachedEntries : Nat
  /-- One status per platform, by name. -/
  platforms : List PlatformStatus

namespace HealthReport

def ofStatuses (cachedEntries : Nat) (ss : List PlatformStatus) : HealthReport :=
  ⟨cachedEntries, PlatformStatus.sorted ss⟩

/-- Whether a platform was given up. -/
def isDegraded (r : HealthReport) : Bool := r.platforms.any fun s => s.state == .failed

def status (r : HealthReport) : String := if r.isDegraded then "degraded" else "healthy"

end HealthReport

/-! ## Bodies -/

namespace Json

def ofString (s : String) : Json := string s.toList

def ofNat (n : Nat) : Json := number (Text.printNat n)

def ofMembers (ms : List (String × Json)) : Json := object (ms.map fun m => (m.1.toList, m.2))

end Json

/-- A time with its offset written in digits. -/
def Timestamp.printOffset (t : Timestamp) : List Char := t.print.dropLast ++ "+00:00".toList

def PlatformStatus.toJson (s : PlatformStatus) : Json :=
  Json.ofMembers
    [("platform", .ofString s.platform), ("kind", .ofString s.kind), ("state", .ofString s.state.name),
      ("attempts", .ofNat s.attempts), ("limit", .ofNat s.limit), ("delay_secs", .ofNat s.delaySecs),
      ("subscriptions", .array (s.subscriptions.map Json.ofString)), ("updated_at", .string s.updatedAt.print)]

def HealthReport.toJson (r : HealthReport) (time : Timestamp) : Json :=
  Json.ofMembers
    [("status", .ofString r.status), ("component", .ofString "fx-collector"), ("timestamp", .string time.printOffset),
      ("cached_entries", .ofNat r.cachedEntries), ("platforms", .array (r.platforms.map PlatformStatus.toJson))]

/-- The JSON text of an alert sent at a time, members in their usual order. -/
def Alert.body (a : Alert) (time : Timestamp) : List Char :=
  '\x7b' :: Json.commaSeparated
    [Json.printMember ("platform".toList, Json.printString a.platform.toList),
      Json.printMember ("retry_limit".toList, Text.printNat a.limit),
      Json.printMember ("retry_delay_secs".toList, Text.printNat a.delaySecs),
      Json.printMember ("message".toList, Json.printString a.message.toList),
      Json.printMember ("timestamp".toList, Json.printString time.printOffset)] ++ ['\x7d']

/-! ## Routes -/

structure HttpAnswer where
  code : Nat
  contentType : Option String
  body : List Char
deriving DecidableEq, Repr

def pathOf (target : String) : String :=
  String.ofList (target.toList.takeWhile fun c => c ≠ '?' && c ≠ '#')

def HttpAnswer.bare (code : Nat) : HttpAnswer := ⟨code, none, []⟩

/-- The answer to a request. A route that exists answers `GET`, and `HEAD` without the body. -/
def respond (report : HealthReport) (metrics : Metrics) (time : Timestamp) (method target : String) : HttpAnswer :=
  let page : Option HttpAnswer :=
    if pathOf target = "/health" then some ⟨200, some "application/json", (report.toJson time).print⟩
    else if pathOf target = "/metrics" then some ⟨200, some "text/plain; charset=utf-8", metrics.text⟩
    else none
  match page with
  | none => .bare 404
  | some page =>
    if method = "GET" then page else if method = "HEAD" then { page with body := [] } else .bare 405

/-- What ends the serving of the routes: a port that is taken. Otherwise it goes on for ever. -/
def serveEnd (portTaken : Bool) : Option Failure :=
  if portTaken then some (.connection "Address already in use (os error 98)") else none

end RateDesk
