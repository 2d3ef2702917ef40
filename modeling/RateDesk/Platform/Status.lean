import RateDesk.Platform.State
import RateDesk.Time.Timestamp

/-!
# The status of a platform

What is shown of a platform. Main definitions: `PlatformStatus` and `Alert`.
-/

namespace RateDesk

structure PlatformStatus where
  platform : String
  kind : String
  state : PlatformState
  attempts : Nat
  limit : Nat
  delaySecs : Nat
  subscriptions : List String
  updatedAt : Timestamp
deriving DecidableEq, Repr

/-- The news that a platform was given up after `limit` attempts, `delaySecs` seconds apart. -/
structure Alert where
  platform : String
  limit : Nat
  delaySecs : Nat
deriving DecidableEq, Repr

def Alert.message (a : Alert) : String :=
  "Could not connect to " ++ a.platform ++ " after " ++ toString a.limit ++ " retries at " ++ toString a.delaySecs ++
    "s intervals"

namespace PlatformStatus

/-- Statuses by platform; of two for the same platform the later one counts. -/
def sorted (ss : List PlatformStatus) : List PlatformStatus :=
  let latest := ss.foldl (fun acc s => acc.filter (fun t => t.platform ≠ s.platform) ++ [s]) []
  latest.mergeSort fun s t => decide (s.platform ≤ t.platform)

end PlatformStatus

end RateDesk
