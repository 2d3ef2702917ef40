import RateDesk.Settings.Basic
import RateDesk.Venue.Basic

/-!
# A venue that follows a script

A rehearsal of a venue: a script says what each connect reports and which instruments are refused.
Main definition: `ScriptedVenue`, an instance of `Venue`.
-/

namespace RateDesk

/-- What a connect of a script comes to. -/
inductive ConnectScript where
  | succeed
  | fail
  /-- Nothing is ever reported. -/
  | silent
  /-- Success, and the loss of the connection at once. -/
  | succeedThenDrop
  /-- Failure, and a loss on top of it. -/
  | failTwice
deriving DecidableEq, Repr

namespace ConnectScript

def events : ConnectScript → List VenueEvent
  | succeed => [.connected true]
  | fail => [.connected false]
  | silent => []
  | succeedThenDrop => [.connected true, .disconnected]
  | failTwice => [.connected false, .disconnected]

end ConnectScript

inductive VenueCall where
  | connect
  | subscribe (instrument : String)
  | unsubscribe (instrument : String)
  | disconnect
deriving DecidableEq, Repr

/-- A venue that follows a script and remembers its calls. -/
structure ScriptedVenue where
  /-- The kind of venue that is rehearsed. -/
  kind : String
  /-- What connects come to, in order; the last one repeats. -/
  connects : List ConnectScript
  /-- The instruments that are refused. -/
  refused : List String
  subscribed : List String
  calls : List VenueCall
deriving DecidableEq, Repr

namespace ScriptedVenue

abbrev kindName : String := "scripted"

def start (connects : List ConnectScript) (refused : List String) : ScriptedVenue :=
  ⟨kindName, connects, refused, [], []⟩

/-- A venue of another kind that nobody answers for, so that no connect succeeds. -/
def unreachable (kind : String) : ScriptedVenue := ⟨kind, [.fail], [], [], []⟩

def nextConnect (v : ScriptedVenue) : ConnectScript := v.connects.headD .succeed

def laterConnects (v : ScriptedVenue) : List ConnectScript :=
  match v.connects with
  | _ :: c :: cs => c :: cs
  | cs => cs

/-- How many connects, or other calls of one kind, a venue received. -/
def count (v : ScriptedVenue) (c : VenueCall) : Nat := v.calls.count c

instance : Venue ScriptedVenue where
  kind v := v.kind
  connect v := (v.nextConnect.events, { v with connects := v.laterConnects, calls := v.calls ++ [.connect] })
  subscribe i v :=
    let v := { v with calls := v.calls ++ [.subscribe i] }
    if i ∈ v.refused then (.error (.instrumentNotOffered i), v)
    else (.ok (), { v with subscribed := i :: v.subscribed.filter (· ≠ i) })
  unsubscribe i v :=
    let v := { v with calls := v.calls ++ [.unsubscribe i], subscribed := v.subscribed.filter (· ≠ i) }
    (if i ∈ v.refused then .error (.instrumentNotOffered i) else .ok (), v)
  disconnect v := { v with calls := v.calls ++ [.disconnect], subscribed := [] }
  subscriptions v := v.subscribed.mergeSort fun a b => decide (a ≤ b)

end ScriptedVenue

end RateDesk
