import RateDesk.Health
import RateDesk.Venue.Http

/-!
# Alerts over HTTP

Every alert is posted once, whatever the answer. Main definition: `Alert.request`.
-/

namespace RateDesk

def Alert.request (a : Alert) (target : String) (time : Timestamp) : HttpRequest :=
  ⟨"POST", target, none, some "application/json", String.ofList (a.body time)⟩

end RateDesk
