import RateDesk.Failure
import RateDesk.Platform.Worker

/-!
# Venues

What a worker needs of the connection to its venue. Main definition: the class `Venue`.
-/

namespace RateDesk

/-- The connection to a venue, as a state that calls change. Connecting reports what comes of it as
events; disconnecting reports nothing. -/
class Venue (σ : Type) where
  kind : σ → String
  connect : σ → List VenueEvent × σ
  subscribe : String → σ → Except Failure Unit × σ
  unsubscribe : String → σ → Except Failure Unit × σ
  disconnect : σ → σ
  /-- The subscribed instruments, in order. -/
  subscriptions : σ → List String

end RateDesk
