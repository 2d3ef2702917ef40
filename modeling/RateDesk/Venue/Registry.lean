import RateDesk.Failure
import RateDesk.Settings.Basic

/-!
# The registry of venue kinds

Which kinds of venue there are, and how the connection to one is made from the settings of a
platform. Main definitions: `VenueRegistry`, `VenueRegistry.build`.
-/

namespace RateDesk

/-- How the connection to a venue is made, given where its events go. -/
abbrev VenueFactory (α : Type) := PlatformSettings → (sink : String) → Except Failure α

/-- The kinds of venue with their factories. -/
structure VenueRegistry (α : Type) where
  factories : List (String × VenueFactory α)

namespace VenueRegistry

variable {α : Type}

def empty : VenueRegistry α := ⟨[]⟩

/-- Adds a kind, in place of one of the same name. -/
def register (r : VenueRegistry α) (kind : String) (f : VenueFactory α) : VenueRegistry α :=
  ⟨(kind, f) :: r.factories.filter (fun p => p.1 ≠ kind)⟩

def build (r : VenueRegistry α) (p : PlatformSettings) (sink : String) : Except Failure α :=
  match r.factories.lookup p.kind with
  | some f => f p sink
  | none => .error (.unknownAdapter p.name p.kind)

def kinds (r : VenueRegistry α) : List String :=
  (r.factories.map Prod.fst).mergeSort fun a b => decide (a ≤ b)

end VenueRegistry

end RateDesk
