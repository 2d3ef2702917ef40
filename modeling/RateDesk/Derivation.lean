/-!
# Derivation

Which instrument is the anchor, and which instruments are re-based on it. Main definition:
`Derivation`.
-/

namespace RateDesk

/-- A rate that is derived from the quotes for `source` and the anchor, and goes by the name
`output`. -/
structure Dependent where
  source : String
  output : String
deriving DecidableEq, Repr

/-- The anchor, and the dependents in the order in which they are refreshed. -/
structure Derivation where
  anchor : String
  dependents : List Dependent
deriving DecidableEq, Repr

namespace Derivation

def standard : Derivation := ⟨"USDTRY", [⟨"EURUSD", "EURTRY"⟩, ⟨"GBPUSD", "GBPTRY"⟩]⟩

/-- The first dependent with a given source. -/
def dependent? (d : Derivation) (source : String) : Option Dependent :=
  d.dependents.find? fun x => x.source == source

end Derivation

end RateDesk
