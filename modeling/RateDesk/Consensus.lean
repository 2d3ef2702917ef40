import RateDesk.Decimal.Arithmetic
import RateDesk.Quote

/-!
# Consensus

Validation of a quote against its peers, and the quotes derived from them. Main definitions: `mean`,
`midOf`, `referenceMid`, `isValid`, `aggregate`, `dependentRate`. None of them has a result without
peers.
-/

namespace RateDesk.Consensus

/-- The largest relative deviation of a mid from the reference mid that is accepted: one per
cent. -/
def tolerance : Decimal := ⟨1, 2, by decide, by decide⟩

/-- The arithmetic mean of one or more decimals, summed from the left. -/
def mean (xs : List Decimal) : Except Fault (Option Decimal) :=
  if xs.isEmpty then .ok none
  else do
    let total ← xs.foldlM Decimal.add Decimal.zero
    return some (← total.div (Decimal.ofNat xs.length))

def midOf (bid ask : Decimal) : Except Fault Decimal := do (← bid.add ask).div Decimal.two

def referenceMid (bids asks : List Decimal) : Except Fault (Option Decimal) := do
  match ← mean bids with
  | none => return none
  | some bid =>
    match ← mean asks with
    | none => return none
    | some ask => return some (← midOf bid ask)

/-- Whether a quote deviates from the reference mid of its peers by at most `tolerance`; undecided
without peers and when the reference mid is not positive. -/
def isValid (bid ask : Decimal) (bids asks : List Decimal) : Except Fault (Option Bool) := do
  match ← referenceMid bids asks with
  | none => return none
  | some reference =>
    if reference.le Decimal.zero then return none
    else
      let deviation ← (← (← midOf bid ask).sub reference).abs.div reference
      return some (deviation.le tolerance)

/-- The mean bid and the mean ask. -/
def aggregate (bids asks : List Decimal) : Except Fault (Option Quote) := do
  match ← mean bids with
  | none => return none
  | some bid =>
    match ← mean asks with
    | none => return none
    | some ask => return some ⟨bid, ask⟩

/-- The mean bid and the mean ask, each multiplied by the mid of the anchor. -/
def dependentRate (bids asks : List Decimal) (anchorMid : Decimal) : Except Fault (Option Quote) := do
  match ← mean bids with
  | none => return none
  | some bid =>
    let bid ← bid.mul anchorMid
    match ← mean asks with
    | none => return none
    | some ask => return some ⟨bid, ← ask.mul anchorMid⟩

end RateDesk.Consensus

def RateDesk.Quote.mid (q : Quote) : Except Fault Decimal := Consensus.midOf q.bid q.ask
