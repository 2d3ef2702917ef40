import RateDesk.Cache.Basic
import RateDesk.Consensus
import RateDesk.Derivation
import RateDesk.Metrics
import RateDesk.Outbox.Message

/-!
# The desk

The desk validates quotes, stores them, and publishes them with the rates derived from them. A fault
ends an update where it stands; what was published, stored and counted before it stays. Main
definitions: `Desk`, `Desk.Step`, `Desk.first`, `Desk.update`.
-/

namespace RateDesk

/-- The stored rates, the messages published so far, oldest first, and the metrics. -/
structure Desk where
  cache : Cache
  published : List Message
  metrics : Metrics

/-- What became of a quote that was to be validated. -/
inductive UpdateOutcome where
  /-- It agrees with its peers: stored and published. -/
  | accepted
  /-- It deviates from its peers, or they give no reference: dropped. -/
  | rejected
  /-- There were no peers: stored and published. -/
  | seeded
deriving DecidableEq, Repr

namespace Desk

def empty (ttl : Nat) : Desk := ⟨Cache.empty ttl, [], Metrics.empty⟩

/-- A change of the desk that a fault may cut short. -/
abbrev Step := ExceptT Fault (StateM Desk)

def publish (m : Message) : Step Unit := modify fun d => { d with published := d.published ++ [m] }

def count (s : Series) : Step Unit := modify fun d => { d with metrics := d.metrics.count s }

def store (f : Cache → Except Fault Cache) : Step Unit := do
  let c ← f (← get).cache
  modify fun d => { d with cache := c }

/-- The bids and the asks of the live raw rates for an instrument. -/
def peers (instrument : String) (now : Now) : Step (List Decimal × List Decimal) := do
  let rates := (← get).cache.scan instrument now.instant
  return (rates.map Rate.bid, rates.map Rate.ask)

/-! ## Raw rates -/

def storeRaw (now : Now) (platform instrument : String) (r : Rate) : Step Unit := do
  publish (.raw platform r)
  store fun c => c.putRaw platform instrument r now.instant

/-- Takes the first quote of a platform for an instrument as it is. -/
def first (now : Now) (platform instrument : String) (r : Rate) : Step Unit :=
  storeRaw now platform instrument r

/-! ## Calculated rates -/

def storeCalculated (now : Now) (r : CalculatedRate) : Step Unit := do
  count (.calculated r.instrument)
  publish (.calculated r)
  store fun c => c.putCalculated r now.instant

def stamp (now : Now) (instrument : String) (q : Quote) : CalculatedRate :=
  ⟨instrument, q.bid, q.ask, now.time⟩

/-- Refreshes the consensus rate of the anchor, if it has live quotes. -/
def refreshAnchor (anchor : String) (now : Now) : Step Unit := do
  let (bids, asks) ← peers anchor now
  match ← Consensus.aggregate bids asks with
  | none => return
  | some q => storeCalculated now (stamp now anchor q)

/-- The mid of the consensus of the anchor, if it has live quotes. -/
def anchorMid (anchor : String) (now : Now) : Step (Option Decimal) := do
  let (bids, asks) ← peers anchor now
  match ← Consensus.aggregate bids asks with
  | none => return none
  | some q => return some (← q.mid)

/-- Refreshes a dependent, if the anchor and its source have live quotes. -/
def refreshDependent (anchor : String) (now : Now) (x : Dependent) : Step Unit := do
  match ← anchorMid anchor now with
  | none => return
  | some mid =>
    let (bids, asks) ← peers x.source now
    match ← Consensus.dependentRate bids asks mid with
    | none => return
    | some q => storeCalculated now (stamp now x.output q)

def refreshDependents (anchor : String) (now : Now) : List Dependent → Step Unit
  | [] => return
  | x :: xs => do
    refreshDependent anchor now x
    refreshDependents anchor now xs

/-- Refreshes what depends on an instrument: for the anchor its consensus and every dependent,
otherwise the first dependent with this source. -/
def derive (d : Derivation) (now : Now) (instrument : String) : Step Unit :=
  if instrument = d.anchor then do
    refreshAnchor d.anchor now
    refreshDependents d.anchor now d.dependents
  else
    match d.dependent? instrument with
    | none => return
    | some x => refreshDependent d.anchor now x

/-! ## Updates -/

/-- Validates a quote against the live quotes of all platforms and applies it. -/
def update (d : Derivation) (now : Now) (platform instrument : String) (r : Rate) : Step UpdateOutcome := do
  let (bids, asks) ← peers instrument now
  if bids.isEmpty then
    first now platform instrument r
    return .seeded
  else
    match ← Consensus.isValid r.bid r.ask bids asks with
    | some true =>
      storeRaw now platform instrument r
      derive d now instrument
      return .accepted
    | _ =>
      count (.rejected platform instrument)
      return .rejected

/-- Drops the entries of the cache that are not live, and says how many they were. -/
def evict (now : Now) : Step Nat := do
  let before := (← get).cache.size
  modify fun d => { d with cache := d.cache.evict now.instant }
  return before - (← get).cache.size

end Desk

end RateDesk
