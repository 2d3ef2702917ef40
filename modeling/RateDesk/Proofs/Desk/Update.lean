import RateDesk.Proofs.Consensus.Peers
import RateDesk.Proofs.Desk.Step

/-!
# What an update does

* `Cache.derived` : the calculated rates that follow from an accepted quote, computed from one cache;
* `run_derive` : the desk derives exactly those, although it stores each before it computes the next,
  because calculated rates are never scanned (`Cache.Agrees`);
* `NoOverflow` : nothing that an update computes leaves its range;
* `run_update_cases` : what an update that is free of faults can have been;
* `update_seeded_rejected_or_accepted` : the three ways in which an update ends.
-/

namespace RateDesk

/-! ## What follows from the quotes of a cache -/

namespace Cache

/-- The consensus rate of the anchor; none without live quotes for it. -/
def consensus (c : Cache) (anchor : String) (now : Now) : Except Fault (Option CalculatedRate) := do
  let q ← Consensus.aggregate (c.bids anchor now.instant) (c.asks anchor now.instant)
  return q.map (Desk.stamp now anchor)

/-- The mid of the consensus of the anchor; none without live quotes for it. -/
def anchorMid (c : Cache) (anchor : String) (now : Now) : Except Fault (Option Decimal) := do
  match ← Consensus.aggregate (c.bids anchor now.instant) (c.asks anchor now.instant) with
  | none => return none
  | some q => return some (← q.mid)

/-- The rate of a dependent, re-based on the mid of the anchor; none without live quotes for the
anchor and for the source. -/
def rebased (c : Cache) (anchor : String) (now : Now) (x : Dependent) : Except Fault (Option CalculatedRate) := do
  match ← c.anchorMid anchor now with
  | none => return none
  | some mid =>
    let q ← Consensus.dependentRate (c.bids x.source now.instant) (c.asks x.source now.instant) mid
    return q.map (Desk.stamp now x.output)

/-- The calculated rates that follow from an accepted quote for an instrument, in order: for the
anchor its consensus and every dependent, otherwise the first dependent with this source. -/
def derived (c : Cache) (d : Derivation) (now : Now) (instrument : String) : Except Fault (List CalculatedRate) :=
  if instrument = d.anchor then do
    let r ← c.consensus d.anchor now
    let rs ← d.dependents.mapM (c.rebased d.anchor now)
    return (r :: rs).filterMap id
  else
    match d.dependent? instrument with
    | none => .ok []
    | some x => do return (← c.rebased d.anchor now x).toList

/-- A cache that shows the same live quotes as `c` and gives rates the same life span. -/
structure Agrees (c c' : Cache) (t : Instant) : Prop where
  ttl : c'.ttl = c.ttl
  scan : ∀ i, c'.scan i t = c.scan i t

variable {c c' : Cache} {t : Instant}

theorem Agrees.refl (c : Cache) (t : Instant) : c.Agrees c t := ⟨rfl, fun _ => rfl⟩

theorem Agrees.insert_calculated (h : c.Agrees c' t) (o : String) (e : CacheEntry) :
    c.Agrees (c'.insert (.calculated o) e) t :=
  ⟨h.ttl, fun i => (scan_insert_calculated c' o i e t).trans (h.scan i)⟩

theorem Agrees.bids (h : c.Agrees c' t) (i : String) : c'.bids i t = c.bids i t := by
  rw [Cache.bids, h.scan i]
  rfl

theorem Agrees.asks (h : c.Agrees c' t) (i : String) : c'.asks i t = c.asks i t := by
  rw [Cache.asks, h.scan i]
  rfl

end Cache

/-! ## Which rates follow -/

section Instruments

open Cache

variable {c : Cache} {now : Now} {anchor : String}

theorem consensus_instrument {o : Option CalculatedRate} (hlive : c.scan anchor now.instant ≠ [])
    (h : c.consensus anchor now = .ok o) : o.map CalculatedRate.instrument = some anchor := by
  obtain ⟨q, hq, ho⟩ := bind_eq_ok.1 h
  cases ho
  cases q with
  | none => exact absurd hq (Consensus.aggregate_ne_none (by simpa using hlive) (by simpa using hlive))
  | some q => rfl

theorem anchorMid_eq_none {o : Option Decimal} (h : c.anchorMid anchor now = .ok o) :
    o = none ↔ c.scan anchor now.instant = [] := by
  obtain ⟨q, hq, ho⟩ := bind_eq_ok.1 h
  by_cases hlive : c.scan anchor now.instant = []
  · rw [bids_eq_nil.2 hlive, Consensus.aggregate_nil] at hq
    cases hq
    cases ho
    simp [hlive]
  · cases q with
    | none => exact absurd hq (Consensus.aggregate_ne_none (by simpa using hlive) (by simpa using hlive))
    | some q =>
      obtain ⟨mid, -, ho⟩ := bind_eq_ok.1 ho
      cases ho
      simp [hlive]

/-- A dependent has a rate when its source and the anchor have live quotes. -/
theorem rebased_instrument {x : Dependent} {o : Option CalculatedRate} (h : c.rebased anchor now x = .ok o) :
    o.map CalculatedRate.instrument =
      if c.scan anchor now.instant = [] ∨ c.scan x.source now.instant = [] then none else some x.output := by
  obtain ⟨mid, hmid, ho⟩ := bind_eq_ok.1 h
  have hanchor := anchorMid_eq_none hmid
  cases mid with
  | none =>
    cases ho
    rw [if_pos (Or.inl (hanchor.1 rfl))]
    rfl
  | some mid =>
    have hlive : c.scan anchor now.instant ≠ [] := fun hn => by cases hanchor.2 hn
    obtain ⟨q, hq, ho⟩ := bind_eq_ok.1 ho
    cases ho
    by_cases hsource : c.scan x.source now.instant = []
    · rw [bids_eq_nil.2 hsource, Consensus.dependentRate_nil] at hq
      cases hq
      rw [if_pos (Or.inr hsource)]
      rfl
    · cases q with
      | none =>
        exact absurd hq (Consensus.dependentRate_ne_none mid (by simpa using hsource) (by simpa using hsource))
      | some q =>
        rw [if_neg (by simp [hlive, hsource])]
        rfl

theorem mapM_rebased_instruments {xs : List Dependent} {os : List (Option CalculatedRate)}
    (hlive : c.scan anchor now.instant ≠ []) (h : xs.mapM (c.rebased anchor now) = .ok os) :
    (os.filterMap id).map CalculatedRate.instrument =
      (xs.filter fun x => c.scan x.source now.instant ≠ []).map Dependent.output := by
  induction xs generalizing os with
  | nil =>
    cases h
    rfl
  | cons x xs ih =>
    rw [List.mapM_cons] at h
    obtain ⟨o, ho, h⟩ := bind_eq_ok.1 h
    obtain ⟨os', hos', h⟩ := bind_eq_ok.1 h
    cases h
    have hx := rebased_instrument ho
    by_cases hsource : c.scan x.source now.instant = []
    · rw [if_pos (Or.inr hsource), Option.map_eq_none_iff] at hx
      rw [hx, List.filter_cons_of_neg (by simpa using hsource), ← ih hos']
      rfl
    · rw [if_neg (by simp [hlive, hsource]), Option.map_eq_some_iff] at hx
      obtain ⟨r, rfl, hr⟩ := hx
      rw [List.filter_cons_of_pos (by simpa using hsource), List.map_cons, ← ih hos', ← hr]
      rfl

/-- Which rates follow from a live quote, and in which order. -/
theorem derived_instruments {d : Derivation} {i : String} {rs : List CalculatedRate}
    (hlive : c.scan i now.instant ≠ []) (h : c.derived d now i = .ok rs) :
    rs.map CalculatedRate.instrument =
      if i = d.anchor then
        d.anchor :: (d.dependents.filter fun x => c.scan x.source now.instant ≠ []).map Dependent.output
      else if c.scan d.anchor now.instant = [] then []
      else (d.dependent? i).toList.map Dependent.output := by
  unfold derived at h
  split at h
  · rename_i hi
    subst hi
    obtain ⟨o, ho, h⟩ := bind_eq_ok.1 h
    obtain ⟨os, hos, h⟩ := bind_eq_ok.1 h
    cases h
    obtain ⟨r, rfl, hr⟩ := Option.map_eq_some_iff.1 (consensus_instrument hlive ho)
    rw [if_pos rfl, ← mapM_rebased_instruments hlive hos, ← hr]
    rfl
  · rename_i hi
    rw [if_neg hi]
    cases hx : d.dependent? i with
    | none =>
      rw [hx] at h
      cases h
      simp
    | some x =>
      rw [hx] at h
      obtain ⟨o, ho, h⟩ := bind_eq_ok.1 h
      cases h
      have hsource : x.source = i := by simpa using List.find?_some hx
      have hr := rebased_instrument ho
      rw [hsource] at hr
      by_cases hanchor : c.scan d.anchor now.instant = []
      · rw [if_pos (Or.inl hanchor), Option.map_eq_none_iff] at hr
        rw [if_pos hanchor, hr]
        rfl
      · rw [if_neg (by simp [hlive, hanchor]), Option.map_eq_some_iff] at hr
        obtain ⟨r, rfl, hr⟩ := hr
        rw [if_neg hanchor]
        exact congrArg (fun o => [o]) hr

end Instruments

/-! ## Deriving -/

namespace Desk

variable {d : Desk} {c : Cache} {now : Now} {due : Instant} {anchor : String}

/-- The desk once some calculated rates are recorded, one after another. -/
def recordedAll (due : Instant) (d : Desk) (rs : List CalculatedRate) : Desk := rs.foldl (recorded due) d

theorem agrees_recordedAll (rs : List CalculatedRate) (h : c.Agrees d.cache now.instant) :
    c.Agrees (d.recordedAll due rs).cache now.instant := by
  induction rs generalizing d with
  | nil => exact h
  | cons r rs ih => exact ih (h.insert_calculated r.instrument _)

theorem run_refreshAnchor {o : Option CalculatedRate} (ha : c.Agrees d.cache now.instant)
    (hdue : now.instant.after (c.ttl * 1000) = .ok due) (h : c.consensus anchor now = .ok o) :
    (refreshAnchor anchor now).run d = (.ok (), d.recordedAll due o.toList) := by
  obtain ⟨q, hq, ho⟩ := bind_eq_ok.1 h
  unfold refreshAnchor
  rw [run_bind_ok (run_peers anchor now d)]
  dsimp only
  rw [ha.bids, ha.asks, run_bind_ok (run_lift_ok hq d)]
  cases ho
  cases q with
  | none => rfl
  | some q => exact run_storeCalculated _ (by rw [ha.ttl]; exact hdue)

theorem run_anchorMid (ha : c.Agrees d.cache now.instant) :
    (anchorMid anchor now).run d = (c.anchorMid anchor now, d) := by
  unfold anchorMid Cache.anchorMid
  rw [run_bind_ok (run_peers anchor now d)]
  dsimp only
  rw [ha.bids, ha.asks]
  cases Consensus.aggregate (c.bids anchor now.instant) (c.asks anchor now.instant) with
  | error e => rfl
  | ok q =>
    cases q with
    | none => rfl
    | some q =>
      rw [run_bind_ok (run_lift_ok rfl d)]
      show (liftM q.mid >>= fun m => pure (some m) : Step (Option Decimal)).run d =
        (q.mid >>= fun m => pure (some m), d)
      cases q.mid <;> rfl

theorem run_refreshDependent {x : Dependent} {o : Option CalculatedRate} (ha : c.Agrees d.cache now.instant)
    (hdue : now.instant.after (c.ttl * 1000) = .ok due) (h : c.rebased anchor now x = .ok o) :
    (refreshDependent anchor now x).run d = (.ok (), d.recordedAll due o.toList) := by
  obtain ⟨mid, hmid, ho⟩ := bind_eq_ok.1 h
  unfold refreshDependent
  rw [run_bind_ok ((run_anchorMid ha).trans (by rw [hmid]))]
  cases mid with
  | none =>
    cases ho
    rfl
  | some mid =>
    obtain ⟨q, hq, ho⟩ := bind_eq_ok.1 ho
    dsimp only
    rw [run_bind_ok (run_peers x.source now d)]
    dsimp only
    rw [ha.bids, ha.asks, run_bind_ok (run_lift_ok hq d)]
    cases ho
    cases q with
    | none => rfl
    | some q => exact run_storeCalculated _ (by rw [ha.ttl]; exact hdue)

theorem run_refreshDependents {xs : List Dependent} {os : List (Option CalculatedRate)}
    (ha : c.Agrees d.cache now.instant) (hdue : now.instant.after (c.ttl * 1000) = .ok due)
    (h : xs.mapM (c.rebased anchor now) = .ok os) :
    (refreshDependents anchor now xs).run d = (.ok (), d.recordedAll due (os.filterMap id)) := by
  induction xs generalizing d os with
  | nil =>
    cases h
    rfl
  | cons x xs ih =>
    rw [List.mapM_cons] at h
    obtain ⟨o, ho, h⟩ := bind_eq_ok.1 h
    obtain ⟨os', hos', h⟩ := bind_eq_ok.1 h
    cases h
    unfold refreshDependents
    rw [run_bind_ok (run_refreshDependent ha hdue ho), ih (agrees_recordedAll _ ha) hos']
    cases o <;> rfl

/-- A desk derives what follows from the quotes of its cache. -/
theorem run_derive {der : Derivation} {i : String} {rs : List CalculatedRate}
    (hdue : now.instant.after (d.cache.ttl * 1000) = .ok due) (h : d.cache.derived der now i = .ok rs) :
    (derive der now i).run d = (.ok (), d.recordedAll due rs) := by
  have ha := Cache.Agrees.refl d.cache now.instant
  unfold Cache.derived at h
  unfold derive
  split at h
  · rename_i hi
    obtain ⟨o, ho, h⟩ := bind_eq_ok.1 h
    obtain ⟨os, hos, h⟩ := bind_eq_ok.1 h
    cases h
    rw [if_pos hi, run_bind_ok (run_refreshAnchor ha hdue ho),
      run_refreshDependents (agrees_recordedAll _ ha) hdue hos]
    cases o <;> rfl
  · rename_i hi
    rw [if_neg hi]
    cases hx : der.dependent? i with
    | none =>
      rw [hx] at h
      cases h
      rfl
    | some x =>
      rw [hx] at h
      obtain ⟨o, ho, h⟩ := bind_eq_ok.1 h
      cases h
      exact run_refreshDependent ha hdue ho

/-! ## Faults -/

theorem run_refreshAnchor_error {e : Fault} (ha : c.Agrees d.cache now.instant)
    (h : c.consensus anchor now = .error e) : (refreshAnchor anchor now).run d = (.error e, d) := by
  obtain hq | ⟨q, -, h⟩ := bind_eq_error.1 h
  · unfold refreshAnchor
    rw [run_bind_ok (run_peers anchor now d)]
    dsimp only
    rw [ha.bids, ha.asks, run_bind_error (run_lift_error hq d)]
  · cases h

theorem run_refreshDependent_error {x : Dependent} {e : Fault} (ha : c.Agrees d.cache now.instant)
    (h : c.rebased anchor now x = .error e) : (refreshDependent anchor now x).run d = (.error e, d) := by
  unfold refreshDependent
  obtain hmid | ⟨mid, hmid, h⟩ := bind_eq_error.1 h
  · rw [run_bind_error ((run_anchorMid ha).trans (by rw [hmid]))]
  · rw [run_bind_ok ((run_anchorMid ha).trans (by rw [hmid]))]
    cases mid with
    | none => cases h
    | some mid =>
      obtain hq | ⟨q, -, h⟩ := bind_eq_error.1 h
      · dsimp only
        rw [run_bind_ok (run_peers x.source now d)]
        dsimp only
        rw [ha.bids, ha.asks, run_bind_error (run_lift_error hq d)]
      · cases h

theorem run_refreshDependents_error {xs : List Dependent} {e : Fault} (ha : c.Agrees d.cache now.instant)
    (hdue : now.instant.after (c.ttl * 1000) = .ok due) (h : xs.mapM (c.rebased anchor now) = .error e) :
    ∃ d', (refreshDependents anchor now xs).run d = (.error e, d') := by
  induction xs generalizing d with
  | nil => cases h
  | cons x xs ih =>
    rw [List.mapM_cons] at h
    unfold refreshDependents
    obtain ho | ⟨o, ho, h⟩ := bind_eq_error.1 h
    · exact ⟨d, run_bind_error (run_refreshDependent_error ha ho) _⟩
    · rw [run_bind_ok (run_refreshDependent ha hdue ho)]
      obtain hos | ⟨os, -, h⟩ := bind_eq_error.1 h
      · exact ih (agrees_recordedAll _ ha) hos
      · cases h

/-- Deriving ends in the fault of the first rate that has one. -/
theorem run_derive_error {der : Derivation} {i : String} {e : Fault}
    (hdue : now.instant.after (d.cache.ttl * 1000) = .ok due) (h : d.cache.derived der now i = .error e) :
    ∃ d', (derive der now i).run d = (.error e, d') := by
  have ha := Cache.Agrees.refl d.cache now.instant
  unfold Cache.derived at h
  unfold derive
  split at h
  · rename_i hi
    rw [if_pos hi]
    obtain ho | ⟨o, ho, h⟩ := bind_eq_error.1 h
    · exact ⟨d, run_bind_error (run_refreshAnchor_error ha ho) _⟩
    · rw [run_bind_ok (run_refreshAnchor ha hdue ho)]
      obtain hos | ⟨os, -, h⟩ := bind_eq_error.1 h
      · exact run_refreshDependents_error (agrees_recordedAll _ ha) hdue hos
      · cases h
  · rename_i hi
    rw [if_neg hi]
    cases hx : der.dependent? i with
    | none =>
      rw [hx] at h
      cases h
    | some x =>
      rw [hx] at h
      obtain ho | ⟨o, -, h⟩ := bind_eq_error.1 h
      · exact ⟨d, run_refreshDependent_error ha ho⟩
      · cases h

theorem changed_recordedAll (d : Desk) (due : Instant) (rs : List CalculatedRate) :
    d.Changed (d.recordedAll due rs) due (rs.map .calculated)
      (rs.map fun r => (.calculated r.instrument, .calculated r)) (rs.map fun r => .calculated r.instrument) := by
  induction rs generalizing d with
  | nil => exact Changed.refl d due
  | cons r rs ih => exact (changed_recorded d due r).trans (ih (d.recorded due r))

/-! ## Updates -/

def expiry (d : Desk) (now : Now) : Instant := now.instant + d.cache.ttl * 1000

/-- How a quote compares with the live quotes of all platforms for its instrument. -/
def verdict (d : Desk) (now : Now) (instrument : String) (r : Rate) : Except Fault (Option Bool) :=
  Consensus.isValid r.bid r.ask (d.cache.bids instrument now.instant) (d.cache.asks instrument now.instant)

/-- Nothing that an update computes leaves its range: the comparison with the peers, the deadline of
what is stored, and the rates that follow once the quote is accepted. -/
structure NoOverflow (d : Desk) (der : Derivation) (now : Now) (platform instrument : String) (r : Rate) : Prop where
  validation : ∃ v, d.verdict now instrument r = .ok v
  deadline : d.cache.scan instrument now.instant = [] ∨ d.verdict now instrument r = .ok (some true) →
    now.instant.after (d.cache.ttl * 1000) = .ok (d.expiry now)
  derivation : d.verdict now instrument r = .ok (some true) →
    ∃ rs, (d.stored (d.expiry now) platform instrument r).cache.derived der now instrument = .ok rs

variable {der : Derivation} {p i : String} {r : Rate}

theorem run_update_seeding (hlive : d.cache.scan i now.instant = []) :
    (update der now p i r).run d = (do storeRaw now p i r; return UpdateOutcome.seeded : Step UpdateOutcome).run d := by
  unfold update
  rw [run_bind_ok (run_peers i now d)]
  dsimp only
  rw [Cache.bids_eq_nil.2 hlive, if_pos (show ([] : List Decimal).isEmpty = true from rfl), first]

theorem run_update_rejected {v : Option Bool} (hlive : d.cache.scan i now.instant ≠ [])
    (hv : d.verdict now i r = .ok v) (hne : v ≠ some true) :
    (update der now p i r).run d = (.ok .rejected, { d with metrics := d.metrics.count (.rejected p i) }) := by
  unfold verdict at hv
  unfold update
  rw [run_bind_ok (run_peers i now d)]
  dsimp only
  rw [if_neg (by simpa using hlive), run_bind_ok (run_lift_ok hv d)]
  rcases v with _ | _ | _
  · rfl
  · rfl
  · exact absurd rfl hne

theorem run_update_accepting (hlive : d.cache.scan i now.instant ≠ []) (hv : d.verdict now i r = .ok (some true)) :
    (update der now p i r).run d =
      (do storeRaw now p i r; derive der now i; return UpdateOutcome.accepted : Step UpdateOutcome).run d := by
  unfold verdict at hv
  unfold update
  rw [run_bind_ok (run_peers i now d)]
  dsimp only
  rw [if_neg (by simpa using hlive), run_bind_ok (run_lift_ok hv d)]

theorem run_update_verdict_error {e : Fault} (hv : d.verdict now i r = .error e) :
    (update der now p i r).run d = (.error e, d) := by
  unfold verdict at hv
  unfold update
  rw [run_bind_ok (run_peers i now d)]
  dsimp only
  by_cases hlive : d.cache.scan i now.instant = []
  · rw [Cache.bids_eq_nil.2 hlive, Consensus.isValid_nil] at hv
    cases hv
  · rw [if_neg (by simpa using hlive), run_bind_error (run_lift_error hv d)]

theorem run_update_seeded (hlive : d.cache.scan i now.instant = [])
    (hdue : now.instant.after (d.cache.ttl * 1000) = .ok due) :
    (update der now p i r).run d = (.ok .seeded, d.stored due p i r) := by
  rw [run_update_seeding hlive, run_bind_ok (run_storeRaw p i r hdue)]
  rfl

theorem run_update_accepted {rs : List CalculatedRate} (hlive : d.cache.scan i now.instant ≠ [])
    (hv : d.verdict now i r = .ok (some true)) (hdue : now.instant.after (d.cache.ttl * 1000) = .ok due)
    (hrs : (d.stored due p i r).cache.derived der now i = .ok rs) :
    (update der now p i r).run d = (.ok .accepted, (d.stored due p i r).recordedAll due rs) := by
  have hderive := run_derive (d := d.stored due p i r) hdue hrs
  rw [run_update_accepting hlive hv, run_bind_ok (run_storeRaw p i r hdue), run_bind_ok hderive]
  rfl

theorem scan_ne_nil_of_verdict (hv : d.verdict now i r = .ok (some true)) : d.cache.scan i now.instant ≠ [] := by
  intro hlive
  rw [verdict, Cache.bids_eq_nil.2 hlive, Consensus.isValid_nil] at hv
  cases hv

/-- An update is free of faults only when nothing that it computes leaves its range. -/
theorem noOverflow_of_run_update {o : UpdateOutcome} {d' : Desk}
    (hrun : (update der now p i r).run d = (.ok o, d')) : d.NoOverflow der now p i r := by
  have hdeadline : d.cache.scan i now.instant = [] ∨ d.verdict now i r = .ok (some true) →
      now.instant.after (d.cache.ttl * 1000) = .ok (d.expiry now) := by
    intro h
    cases hdue : now.instant.after (d.cache.ttl * 1000) with
    | ok due => rw [(Instant.after_eq_ok.1 hdue).2, expiry]
    | error e =>
      rcases h with hlive | hv
      · rw [run_update_seeding hlive, run_bind_error (run_storeRaw_error p i r hdue)] at hrun
        cases hrun
      · rw [run_update_accepting (scan_ne_nil_of_verdict hv) hv, run_bind_error (run_storeRaw_error p i r hdue)] at hrun
        cases hrun
  refine ⟨?_, hdeadline, ?_⟩
  · cases hv : d.verdict now i r with
    | ok v => exact ⟨v, rfl⟩
    | error e =>
      rw [run_update_verdict_error hv] at hrun
      cases hrun
  · intro hv
    have hdue := hdeadline (Or.inr hv)
    cases hrs : (d.stored (d.expiry now) p i r).cache.derived der now i with
    | ok rs => exact ⟨rs, rfl⟩
    | error e =>
      obtain ⟨d₁, hderive⟩ := run_derive_error (d := d.stored (d.expiry now) p i r) hdue hrs
      rw [run_update_accepting (scan_ne_nil_of_verdict hv) hv, run_bind_ok (run_storeRaw p i r hdue),
        run_bind_error hderive] at hrun
      cases hrun

/-- How an update that is free of faults went, and what it left. -/
theorem run_update_cases {o : UpdateOutcome} {d' : Desk} (hrun : (update der now p i r).run d = (.ok o, d')) :
    (o = .seeded ∧ d.cache.scan i now.instant = [] ∧ d' = d.stored (d.expiry now) p i r) ∨
    (o = .rejected ∧ d.cache.scan i now.instant ≠ [] ∧
      d' = { d with metrics := d.metrics.count (.rejected p i) }) ∨
    (o = .accepted ∧ now.instant.after (d.cache.ttl * 1000) = .ok (d.expiry now) ∧
      ∃ rs, (d.stored (d.expiry now) p i r).cache.derived der now i = .ok rs ∧
        d' = (d.stored (d.expiry now) p i r).recordedAll (d.expiry now) rs) := by
  have hno := noOverflow_of_run_update hrun
  by_cases hlive : d.cache.scan i now.instant = []
  · rw [run_update_seeded hlive (hno.deadline (Or.inl hlive))] at hrun
    cases hrun
    exact Or.inl ⟨rfl, hlive, rfl⟩
  · obtain ⟨v, hv⟩ := hno.validation
    by_cases htrue : v = some true
    · subst htrue
      have hdue := hno.deadline (Or.inr hv)
      obtain ⟨rs, hrs⟩ := hno.derivation hv
      rw [run_update_accepted hlive hv hdue hrs] at hrun
      cases hrun
      exact Or.inr (Or.inr ⟨rfl, hdue, rs, hrs, rfl⟩)
    · rw [run_update_rejected hlive hv htrue] at hrun
      cases hrun
      exact Or.inr (Or.inl ⟨rfl, hlive, rfl⟩)

/-- **The three ways in which an update ends.** Without live quotes the quote is published and stored.
With live quotes it is either rejected, and only its counter goes up, or accepted: then it is published
and stored, and after it, in order, whatever follows from the cache that holds it already. -/
theorem update_seeded_rejected_or_accepted (d : Desk) (der : Derivation) (now : Now) (platform instrument : String)
    (r : Rate) (httl : 0 < d.cache.ttl) (hno : d.NoOverflow der now platform instrument r) :
    let run := (update der now platform instrument r).run d
    let live := d.cache.scan instrument now.instant
    let held := (d.stored (d.expiry now) platform instrument r).cache
    (live = [] ∧ ∃ d', run = (.ok .seeded, d') ∧
      d.Changed d' (d.expiry now) [.raw platform r] [(.raw platform instrument, .raw r)] []) ∨
    (live ≠ [] ∧ (∃ v, d.verdict now instrument r = .ok v ∧ v ≠ some true) ∧ ∃ d', run = (.ok .rejected, d') ∧
      d.Changed d' (d.expiry now) [] [] [.rejected platform instrument]) ∨
    (live ≠ [] ∧ d.verdict now instrument r = .ok (some true) ∧ r ∈ held.scan instrument now.instant ∧
      ∃ rs d', held.derived der now instrument = .ok rs ∧
        rs.map CalculatedRate.instrument =
          (if instrument = der.anchor then
            der.anchor :: (der.dependents.filter fun x => held.scan x.source now.instant ≠ []).map Dependent.output
          else if held.scan der.anchor now.instant = [] then []
          else (der.dependent? instrument).toList.map Dependent.output) ∧
        run = (.ok .accepted, d') ∧
        d.Changed d' (d.expiry now) (.raw platform r :: rs.map .calculated)
          ((.raw platform instrument, .raw r) :: rs.map fun x => (.calculated x.instrument, .calculated x))
          (rs.map fun x => .calculated x.instrument)) := by
  intro run live held
  obtain ⟨v, hv⟩ := hno.validation
  by_cases hlive : live = []
  · have hrun : run = (.ok .seeded, d.stored (d.expiry now) platform instrument r) :=
      run_update_seeded hlive (hno.deadline (Or.inl hlive))
    exact Or.inl ⟨hlive, _, hrun, changed_stored d _ platform instrument r⟩
  · by_cases htrue : v = some true
    · subst htrue
      have hdue := hno.deadline (Or.inr hv)
      obtain ⟨rs, hrs⟩ := hno.derivation hv
      have hlt : now.instant < d.expiry now := Nat.lt_add_of_pos_right (by omega)
      have hmem : r ∈ held.scan instrument now.instant :=
        Cache.mem_scan_insert_raw d.cache platform instrument r hlt
      have hrun := run_update_accepted hlive hv hdue hrs
      exact Or.inr (Or.inr ⟨hlive, hv, hmem, rs, _, hrs, derived_instruments (List.ne_nil_of_mem hmem) hrs, hrun,
        (changed_stored d _ platform instrument r).trans (changed_recordedAll _ _ rs)⟩)
    · exact Or.inr (Or.inl ⟨hlive, ⟨v, hv, htrue⟩, _, run_update_rejected hlive hv htrue, changed_count d _ _⟩)

def tenths (i : String) (bid ask : Int) : Rate :=
  ⟨i, (Decimal.of? bid 1).getD .zero, (Decimal.of? ask 1).getD .zero, ⟨0, 0⟩⟩

/-- A desk with quotes of two platforms for the anchor and of one for a source. -/
def quoted : Desk :=
  (((empty 1800).stored 1800000 "TCP" "USDTRY" (tenths "USDTRY" 320 324)).stored 1800000 "REST" "USDTRY"
    (tenths "USDTRY" 322 326)).stored 1800000 "TCP" "EURUSD" (tenths "EURUSD" 11 12)

theorem update_quoted_accepted :
    0 < quoted.cache.ttl ∧ quoted.NoOverflow .standard ⟨5, ⟨0, 0⟩⟩ "TCP" "USDTRY" (tenths "USDTRY" 321 325) ∧
      ((update .standard ⟨5, ⟨0, 0⟩⟩ "TCP" "USDTRY" (tenths "USDTRY" 321 325)).run quoted).1 = .ok .accepted := by
  have httl : 0 < quoted.cache.ttl := by decide
  have hv : quoted.verdict ⟨5, ⟨0, 0⟩⟩ "USDTRY" (tenths "USDTRY" 321 325) = .ok (some true) := by rfl
  have hdue : Instant.after 5 (quoted.cache.ttl * 1000) = .ok (quoted.expiry ⟨5, ⟨0, 0⟩⟩) :=
    Instant.after_eq_ok.2 ⟨by decide, rfl⟩
  have hno : quoted.NoOverflow .standard ⟨5, ⟨0, 0⟩⟩ "TCP" "USDTRY" (tenths "USDTRY" 321 325) :=
    ⟨⟨_, hv⟩, fun _ => hdue, fun _ => ⟨_, rfl⟩⟩
  refine ⟨httl, hno, ?_⟩
  obtain ⟨hlive, -⟩ | ⟨-, ⟨v, hv', hne⟩, -⟩ | ⟨-, -, -, rs, d', -, -, hrun, -⟩ :=
    update_seeded_rejected_or_accepted quoted .standard ⟨5, ⟨0, 0⟩⟩ "TCP" "USDTRY" (tenths "USDTRY" 321 325) httl hno
  · exact absurd hlive (scan_ne_nil_of_verdict hv)
  · rw [hv] at hv'
    cases hv'
    exact absurd rfl hne
  · rw [hrun]

end Desk

end RateDesk
