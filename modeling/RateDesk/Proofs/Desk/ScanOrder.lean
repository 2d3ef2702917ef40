import RateDesk.Proofs.Consensus.Unordered
import RateDesk.Proofs.Desk.Step

/-!
# Two desks that do the same

The entries of a cache may be met in any order, and two desks may store different rates. When do they answer alike?

* `ScanOrder` : an order in which entries are met; `ScanOrder.update` is an update that meets them so, and
  `update_stored` says that `Desk.update` meets them as they are stored;
* `Step.Ends`, `Step.Alike` : two steps on related desks have the same result, or the same fault, and leave related
  desks; closed under `bind`;
* `Derivation.reads` : the instruments whose quotes an update reads;
* `Carries` : a relation of desks under which means agree and that calculated rates keep; `Carries.derive`, under it
  everything is derived alike;
* `alike_update` : so updates are alike.
-/

namespace RateDesk

/-- An order in which the entries of a cache are met, for every desk there is. -/
structure ScanOrder where
  entries : Desk → List (CacheKey × CacheEntry)
  perm : ∀ d, (entries d).Perm d.cache.entries

namespace ScanOrder

variable (o : ScanOrder)

def stored : ScanOrder := ⟨fun d => d.cache.entries, fun _ => .refl _⟩

/-- The live raw rates for an instrument, as they are met. -/
def scan (d : Desk) (instrument : String) (now : Instant) : List Rate :=
  (o.entries d).filterMap (Cache.scanned? instrument now)

theorem scan_perm (d : Desk) (i : String) (t : Instant) : (o.scan d i t).Perm (d.cache.scan i t) :=
  (o.perm d).filterMap _

/-! ## The steps of a desk, whatever the order -/

def peers (instrument : String) (now : Now) : Desk.Step (List Decimal × List Decimal) := do
  let rates := o.scan (← get) instrument now.instant
  return (rates.map Rate.bid, rates.map Rate.ask)

def refreshAnchor (anchor : String) (now : Now) : Desk.Step Unit := do
  let (bids, asks) ← o.peers anchor now
  match ← Consensus.aggregate bids asks with
  | none => return
  | some q => Desk.storeCalculated now (Desk.stamp now anchor q)

def anchorMid (anchor : String) (now : Now) : Desk.Step (Option Decimal) := do
  let (bids, asks) ← o.peers anchor now
  match ← Consensus.aggregate bids asks with
  | none => return none
  | some q => return some (← q.mid)

def refreshDependent (anchor : String) (now : Now) (x : Dependent) : Desk.Step Unit := do
  match ← o.anchorMid anchor now with
  | none => return
  | some mid =>
    let (bids, asks) ← o.peers x.source now
    match ← Consensus.dependentRate bids asks mid with
    | none => return
    | some q => Desk.storeCalculated now (Desk.stamp now x.output q)

def refreshDependents (anchor : String) (now : Now) : List Dependent → Desk.Step Unit
  | [] => return
  | x :: xs => do
    o.refreshDependent anchor now x
    refreshDependents anchor now xs

def derive (d : Derivation) (now : Now) (instrument : String) : Desk.Step Unit :=
  if instrument = d.anchor then do
    o.refreshAnchor d.anchor now
    o.refreshDependents d.anchor now d.dependents
  else
    match d.dependent? instrument with
    | none => return
    | some x => o.refreshDependent d.anchor now x

/-- An update that meets the entries of the cache in this order. -/
def update (d : Derivation) (now : Now) (platform instrument : String) (r : Rate) : Desk.Step UpdateOutcome := do
  let (bids, asks) ← o.peers instrument now
  if bids.isEmpty then
    Desk.first now platform instrument r
    return .seeded
  else
    match ← Consensus.isValid r.bid r.ask bids asks with
    | some true =>
      Desk.storeRaw now platform instrument r
      o.derive d now instrument
      return .accepted
    | _ =>
      Desk.count (.rejected platform instrument)
      return .rejected

theorem refreshDependents_stored (anchor : String) (now : Now) (xs : List Dependent) :
    stored.refreshDependents anchor now xs = Desk.refreshDependents anchor now xs := by
  induction xs with
  | nil => rfl
  | cons x xs ih =>
    rw [refreshDependents, Desk.refreshDependents, ih]
    rfl

theorem derive_stored (d : Derivation) (now : Now) (i : String) : stored.derive d now i = Desk.derive d now i := by
  unfold derive Desk.derive
  rw [refreshDependents_stored]
  rfl

/-- A desk meets the entries as they are stored. -/
theorem update_stored (d : Derivation) (now : Now) (p i : String) (r : Rate) :
    stored.update d now p i r = Desk.update d now p i r := by
  unfold update Desk.update
  rw [derive_stored]
  rfl

end ScanOrder

/-- The instruments whose quotes are read when one is updated. -/
def Derivation.reads (d : Derivation) (instrument : String) : List String :=
  instrument ::
    if instrument = d.anchor then d.dependents.map Dependent.source
    else (d.dependent? instrument).toList.map fun _ => d.anchor

theorem Derivation.mem_reads_self (d : Derivation) (i : String) : i ∈ d.reads i := List.mem_cons_self

namespace Desk

open Consensus (SameMeans)

variable {α β : Type} {o o' : ScanOrder} {S T U F : Desk → Desk → Prop} {der : Derivation} {now : Now}
  {i j p anchor : String} {r : Rate} {js : List String}

/-! ## Steps that are alike -/

namespace Step

/-- Two steps ended with the same result and desks related by `T`, or in the same fault and desks related by `F`. -/
inductive Ends (T F : Desk → Desk → Prop) : Except Fault α × Desk → Except Fault α × Desk → Prop where
  | ok {a : α} {d d' : Desk} : T d d' → Ends T F (.ok a, d) (.ok a, d')
  | error {e : Fault} {d d' : Desk} : F d d' → Ends T F (.error e, d) (.error e, d')

/-- On desks related by `S` two steps end alike. -/
def Alike (S T F : Desk → Desk → Prop) (x y : Step α) : Prop := ∀ d d', S d d' → Ends T F (x.run d) (y.run d')

theorem Ends.fst_eq {e e' : Except Fault α × Desk} (h : Ends T F e e') : e.1 = e'.1 := by cases h <;> rfl

theorem Ends.snd {e e' : Except Fault α × Desk} (h : Ends F F e e') : F e.2 e'.2 := by
  cases h with
  | ok h => exact h
  | error h => exact h

theorem alike_pure (a : α) : Alike S S F (pure a : Step α) (pure a) := fun _ _ h => .ok h

theorem alike_lift (hfault : ∀ d d', S d d' → F d d') (x : Except Fault α) : Alike S S F (liftM x) (liftM x) := by
  intro d d' h
  rw [run_lift, run_lift]
  cases x with
  | ok a => exact .ok h
  | error e => exact .error (hfault d d' h)

theorem Alike.bind {x y : Step α} {f g : α → Step β} (hx : Alike S T F x y) (hf : ∀ a, Alike T U F (f a) (g a)) :
    Alike S U F (x >>= f) (y >>= g) := by
  intro d d' h
  have hends := hx d d' h
  rcases hrun : x.run d with ⟨a | a, d₁⟩ <;> rcases hrun' : y.run d' with ⟨b | b, d₁'⟩ <;>
    rw [hrun, hrun'] at hends <;> cases hends
  · rename_i hfault
    rw [run_bind_error hrun, run_bind_error hrun']
    exact .error hfault
  · rename_i hok
    rw [run_bind_ok hrun, run_bind_ok hrun']
    exact hf a d₁ d₁' hok

theorem Alike.weaken {x y : Step α} (h : Alike S T F x y) (hT : ∀ d d', T d d' → U d d') : Alike S U F x y := by
  intro d d' hd
  have hends := h d d' hd
  revert hends
  generalize x.run d = e
  generalize y.run d' = e'
  rintro (hok | hfault)
  · exact .ok (hT _ _ hok)
  · exact .error hfault

/-- Steps that read the quotes for an instrument are alike if means are all that they make of them. -/
theorem alike_peers_bind {f g : List Decimal × List Decimal → Step α}
    (hmeans : ∀ d d', S d d' → SameMeans (o.scan d i now.instant) (o'.scan d' i now.instant))
    (hf : ∀ rs rs', SameMeans rs rs' →
      Alike S T F (f (rs.map Rate.bid, rs.map Rate.ask)) (g (rs'.map Rate.bid, rs'.map Rate.ask))) :
    Alike S T F (o.peers i now >>= f) (o'.peers i now >>= g) := by
  intro d d' h
  exact hf _ _ (hmeans d d' h) d d' h

end Step

open Step

/-! ## Deriving alike -/

/-- A relation of desks under which the means of the quotes for some instruments agree, and which is kept when
calculated rates are stored. -/
structure Carries (o o' : ScanOrder) (now : Now) (js : List String) (S F : Desk → Desk → Prop) : Prop where
  fault : ∀ d d', S d d' → F d d'
  means : ∀ j ∈ js, ∀ d d', S d d' → SameMeans (o.scan d j now.instant) (o'.scan d' j now.instant)
  stores : ∀ x, Alike S S F (storeCalculated now x) (storeCalculated now x)

namespace Carries

theorem refreshAnchor (h : Carries o o' now js S F) (hanchor : anchor ∈ js) :
    Alike S S F (o.refreshAnchor anchor now) (o'.refreshAnchor anchor now) := by
  apply alike_peers_bind (h.means anchor hanchor)
  intro rs rs' hmeans
  dsimp only
  rw [hmeans.aggregate]
  apply (alike_lift h.fault _).bind
  intro q
  cases q with
  | none => exact alike_pure _
  | some q => exact h.stores _

theorem anchorMid (h : Carries o o' now js S F) (hanchor : anchor ∈ js) :
    Alike S S F (o.anchorMid anchor now) (o'.anchorMid anchor now) := by
  apply alike_peers_bind (h.means anchor hanchor)
  intro rs rs' hmeans
  dsimp only
  rw [hmeans.aggregate]
  apply (alike_lift h.fault _).bind
  intro q
  cases q with
  | none => exact alike_pure _
  | some q => exact (alike_lift h.fault _).bind fun _ => alike_pure _

theorem refreshDependent (h : Carries o o' now js S F) (hanchor : anchor ∈ js) {x : Dependent} (hx : x.source ∈ js) :
    Alike S S F (o.refreshDependent anchor now x) (o'.refreshDependent anchor now x) := by
  apply (h.anchorMid hanchor).bind
  intro mid
  cases mid with
  | none => exact alike_pure _
  | some mid =>
    apply alike_peers_bind (h.means x.source hx)
    intro rs rs' hmeans
    dsimp only
    rw [hmeans.dependentRate]
    apply (alike_lift h.fault _).bind
    intro q
    cases q with
    | none => exact alike_pure _
    | some q => exact h.stores _

theorem refreshDependents (h : Carries o o' now js S F) (hanchor : anchor ∈ js) {xs : List Dependent}
    (hxs : ∀ x ∈ xs, x.source ∈ js) :
    Alike S S F (o.refreshDependents anchor now xs) (o'.refreshDependents anchor now xs) := by
  induction xs with
  | nil => exact alike_pure _
  | cons x xs ih =>
    exact (h.refreshDependent hanchor (hxs x List.mem_cons_self)).bind fun _ =>
      ih fun y hy => hxs y (List.mem_cons_of_mem x hy)

/-- Whatever follows from an accepted quote is derived alike. -/
theorem derive (h : Carries o o' now (der.reads i) S F) : Alike S S F (o.derive der now i) (o'.derive der now i) := by
  unfold ScanOrder.derive
  split
  · rename_i hi
    have hanchor : der.anchor ∈ der.reads i := hi ▸ der.mem_reads_self i
    refine (h.refreshAnchor hanchor).bind fun _ => h.refreshDependents hanchor fun x hx => ?_
    rw [Derivation.reads, if_pos hi]
    exact List.mem_cons_of_mem _ (List.mem_map_of_mem hx)
  · rename_i hi
    cases hx : der.dependent? i with
    | none => exact alike_pure _
    | some x =>
      have hsource : x.source = i := by simpa using List.find?_some hx
      refine h.refreshDependent ?_ (hsource ▸ der.mem_reads_self i)
      simp [Derivation.reads, hi, hx]

end Carries

/-! ## Updating alike -/

/-- Updates are alike if the comparison with the peers is, and if storing the quote leads to desks from which
everything is derived alike. -/
theorem alike_update (hfault : ∀ d d', S d d' → F d d')
    (hmeans : ∀ d d', S d d' → SameMeans (o.scan d i now.instant) (o'.scan d' i now.instant))
    (hcount : Alike S F F (count (.rejected p i)) (count (.rejected p i)))
    (hstore : Alike S T F (storeRaw now p i r) (storeRaw now p i r)) (h : Carries o o' now (der.reads i) T F) :
    Alike S F F (o.update der now p i r) (o'.update der now p i r) := by
  apply alike_peers_bind hmeans
  intro rs rs' hsame
  dsimp only
  rw [hsame.isEmpty, hsame.isValid]
  split
  · exact (hstore.weaken h.fault).bind fun _ => alike_pure _
  · apply (alike_lift hfault _).bind
    intro v
    split
    · exact hstore.bind fun _ => (h.derive.weaken h.fault).bind fun _ => alike_pure _
    · exact hcount.bind fun _ => alike_pure _

end Desk

end RateDesk
