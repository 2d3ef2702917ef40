import RateDesk.Proofs.Consensus.Overflow
import RateDesk.Proofs.Desk.Update

/-!
# Updates that a fault cuts short

A fault takes nothing back.

* `Cache.derivations` : what an accepted quote has the desk compute, in order;
* `run_derive_stopped` : a derivation that faults leaves the desk with the rates that came before it;
* `update_overflow_after_publishing` : so an update that faults may have published and stored rates;
* `update_returns_or_stops` : where an update can stop, and how it leaves the desk then.
-/

namespace RateDesk

/-- Either all of some computations have a result, or there is a first one that faults. -/
theorem forall_ok_or_first_error {α : Type} (xs : List (Except Fault α)) :
    (∃ as : List α, xs = as.map .ok) ∨ ∃ (as : List α) (e : Fault) (rest : List (Except Fault α)),
      xs = as.map .ok ++ .error e :: rest := by
  induction xs with
  | nil => exact Or.inl ⟨[], rfl⟩
  | cons x xs ih =>
    cases x with
    | error e => exact Or.inr ⟨[], e, xs, rfl⟩
    | ok a =>
      rcases ih with ⟨as, rfl⟩ | ⟨as, e, rest, rfl⟩
      · exact Or.inl ⟨a :: as, rfl⟩
      · exact Or.inr ⟨a :: as, e, rest, rfl⟩

theorem mapM_ok {α β : Type} {f : α → Except Fault β} {xs : List α} {bs : List β} (h : xs.map f = bs.map .ok) :
    xs.mapM f = .ok bs := by
  induction xs generalizing bs with
  | nil =>
    cases bs with
    | nil => rfl
    | cons b bs => cases h
  | cons x xs ih =>
    cases bs with
    | nil => cases h
    | cons b bs =>
      obtain ⟨hb, hbs⟩ := List.cons.inj h
      rw [List.mapM_cons, hb, ih hbs]
      rfl

/-! ## What is computed, in order -/

namespace Cache

variable {c : Cache} {der : Derivation} {now : Now} {anchor i : String} {e : Fault}

/-- What an accepted quote for an instrument has the desk compute, in order. -/
def derivations (c : Cache) (d : Derivation) (now : Now) (instrument : String) :
    List (Except Fault (Option CalculatedRate)) :=
  if instrument = d.anchor then c.consensus d.anchor now :: d.dependents.map (c.rebased d.anchor now)
  else (d.dependent? instrument).toList.map (c.rebased d.anchor now)

/-- What follows from a quote when nothing of it faults. -/
theorem derived_of_derivations {os : List (Option CalculatedRate)} (h : c.derivations der now i = os.map .ok) :
    c.derived der now i = .ok (os.filterMap id) := by
  unfold derivations at h
  unfold derived
  split at h
  · rename_i hi
    rw [if_pos hi]
    cases os with
    | nil => cases h
    | cons o os =>
      obtain ⟨ho, hos⟩ := List.cons.inj h
      rw [ho, mapM_ok hos]
      rfl
  · rename_i hi
    rw [if_neg hi]
    cases hx : der.dependent? i with
    | none =>
      rw [hx] at h
      cases os with
      | nil => rfl
      | cons o os => cases h
    | some x =>
      rw [hx] at h
      obtain ⟨o, rfl⟩ : ∃ o, os = [o] := by
        cases os with
        | nil => cases h
        | cons o os =>
          obtain ⟨-, hos⟩ := List.cons.inj h
          cases os with
          | nil => exact ⟨o, rfl⟩
          | cons o' os => cases hos
      dsimp only
      rw [(List.cons.inj h).1]
      cases o <;> rfl

theorem consensus_error (h : c.consensus anchor now = .error e) : e.IsOverflow := by
  obtain hq | ⟨q, -, h⟩ := bind_eq_error.1 h
  · exact Consensus.aggregate_error hq
  · cases h

theorem anchorMid_error (h : c.anchorMid anchor now = .error e) : e.IsOverflow := by
  obtain hq | ⟨q, -, h⟩ := bind_eq_error.1 h
  · exact Consensus.aggregate_error hq
  · cases q with
    | none => cases h
    | some q =>
      obtain hmid | ⟨mid, -, h⟩ := bind_eq_error.1 h
      · exact Consensus.midOf_error hmid
      · cases h

theorem rebased_error {x : Dependent} (h : c.rebased anchor now x = .error e) : e.IsOverflow := by
  obtain hmid | ⟨mid, -, h⟩ := bind_eq_error.1 h
  · exact anchorMid_error hmid
  · cases mid with
    | none => cases h
    | some mid =>
      obtain hq | ⟨q, -, h⟩ := bind_eq_error.1 h
      · exact Consensus.dependentRate_error hq
      · cases h

theorem derivations_error (h : .error e ∈ c.derivations der now i) : e.IsOverflow := by
  unfold derivations at h
  split at h
  · rcases List.mem_cons.1 h with h | h
    · exact consensus_error h.symm
    · obtain ⟨x, -, hx⟩ := List.mem_map.1 h
      exact rebased_error hx
  · obtain ⟨x, -, hx⟩ := List.mem_map.1 h
    exact rebased_error hx

end Cache

/-! ## How a fault leaves the desk -/

namespace Desk

variable {d : Desk} {c : Cache} {now : Now} {due : Instant} {anchor i p : String} {der : Derivation} {r : Rate}
  {os : List (Option CalculatedRate)} {rest : List (Except Fault (Option CalculatedRate))} {e : Fault}

theorem run_refreshDependents_stopped {xs : List Dependent} (ha : c.Agrees d.cache now.instant)
    (hdue : now.instant.after (c.ttl * 1000) = .ok due)
    (h : xs.map (c.rebased anchor now) = os.map .ok ++ .error e :: rest) :
    (refreshDependents anchor now xs).run d = (.error e, d.recordedAll due (os.filterMap id)) := by
  induction xs generalizing d os with
  | nil => cases os <;> cases h
  | cons x xs ih =>
    unfold refreshDependents
    cases os with
    | nil => exact run_bind_error (run_refreshDependent_error ha (List.cons.inj h).1) _
    | cons o os =>
      obtain ⟨ho, hos⟩ := List.cons.inj h
      rw [run_bind_ok (run_refreshDependent ha hdue ho), ih (agrees_recordedAll _ ha) hos]
      cases o <;> rfl

/-- A derivation that faults leaves the desk with the rates that came before it. -/
theorem run_derive_stopped (hdue : now.instant.after (d.cache.ttl * 1000) = .ok due)
    (h : d.cache.derivations der now i = os.map .ok ++ .error e :: rest) :
    (derive der now i).run d = (.error e, d.recordedAll due (os.filterMap id)) := by
  have ha := Cache.Agrees.refl d.cache now.instant
  unfold Cache.derivations at h
  unfold derive
  split at h
  · rename_i hi
    rw [if_pos hi]
    cases os with
    | nil => exact run_bind_error (run_refreshAnchor_error ha (List.cons.inj h).1) _
    | cons o os =>
      obtain ⟨ho, hos⟩ := List.cons.inj h
      rw [run_bind_ok (run_refreshAnchor ha hdue ho), run_refreshDependents_stopped (agrees_recordedAll _ ha) hdue hos]
      cases o <;> rfl
  · rename_i hi
    rw [if_neg hi]
    cases hx : der.dependent? i with
    | none =>
      rw [hx] at h
      cases os <;> cases h
    | some x =>
      rw [hx] at h
      cases os with
      | nil => exact run_refreshDependent_error ha (List.cons.inj h).1
      | cons o os => cases os <;> cases (List.cons.inj h).2

theorem run_update_stopped (hv : d.verdict now i r = .ok (some true))
    (hdue : now.instant.after (d.cache.ttl * 1000) = .ok due)
    (h : (d.stored due p i r).cache.derivations der now i = os.map .ok ++ .error e :: rest) :
    (update der now p i r).run d = (.error e, (d.stored due p i r).recordedAll due (os.filterMap id)) := by
  have hderive := run_derive_stopped (d := d.stored due p i r) hdue h
  rw [run_update_accepting (scan_ne_nil_of_verdict hv) hv, run_bind_ok (run_storeRaw p i r hdue),
    run_bind_error hderive]

/-- An update whose raw rate the clock cannot have a deadline for stops once it has published it. -/
theorem run_update_unstored (hv : d.cache.scan i now.instant = [] ∨ d.verdict now i r = .ok (some true))
    (hdue : now.instant.after (d.cache.ttl * 1000) = .error e) :
    (update der now p i r).run d = (.error e, { d with published := d.published ++ [.raw p r] }) := by
  rcases hv with hlive | hv
  · rw [run_update_seeding hlive, run_bind_error (run_storeRaw_error p i r hdue)]
  · rw [run_update_accepting (scan_ne_nil_of_verdict hv) hv, run_bind_error (run_storeRaw_error p i r hdue)]

/-! ## Where an update can stop -/

def vast (i : String) : Rate :=
  ⟨i, (Decimal.of? (tenPow 20) 0).getD .zero, (Decimal.of? (tenPow 20) 0).getD .zero, ⟨0, 0⟩⟩

/-- A desk with quotes for the anchor and for a source whose product has no representation. -/
def strained : Desk :=
  ((empty 1800).stored 1800000 "TCP" "EURUSD" (vast "EURUSD")).stored 1800000 "TCP" "USDTRY" (vast "USDTRY")

/-- An update that overflows may have published, stored and counted before. -/
theorem update_overflow_after_publishing :
    ∃ d', (update .standard ⟨5, ⟨0, 0⟩⟩ "TCP" "USDTRY" (vast "USDTRY")).run strained = (.error .multiplication, d') ∧
      d'.published = strained.published ++
        [.raw "TCP" (vast "USDTRY"), .calculated ⟨"USDTRY", (vast "USDTRY").bid, (vast "USDTRY").ask, ⟨0, 0⟩⟩] ∧
      strained.cache.getCalculated? "USDTRY" 5 = none ∧ (d'.cache.getCalculated? "USDTRY" 5).isSome ∧
      d'.metrics.value (.calculated "USDTRY") = strained.metrics.value (.calculated "USDTRY") + 1 := by
  have hv : strained.verdict ⟨5, ⟨0, 0⟩⟩ "USDTRY" (vast "USDTRY") = .ok (some true) := by rfl
  have hdue : (5 : Instant).after (strained.cache.ttl * 1000) = .ok 1800005 := Instant.after_eq_ok.2 ⟨by decide, rfl⟩
  let q : CalculatedRate := ⟨"USDTRY", (vast "USDTRY").bid, (vast "USDTRY").ask, ⟨0, 0⟩⟩
  have hd : (strained.stored 1800005 "TCP" "USDTRY" (vast "USDTRY")).cache.derivations .standard ⟨5, ⟨0, 0⟩⟩ "USDTRY" =
      [some q].map .ok ++ .error .multiplication :: [.ok none] := by rfl
  exact ⟨_, run_update_stopped hv hdue hd, rfl, rfl, rfl, rfl⟩

/-- **A fault takes nothing back.** An update has an outcome, or it stops in one of three places: while
the quote is compared with its peers, and the desk is as before; while a rate is derived from an accepted
quote, and the quote and the rates that come before that one are published, stored and counted, and
nothing else; or before the quote is stored, because the clock cannot have its deadline, and it is
published only. -/
theorem update_returns_or_stops (d : Desk) (der : Derivation) (now : Now) (platform instrument : String) (r : Rate) :
    let run := (update der now platform instrument r).run d
    let held := (d.stored (d.expiry now) platform instrument r).cache
    (∃ o d', run = (.ok o, d')) ∨
    (∃ e : Fault, e.IsOverflow ∧ d.verdict now instrument r = .error e ∧ run = (.error e, d)) ∨
    (∃ (e : Fault) (os : List (Option CalculatedRate)) (rest : List (Except Fault (Option CalculatedRate))) (d' : Desk),
      e.IsOverflow ∧ d.verdict now instrument r = .ok (some true) ∧
      held.derivations der now instrument = os.map .ok ++ .error e :: rest ∧ run = (.error e, d') ∧
      d.Changed d' (d.expiry now) (.raw platform r :: (os.filterMap id).map .calculated)
        ((.raw platform instrument, .raw r) :: (os.filterMap id).map fun x => (.calculated x.instrument, .calculated x))
        ((os.filterMap id).map fun x => .calculated x.instrument)) ∨
    (now.instant.after (d.cache.ttl * 1000) = .error .deadline ∧
      run = (.error .deadline, { d with published := d.published ++ [.raw platform r] })) := by
  intro run held
  cases hv : d.verdict now instrument r with
  | error e => exact Or.inr (Or.inl ⟨e, Consensus.isValid_error hv, rfl, run_update_verdict_error hv⟩)
  | ok v =>
    by_cases hstores : d.cache.scan instrument now.instant = [] ∨ d.verdict now instrument r = .ok (some true)
    · cases hdue : now.instant.after (d.cache.ttl * 1000) with
      | error e =>
        obtain ⟨-, rfl⟩ := Instant.after_eq_error.1 hdue
        exact Or.inr (Or.inr (Or.inr ⟨rfl, run_update_unstored hstores hdue⟩))
      | ok due =>
        obtain rfl : due = d.expiry now := (Instant.after_eq_ok.1 hdue).2
        rcases hstores with hlive | htrue
        · exact Or.inl ⟨_, _, run_update_seeded hlive hdue⟩
        · rcases forall_ok_or_first_error (held.derivations der now instrument) with ⟨os, hos⟩ | ⟨os, e, rest, hos⟩
          · exact Or.inl ⟨_, _, run_update_accepted (scan_ne_nil_of_verdict htrue) htrue hdue
              (Cache.derived_of_derivations hos)⟩
          · have hmem : .error e ∈ held.derivations der now instrument := by simp [hos]
            exact Or.inr (Or.inr (Or.inl ⟨e, os, rest, _, Cache.derivations_error hmem, hv.symm.trans htrue, hos,
              run_update_stopped htrue hdue hos, (changed_stored d _ platform instrument r).trans
                (changed_recordedAll _ _ (os.filterMap id))⟩))
    · have hlive : d.cache.scan instrument now.instant ≠ [] := fun hn => hstores (Or.inl hn)
      have hne : v ≠ some true := fun htrue => hstores (Or.inr (htrue ▸ hv))
      exact Or.inl ⟨_, _, run_update_rejected hlive hv hne⟩

end Desk

end RateDesk
