import RateDesk.Consensus
import RateDesk.Proofs.Outcome

/-!
# When peers give a result

* `mean_ne_none`, `aggregate_ne_none`, `dependentRate_ne_none` : with peers there is a result, or a fault;
* `aggregate_nil`, `dependentRate_nil`, `isValid_nil` : without peers there is none, and no fault.
-/

namespace RateDesk.Consensus

variable {bids asks : List Decimal}

/-! ## No peers -/

@[simp] theorem aggregate_nil : aggregate [] asks = .ok none := rfl

@[simp] theorem dependentRate_nil (mid : Decimal) : dependentRate [] asks mid = .ok none := rfl

@[simp] theorem isValid_nil (bid ask : Decimal) : isValid bid ask [] asks = .ok none := rfl

/-! ## Some peers -/

theorem mean_ne_none {xs : List Decimal} (h : xs ≠ []) : mean xs ≠ .ok none := by
  unfold mean
  rw [if_neg (by simpa using h)]
  intro hn
  obtain ⟨total, -, hn⟩ := bind_eq_ok.1 hn
  obtain ⟨x, -, hn⟩ := bind_eq_ok.1 hn
  cases hn

theorem aggregate_ne_none (hb : bids ≠ []) (ha : asks ≠ []) : aggregate bids asks ≠ .ok none := by
  unfold aggregate
  intro hn
  obtain ⟨bid, hbid, hn⟩ := bind_eq_ok.1 hn
  cases bid with
  | none => exact mean_ne_none hb hbid
  | some bid =>
    obtain ⟨ask, hask, hn⟩ := bind_eq_ok.1 hn
    cases ask with
    | none => exact mean_ne_none ha hask
    | some ask => cases hn

theorem dependentRate_ne_none (mid : Decimal) (hb : bids ≠ []) (ha : asks ≠ []) :
    dependentRate bids asks mid ≠ .ok none := by
  unfold dependentRate
  intro hn
  obtain ⟨bid, hbid, hn⟩ := bind_eq_ok.1 hn
  cases bid with
  | none => exact mean_ne_none hb hbid
  | some bid =>
    obtain ⟨bid', -, hn⟩ := bind_eq_ok.1 hn
    obtain ⟨ask, hask, hn⟩ := bind_eq_ok.1 hn
    cases ask with
    | none => exact mean_ne_none ha hask
    | some ask =>
      obtain ⟨ask', -, hn⟩ := bind_eq_ok.1 hn
      cases hn

end RateDesk.Consensus
