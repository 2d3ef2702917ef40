import RateDesk.Proofs.Consensus.Mean
import RateDesk.Proofs.Consensus.Overflow

/-!
# Quotes that do not cross

A quote crosses when its bid is above its ask.

* `foldlM_add_mono`, `mean_mono` : sums and means keep the order of lists, since every rounding does;
* `consensus_uncrossed` : what is derived from quotes that do not cross does not cross.
-/

namespace RateDesk

/-- The bid is at most the ask. -/
def Quote.Uncrossed (q : Quote) : Prop := q.bid.value ≤ q.ask.value

namespace Consensus

open Decimal

variable {x y s t m m' : Decimal} {xs ys bids asks : List Decimal} {mid : Decimal} {q : Quote}

/-! ## Sums and means in order -/

theorem foldlM_add_mono (h : List.Forall₂ (fun x y : Decimal => x.value ≤ y.value) xs ys) (hle : x.value ≤ y.value)
    (hx : xs.foldlM add x = .ok s) (hy : ys.foldlM add y = .ok t) : s.value ≤ t.value := by
  induction h generalizing x y with
  | nil =>
    cases hx
    cases hy
    exact hle
  | cons hhead _ ih =>
    rw [List.foldlM_cons] at hx hy
    obtain ⟨x', hx', hx⟩ := bind_eq_ok.1 hx
    obtain ⟨y', hy', hy⟩ := bind_eq_ok.1 hy
    exact ih ((add_rounded hx').mono (add_rounded hy') (add_le_add hle hhead)) hx hy

/-- A mean of larger numbers is not smaller. -/
theorem mean_mono (h : List.Forall₂ (fun x y : Decimal => x.value ≤ y.value) xs ys) (hlen : xs.length < coeffBound)
    (hx : mean xs = .ok (some m)) (hy : mean ys = .ok (some m')) : m.value ≤ m'.value := by
  obtain ⟨s, hs, hround⟩ := total_of_mean hlen hx
  obtain ⟨t, ht, hround'⟩ := total_of_mean (h.length_eq ▸ hlen) hy
  have hle := foldlM_add_mono h le_rfl hs ht
  rw [← h.length_eq] at hround'
  exact hround.mono hround' (div_le_div_of_nonneg_right hle (Nat.cast_nonneg _))

/-! ## Derived quotes -/

section
variable (hlen : bids.length < coeffBound) (h : List.Forall₂ (fun b a : Decimal => b.value ≤ a.value) bids asks)
include hlen h

theorem aggregate_uncrossed (hq : aggregate bids asks = .ok (some q)) : q.Uncrossed := by
  obtain ⟨bid, hbid, hq⟩ := bind_eq_ok.1 hq
  cases bid with
  | none => cases hq
  | some bid =>
    obtain ⟨ask, hask, hq⟩ := bind_eq_ok.1 hq
    cases ask with
    | none => cases hq
    | some ask =>
      cases hq
      exact mean_mono h hlen hbid hask

/-- Both sides are multiplied by the same number, which is not negative. -/
theorem dependentRate_uncrossed (hmid : 0 ≤ mid.value) (hq : dependentRate bids asks mid = .ok (some q)) :
    q.Uncrossed := by
  obtain ⟨bid, hbid, hq⟩ := bind_eq_ok.1 hq
  cases bid with
  | none => cases hq
  | some bid =>
    obtain ⟨bid', hbid', hq⟩ := bind_eq_ok.1 hq
    obtain ⟨ask, hask, hq⟩ := bind_eq_ok.1 hq
    cases ask with
    | none => cases hq
    | some ask =>
      obtain ⟨ask', hask', hq⟩ := bind_eq_ok.1 hq
      cases hq
      have hle := mean_mono h hlen hbid hask
      exact (mul_rounded hbid').mono (mul_rounded hask') (mul_le_mul_of_nonneg_right hle hmid)

end

/-- **Derived quotes do not cross.** If no peer's bid is above its ask, whatever their signs and scales,
the consensus is a quote that does not cross or its computation overflows; and so is that quote re-based
by an anchor mid that is not negative. (Peers are as many as a decimal can count.) -/
theorem consensus_uncrossed (hne : bids ≠ []) (hlen : bids.length < coeffBound)
    (h : List.Forall₂ (fun b a : Decimal => b.value ≤ a.value) bids asks) :
    ((∃ q, aggregate bids asks = .ok (some q) ∧ q.Uncrossed) ∨ ∃ e, aggregate bids asks = .error e ∧ e.IsOverflow) ∧
    ∀ mid : Decimal, 0 ≤ mid.value →
      (∃ q, dependentRate bids asks mid = .ok (some q) ∧ q.Uncrossed) ∨
        ∃ e, dependentRate bids asks mid = .error e ∧ e.IsOverflow := by
  have hasks : asks ≠ [] := by
    rintro rfl
    cases h
    exact hne rfl
  refine ⟨?_, fun mid hmid => ?_⟩
  · cases hq : aggregate bids asks with
    | error e => exact Or.inr ⟨e, rfl, aggregate_error hq⟩
    | ok o =>
      cases o with
      | none => exact absurd hq (aggregate_ne_none hne hasks)
      | some q => exact Or.inl ⟨q, rfl, aggregate_uncrossed hlen h hq⟩
  · cases hq : dependentRate bids asks mid with
    | error e => exact Or.inr ⟨e, rfl, dependentRate_error hq⟩
    | ok o =>
      cases o with
      | none => exact absurd hq (dependentRate_ne_none mid hne hasks)
      | some q => exact Or.inl ⟨q, rfl, dependentRate_uncrossed hlen h hmid hq⟩

def mixedBids : List Decimal := [(of? 5 1).getD zero, (of? (-125) 2).getD zero]

def mixedAsks : List Decimal := [(of? 50 2).getD zero, (of? 2 0).getD zero]

theorem consensus_uncrossed_mixed :
    ∃ q q', aggregate mixedBids mixedAsks = .ok (some q) ∧ q.Uncrossed ∧
      dependentRate mixedBids mixedAsks tolerance = .ok (some q') ∧ q'.Uncrossed := by
  have hordered : List.Forall₂ (fun b a : Decimal => b.value ≤ a.value) mixedBids mixedAsks := by
    norm_num [mixedBids, mixedAsks, of?, value_eq]
  obtain ⟨haggregate, hdependent⟩ := consensus_uncrossed (by decide) (by decide) hordered
  have hdependent := hdependent tolerance (by norm_num [value_eq, tolerance])
  obtain ⟨q, hq⟩ : ∃ q, aggregate mixedBids mixedAsks = .ok (some q) := ⟨_, rfl⟩
  obtain ⟨q', hq'⟩ : ∃ q, dependentRate mixedBids mixedAsks tolerance = .ok (some q) := ⟨_, rfl⟩
  rw [hq] at haggregate
  rw [hq'] at hdependent
  obtain ⟨_, heq, hu⟩ | ⟨e, he, -⟩ := haggregate
  · obtain ⟨_, heq', hu'⟩ | ⟨e, he, -⟩ := hdependent
    · cases heq
      cases heq'
      exact ⟨q, q', hq, hu, hq', hu'⟩
    · cases he
  · cases he

end Consensus

end RateDesk
