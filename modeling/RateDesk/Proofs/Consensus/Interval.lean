import Mathlib.Order.Interval.Set.OrdConnected
import RateDesk.Proofs.Consensus.Moderate

/-!
# The mids that are accepted

* `Near` : a mid whose computed deviation from the reference is within the tolerance;
* `isValid_eq_true` : a quote is accepted exactly if its mid is near a positive reference;
* `Near.of_closer` : what is not further from the reference than something near is near as well, and nothing that
  has to be computed for it leaves its range;
* `accepted_mids_connected` : so the mids that are accepted form an interval around the reference.
-/

namespace RateDesk.Consensus

open Decimal

variable {bid ask bid₁ ask₁ bid₂ ask₂ m m₁ m₂ reference gap deviation : Decimal} {bids asks : List Decimal}

/-! ## Near the reference -/

/-- A mid is within the tolerance of a reference, as far as decimals tell. -/
def Near (reference m : Decimal) : Prop :=
  ∃ gap deviation, m.sub reference = .ok gap ∧ gap.abs.div reference = .ok deviation ∧
    deviation.value ≤ tolerance.value

theorem isValid_eq_true :
    isValid bid ask bids asks = .ok (some true) ↔
      ∃ reference m, referenceMid bids asks = .ok (some reference) ∧ 0 < reference.value ∧ midOf bid ask = .ok m ∧
        Near reference m := by
  constructor
  · intro h
    obtain ⟨reference?, href, h⟩ := bind_eq_ok.1 h
    cases reference? with
    | none => cases h
    | some reference =>
      dsimp only at h
      split at h
      · cases h
      · rename_i hpos
        obtain ⟨m, hm, h⟩ := bind_eq_ok.1 h
        obtain ⟨gap, hgap, h⟩ := bind_eq_ok.1 h
        obtain ⟨deviation, hdev, h⟩ := bind_eq_ok.1 h
        rw [le_iff, value_zero, not_le] at hpos
        refine ⟨reference, m, href, hpos, hm, gap, deviation, hgap, hdev, ?_⟩
        exact le_iff.1 (Option.some.inj (Except.ok.inj h))
  · rintro ⟨reference, m, href, hpos, hm, gap, deviation, hgap, hdev, hle⟩
    rw [isValid_of_deviation href hpos hm hgap hdev, le_iff.2 hle]

/-- A quotient that is rounded to a hundredth at most is less than one. -/
theorem lt_one_of_rounded {u w : ℚ} {t : ℤ} (h : Rounded u w t) (hle : w ≤ tolerance.value) : u < 1 := by
  by_contra hge
  have hone : 1 ≤ w := by
    have hge := h.ge (c := 1) (s := 0) (Nat.zero_le _) (by norm_num [largest]) (by simpa using hge)
    simpa using hge
  rw [value_tolerance] at hle
  linarith

/-- The gap to something near is less than the reference. -/
theorem gap_lt_reference (hpos : 0 < reference.value) (hdev : gap.abs.div reference = .ok deviation)
    (hle : deviation.value ≤ tolerance.value) : |gap.value| < reference.value := by
  have hlt := lt_one_of_rounded (div_rounded hpos.ne' hdev) hle
  rwa [div_lt_one hpos, value_abs] at hlt

/-- The distance to something near has a representation. -/
theorem distance_le_largest (hgap : m.sub reference = .ok gap)
    (hlt : |gap.value| < reference.value) : |m.value - reference.value| ≤ largest := by
  by_contra hfar
  have hge := (sub_rounded hgap).abs.ge (c := 2 ^ 96 - 1) (s := 0) (Nat.zero_le _) (by norm_num [largest])
    (by push_cast; linarith)
  have hreference := (abs_le.1 reference.abs_value_le).2
  push_cast at hge
  linarith

/-- Subtraction and division keep the order of distances, at whatever digits they round. -/
theorem Near.of_closer (hpos : 0 < reference.value) (h : Near reference m₁)
    (hcloser : |m.value - reference.value| ≤ |m₁.value - reference.value|) : Near reference m := by
  obtain ⟨gap₁, deviation₁, hgap₁, hdev₁, hle₁⟩ := h
  have hlt := gap_lt_reference hpos hdev₁ hle₁
  obtain ⟨gap, hgap⟩ := exists_sub (hcloser.trans (distance_le_largest hgap₁ hlt))
  have hgaps : gap.abs.value ≤ gap₁.abs.value := by
    rw [value_abs, value_abs]
    exact (sub_rounded hgap).abs.mono (sub_rounded hgap₁).abs hcloser
  have hratios : gap.abs.value / reference.value ≤ gap₁.abs.value / reference.value :=
    div_le_div_of_nonneg_right hgaps hpos.le
  have hnonneg : 0 ≤ gap.abs.value / reference.value := by
    rw [value_abs]
    positivity
  have hone : gap₁.abs.value / reference.value ≤ 1 := by
    rw [div_le_one hpos, value_abs]
    exact hlt.le
  obtain ⟨deviation, hdev⟩ := exists_div (x := gap.abs) hpos.ne' (by
    rw [abs_of_nonneg hnonneg]
    exact (hratios.trans hone).trans (by norm_num [largest]))
  exact ⟨gap, deviation, hgap, hdev,
    ((div_rounded hpos.ne' hdev).mono (div_rounded hpos.ne' hdev₁) hratios).trans hle₁⟩

/-! ## Between two accepted mids -/

theorem isValid_between (h₁ : midOf bid₁ ask₁ = .ok m₁) (h : midOf bid ask = .ok m) (h₂ : midOf bid₂ ask₂ = .ok m₂)
    (hle₁ : m₁.value ≤ m.value) (hle₂ : m.value ≤ m₂.value) (hv₁ : isValid bid₁ ask₁ bids asks = .ok (some true))
    (hv₂ : isValid bid₂ ask₂ bids asks = .ok (some true)) : isValid bid ask bids asks = .ok (some true) := by
  obtain ⟨reference, _, href, hpos, hm₁, hnear₁⟩ := isValid_eq_true.1 hv₁
  obtain ⟨_, _, href₂, -, hm₂, hnear₂⟩ := isValid_eq_true.1 hv₂
  cases href.symm.trans href₂
  cases h₁.symm.trans hm₁
  cases h₂.symm.trans hm₂
  refine isValid_eq_true.2 ⟨reference, m, href, hpos, h, ?_⟩
  rcases le_total m.value reference.value with hside | hside
  · refine hnear₁.of_closer hpos ?_
    rw [abs_of_nonpos (by linarith), abs_of_nonpos (by linarith)]
    linarith
  · refine hnear₂.of_closer hpos ?_
    rw [abs_of_nonneg (by linarith), abs_of_nonneg (by linarith)]
    linarith

/-- **The accepted mids form an interval.** Whatever the peers are: a quote whose mid lies between those of two
accepted quotes is accepted, and no computation for it overflows. In other words, the peers accept exactly the
quotes whose mids lie in one interval. -/
theorem accepted_mids_connected (bids asks : List Decimal) :
    (∀ bid₁ ask₁ bid ask bid₂ ask₂ m₁ m m₂ : Decimal, midOf bid₁ ask₁ = .ok m₁ → midOf bid ask = .ok m →
      midOf bid₂ ask₂ = .ok m₂ → m₁.value ≤ m.value → m.value ≤ m₂.value →
      isValid bid₁ ask₁ bids asks = .ok (some true) → isValid bid₂ ask₂ bids asks = .ok (some true) →
      isValid bid ask bids asks = .ok (some true)) ∧
    ∃ s : Set ℚ, s.OrdConnected ∧
      ∀ bid ask m, midOf bid ask = .ok m → (isValid bid ask bids asks = .ok (some true) ↔ m.value ∈ s) := by
  refine ⟨fun _ _ _ _ _ _ _ _ _ h₁ h h₂ hle₁ hle₂ => isValid_between h₁ h h₂ hle₁ hle₂, ?_⟩
  refine ⟨{v | ∃ bid₁ ask₁ m₁ bid₂ ask₂ m₂, midOf bid₁ ask₁ = .ok m₁ ∧ midOf bid₂ ask₂ = .ok m₂ ∧
    isValid bid₁ ask₁ bids asks = .ok (some true) ∧ isValid bid₂ ask₂ bids asks = .ok (some true) ∧
    m₁.value ≤ v ∧ v ≤ m₂.value}, ⟨?_⟩, fun bid ask m hm => ⟨fun hv => ?_, ?_⟩⟩
  · rintro v ⟨bid₁, ask₁, m₁, _, _, _, hm₁, -, hv₁, -, hle₁, -⟩ w ⟨_, _, _, bid₂, ask₂, m₂, -, hm₂, -, hv₂, -, hle₂⟩
    intro u hu
    exact ⟨bid₁, ask₁, m₁, bid₂, ask₂, m₂, hm₁, hm₂, hv₁, hv₂, hle₁.trans hu.1, hu.2.trans hle₂⟩
  · exact ⟨bid, ask, m, bid, ask, m, hm, hm, hv, hv, le_rfl, le_rfl⟩
  · rintro ⟨_, _, m₁, _, _, m₂, hm₁, hm₂, hv₁, hv₂, hle₁, hle₂⟩
    exact isValid_between hm₁ hm hm₂ hle₁ hle₂ hv₁ hv₂

/-- Bids of 1, 2.0 and 1.00, whose mean has no last digit. -/
def unevenBids : List Decimal := [(of? 1 0).getD zero, (of? 20 1).getD zero, (of? 100 2).getD zero]

def unevenAsks : List Decimal := [(of? 15 1).getD zero, (of? 17 1).getD zero]

/-- The reference is 22/15, rounded to 28 digits: mids of 1.455 and 1.48 are accepted, so 1.4600000001 is; 1.45 is
not. -/
theorem accepted_mids_connected_uneven :
    isValid ((of? 145 2).getD zero) ((of? 146 2).getD zero) unevenBids unevenAsks = .ok (some true) ∧
    isValid ((of? 14599999999 10).getD zero) ((of? 14600000003 10).getD zero) unevenBids unevenAsks =
      .ok (some true) ∧
    isValid ((of? 147 2).getD zero) ((of? 149 2).getD zero) unevenBids unevenAsks = .ok (some true) ∧
    isValid ((of? 145 2).getD zero) ((of? 145 2).getD zero) unevenBids unevenAsks = .ok (some false) := by
  have hlow : isValid ((of? 145 2).getD zero) ((of? 146 2).getD zero) unevenBids unevenAsks = .ok (some true) := by rfl
  have hhigh : isValid ((of? 147 2).getD zero) ((of? 149 2).getD zero) unevenBids unevenAsks = .ok (some true) := by
    rfl
  have hmid₁ : midOf ((of? 145 2).getD zero) ((of? 146 2).getD zero) = .ok ((of? 14550 4).getD zero) := by rfl
  have hmid : midOf ((of? 14599999999 10).getD zero) ((of? 14600000003 10).getD zero) =
      .ok ((of? 14600000001 10).getD zero) := by rfl
  have hmid₂ : midOf ((of? 147 2).getD zero) ((of? 149 2).getD zero) = .ok ((of? 148 2).getD zero) := by rfl
  refine ⟨hlow, ?_, hhigh, by rfl⟩
  exact (accepted_mids_connected unevenBids unevenAsks).1 _ _ _ _ _ _ _ _ _ hmid₁ hmid hmid₂
    (by norm_num [of?, value_eq]) (by norm_num [of?, value_eq]) hlow hhigh

end RateDesk.Consensus
