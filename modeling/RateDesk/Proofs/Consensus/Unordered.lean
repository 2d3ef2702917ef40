import RateDesk.Proofs.Consensus.Moderate

/-!
# Means of quotes in any order

Sums of decimals depend on the order of the summands where they have to be rounded, and so do their scales.

* `add_exact` : the sum of two positive numbers that needs no rounding has the larger of their scales;
* `SumsExactly` : positive numbers whose sum at the largest scale among them has 96 bits; some of them do so as well
  (`SumsExactly.subperm`);
* `mean_perm` : the mean of such numbers is the same in any order, scale included;
* `SameMeans` : quotes with the same mean bid and the same mean ask; validation and everything that is derived depend
  on nothing else.
-/

namespace RateDesk

namespace Decimal

variable {x y : Decimal} {c : ℤ} {s : ℕ}

theorem eq_of_value_of_scale (hvalue : x.value = y.value) (hscale : x.scale = y.scale) : x = y := by
  have hcoeff : (x.coeff : ℚ) = y.coeff := by rw [← value_mul_pow, ← value_mul_pow, hvalue, hscale]
  cases x
  cases y
  congr
  exact Int.cast_injective hcoeff

/-- A coefficient in range is not rounded. -/
theorem fit_of_lt (hc : c.natAbs < coeffBound) (hs : s ≤ maxScale) : fit c s = of? c s := by
  have hround : roundHalfEven c.natAbs (tenPow 0) = c.natAbs := by
    rw [roundHalfEven, show tenPow 0 = 1 from rfl, Nat.div_one, Nat.mod_one]
    simp
  have hcut : fitBelow c.natAbs 0 s = some (c.natAbs, s) := by
    cases s <;> rw [fitBelow, hround, if_pos hc]
  have hsign : (if c < 0 then -(c.natAbs : ℤ) else c.natAbs) = c := by
    split <;> omega
  unfold fit
  rw [Nat.sub_eq_zero_of_le hs, min_eq_left hs, hcut]
  exact congrArg (of? · s) hsign

/-- A sum of positive numbers that needs no rounding has the larger of their scales. -/
theorem add_exact (hx : 0 < x.value) (hy : 0 < y.value)
    (hle : (x.value + y.value) * 10 ^ max x.scale y.scale ≤ largest) :
    ∃ z, x.add y = .ok z ∧ z.value = x.value + y.value ∧ z.scale = max x.scale y.scale := by
  set s := max x.scale y.scale with hs
  have hscale : s ≤ maxScale := max_le x.scale_le y.scale_le
  have hcast : ((x.coeffAt s + y.coeffAt s : ℤ) : ℚ) = (x.value + y.value) * 10 ^ s := by
    rw [Int.cast_add, cast_coeffAt (le_max_left _ _), cast_coeffAt (le_max_right _ _), ← add_mul]
  have hlt : (x.coeffAt s + y.coeffAt s).natAbs < coeffBound := by
    rw [natAbs_lt_coeffBound, hcast, abs_of_nonneg (by positivity)]
    exact hle
  obtain ⟨z, hz⟩ := exists_of? hlt hscale
  obtain ⟨hvalue, hzscale⟩ := of?_eq_some hz
  refine ⟨z, ?_, ?_, hzscale⟩
  · unfold add
    rw [if_neg (by rw [isZero_iff]; exact hx.ne'), if_neg (by rw [isZero_iff]; exact hy.ne')]
    dsimp only
    rw [← hs, fit_of_lt hlt hscale, hz]
  · rw [hvalue, hcast, mul_div_cancel_right₀ _ (by positivity)]

end Decimal

namespace Consensus

open Decimal

variable {x y : Decimal} {xs ys : List Decimal} {s : ℕ}

/-! ## Sums that need no rounding -/

/-- Positive numbers whose sum at the largest scale among them has a coefficient of 96 bits. -/
structure SumsExactly (xs : List Decimal) : Prop where
  pos : ∀ x ∈ xs, 0 < x.value
  sum_lt : (xs.map fun x => (x.coeffAt (finest xs)).natAbs).sum < coeffBound

theorem finest_le_of_forall (h : ∀ x ∈ xs, x.scale ≤ s) : finest xs ≤ s := by
  induction xs with
  | nil => exact Nat.zero_le s
  | cons x xs ih => exact max_le (h x List.mem_cons_self) (ih fun y hy => h y (List.mem_cons_of_mem x hy))

theorem finest_mono (h : xs ⊆ ys) : finest xs ≤ finest ys := finest_le_of_forall fun _ hx => scale_le_finest (h hx)

theorem finest_perm (h : xs.Perm ys) : finest xs = finest ys :=
  le_antisymm (finest_mono h.subset) (finest_mono h.symm.subset)

theorem sumsExactly_iff :
    SumsExactly xs ↔ (∀ x ∈ xs, 0 < x.value) ∧ (xs.map value).sum * 10 ^ finest xs ≤ largest := by
  have hsum (h : ∀ x ∈ xs, 0 < x.value) :
      (xs.map fun x => (x.coeffAt (finest xs)).natAbs).sum < coeffBound ↔
        (xs.map value).sum * 10 ^ finest xs ≤ largest := by
    have habs : (xs.map fun x => |x.value|) = xs.map value := List.map_congr_left fun x hx => abs_of_pos (h x hx)
    rw [lt_coeffBound, cast_sum_natAbs fun x hx => scale_le_finest hx, habs]
  exact ⟨fun h => ⟨h.pos, (hsum h.pos).1 h.sum_lt⟩, fun h => ⟨h.1, (hsum h.1).2 h.2⟩⟩

/-- Fewer numbers, in any order, have a smaller sum at a scale that is not larger. -/
theorem SumsExactly.subperm (h : SumsExactly ys) (hsub : xs.Subperm ys) : SumsExactly xs := by
  obtain ⟨hpos, hsum⟩ := sumsExactly_iff.1 h
  obtain ⟨zs, hperm, hsublist⟩ := hsub
  have hsubset : xs ⊆ ys := fun x hx => hsublist.subset (hperm.symm.subset hx)
  refine sumsExactly_iff.2 ⟨fun x hx => hpos x (hsubset hx), le_trans ?_ hsum⟩
  have hle : (xs.map value).sum ≤ (ys.map value).sum := by
    rw [← (hperm.map value).sum_eq]
    refine (hsublist.map value).sum_le_sum fun v hv => ?_
    obtain ⟨y, hy, rfl⟩ := List.mem_map.1 hv
    exact (hpos y hy).le
  have hnonneg : 0 ≤ (ys.map value).sum := List.sum_nonneg fun v hv => by
    obtain ⟨y, hy, rfl⟩ := List.mem_map.1 hv
    exact (hpos y hy).le
  exact mul_le_mul hle (pow_le_pow_right₀ (by norm_num) (finest_mono hsubset)) (by positivity) hnonneg

theorem SumsExactly.tail (h : SumsExactly (x :: xs)) : SumsExactly xs := h.subperm (List.sublist_cons_self x xs).subperm

/-! ## Sums and means -/

theorem foldlM_add_positive (hy : 0 < y.value) (hxs : ∀ x ∈ xs, 0 < x.value)
    (hsum : (y.value + (xs.map value).sum) * 10 ^ max y.scale (finest xs) ≤ largest) :
    ∃ z, xs.foldlM add y = .ok z ∧ z.value = y.value + (xs.map value).sum ∧ z.scale = max y.scale (finest xs) := by
  induction xs generalizing y with
  | nil => exact ⟨y, rfl, (add_zero _).symm, (Nat.max_zero _).symm⟩
  | cons x xs ih =>
    have hx := hxs x List.mem_cons_self
    have hscales : max y.scale (finest (x :: xs)) = max (max y.scale x.scale) (finest xs) := (Nat.max_assoc ..).symm
    have hnonneg : 0 ≤ (xs.map value).sum := List.sum_nonneg fun v hv => by
      obtain ⟨w, hw, rfl⟩ := List.mem_map.1 hv
      exact (hxs w (List.mem_cons_of_mem x hw)).le
    rw [List.map_cons, List.sum_cons, hscales, ← add_assoc] at hsum
    have hhead : (y.value + x.value) * 10 ^ max y.scale x.scale ≤ largest :=
      (mul_le_mul (by linarith) (pow_le_pow_right₀ (by norm_num) (le_max_left _ _)) (by positivity)
        (by positivity)).trans hsum
    obtain ⟨z, hz, hvalue, hscale⟩ := add_exact hy hx hhead
    obtain ⟨w, hw, hwvalue, hwscale⟩ := ih (y := z) (by rw [hvalue]; positivity)
      (fun x hx => hxs x (List.mem_cons_of_mem _ hx)) (by rwa [hvalue, hscale])
    refine ⟨w, by rw [List.foldlM_cons, hz]; exact hw, ?_, by rw [hwscale, hscale, hscales]⟩
    rw [hwvalue, hvalue, List.map_cons, List.sum_cons, add_assoc]

/-- Numbers that sum exactly have the exact sum at the largest scale among them. -/
theorem SumsExactly.total (h : SumsExactly xs) :
    ∃ z, xs.foldlM add zero = .ok z ∧ z.value = (xs.map value).sum ∧ z.scale = finest xs := by
  obtain ⟨hpos, hsum⟩ := sumsExactly_iff.1 h
  cases xs with
  | nil => exact ⟨zero, rfl, value_zero, rfl⟩
  | cons x xs =>
    exact foldlM_add_positive (hpos x List.mem_cons_self) (fun y hy => hpos y (List.mem_cons_of_mem x hy)) hsum

theorem SumsExactly.foldlM_perm (h : SumsExactly xs) (hperm : xs.Perm ys) :
    xs.foldlM add zero = ys.foldlM add zero := by
  obtain ⟨z, hz, hvalue, hscale⟩ := h.total
  obtain ⟨w, hw, hwvalue, hwscale⟩ := (h.subperm hperm.symm.subperm).total
  rw [hz, hw, eq_of_value_of_scale (hvalue.trans ((hperm.map value).sum_eq.trans hwvalue.symm))
    (hscale.trans ((finest_perm hperm).trans hwscale.symm))]

/-- The mean of numbers that sum exactly is the same in any order. -/
theorem mean_perm (h : SumsExactly xs) (hperm : xs.Perm ys) : mean xs = mean ys := by
  unfold mean
  rw [hperm.isEmpty_eq, hperm.length_eq, h.foldlM_perm hperm]

/-! ## What depends on the means -/

/-- Rates with the same mean bid and the same mean ask, or with the same faults. -/
structure SameMeans (rs rs' : List Rate) : Prop where
  bids : mean (rs.map Rate.bid) = mean (rs'.map Rate.bid)
  asks : mean (rs.map Rate.ask) = mean (rs'.map Rate.ask)

variable {rs rs' : List Rate}

theorem sameMeans_perm (hbids : SumsExactly (rs.map Rate.bid)) (hasks : SumsExactly (rs.map Rate.ask))
    (h : rs.Perm rs') : SameMeans rs rs' :=
  ⟨mean_perm hbids (h.map Rate.bid), mean_perm hasks (h.map Rate.ask)⟩

theorem mean_eq_none : mean xs = .ok none ↔ xs = [] := by
  refine ⟨fun h => ?_, fun h => by rw [h]; rfl⟩
  by_contra hne
  exact mean_ne_none hne h

theorem SameMeans.isEmpty (h : SameMeans rs rs') : (rs.map Rate.bid).isEmpty = (rs'.map Rate.bid).isEmpty := by
  have hiff : rs.map Rate.bid = [] ↔ rs'.map Rate.bid = [] := by rw [← mean_eq_none, ← mean_eq_none, h.bids]
  rw [Bool.eq_iff_iff, List.isEmpty_iff, List.isEmpty_iff, hiff]

theorem SameMeans.aggregate (h : SameMeans rs rs') :
    aggregate (rs.map Rate.bid) (rs.map Rate.ask) = aggregate (rs'.map Rate.bid) (rs'.map Rate.ask) := by
  unfold Consensus.aggregate
  rw [h.bids, h.asks]

theorem SameMeans.dependentRate (h : SameMeans rs rs') (mid : Decimal) :
    dependentRate (rs.map Rate.bid) (rs.map Rate.ask) mid =
      dependentRate (rs'.map Rate.bid) (rs'.map Rate.ask) mid := by
  unfold Consensus.dependentRate
  rw [h.bids, h.asks]

theorem SameMeans.isValid (h : SameMeans rs rs') (bid ask : Decimal) :
    isValid bid ask (rs.map Rate.bid) (rs.map Rate.ask) = isValid bid ask (rs'.map Rate.bid) (rs'.map Rate.ask) := by
  unfold Consensus.isValid referenceMid
  rw [h.bids, h.asks]

end Consensus

end RateDesk
