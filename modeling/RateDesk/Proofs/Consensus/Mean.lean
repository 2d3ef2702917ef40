import Mathlib.Algebra.Order.BigOperators.Group.List
import RateDesk.Proofs.Consensus.Peers
import RateDesk.Proofs.Decimal.Quotient

/-!
# Means that are rounded once

* `mean_of_total`, `midOf_of_sum` : once the sum is known, the mean is it divided and rounded, and there
  is no fault;
* `foldlM_add_exact` : sums with few digits are exact;
* `exactMean`, `mean_of_hasDigits` : so the mean of such numbers is the exact one, rounded once;
* `SumFits` : numbers whose absolute values have a sum of 96 bits;
* `Within`, `mean_exact_or_rounded` : their mean lies among them, and it is the exact one if that is a
  decimal, else off by at most half a unit of its last digit.
-/

namespace RateDesk.Consensus

open Decimal

variable {x y m total sum bid ask : Decimal} {xs bids asks : List Decimal} {n s : ℕ}

/-! ## Division of a sum -/

theorem value_ofNat (hn : n < coeffBound) : (ofNat n).value = n := by
  have hof : of? (n : ℤ) 0 = some ⟨n, 0, by simpa using hn, by norm_num⟩ := dif_pos ⟨by simpa using hn, by norm_num⟩
  rw [ofNat, hof, value_eq]
  simp

/-- Division by a whole number has a result. -/
theorem exists_div_natCast (hn : 0 < n) (hy : y.value = n) :
    ∃ z, x.div y = .ok z ∧ Rounded (x.value / n) z.value z.scale := by
  have hone : (1 : ℚ) ≤ n := by exact_mod_cast hn
  have hne : y.value ≠ 0 := by
    rw [hy]
    linarith
  have hle : |x.value / y.value| ≤ largest := by
    rw [hy, abs_div, abs_of_nonneg (by linarith : (0 : ℚ) ≤ n)]
    exact (div_le_self (abs_nonneg _) hone).trans x.abs_value_le
  obtain ⟨z, hz⟩ := exists_div hne hle
  exact ⟨z, hz, hy ▸ div_rounded hne hz⟩

/-- A mean has no fault but that of its sum. -/
theorem mean_of_total (hne : xs ≠ []) (hlen : xs.length < coeffBound) (h : xs.foldlM add zero = .ok total) :
    ∃ m, mean xs = .ok (some m) ∧ Rounded (total.value / xs.length) m.value m.scale := by
  obtain ⟨m, hm, hround⟩ := exists_div_natCast (x := total) (List.length_pos_iff.2 hne) (value_ofNat hlen)
  refine ⟨m, ?_, hround⟩
  unfold mean
  rw [if_neg (by simpa using hne), h]
  show (total.div (ofNat xs.length) >>= fun m => pure (some m)) = _
  rw [hm]
  rfl

theorem total_of_mean (hlen : xs.length < coeffBound) (h : mean xs = .ok (some m)) :
    ∃ total, xs.foldlM add zero = .ok total ∧ Rounded (total.value / xs.length) m.value m.scale := by
  have hne : xs ≠ [] := by
    rintro rfl
    cases h
  have hsum := h
  unfold mean at hsum
  rw [if_neg (by simpa using hne)] at hsum
  obtain ⟨total, htotal, -⟩ := bind_eq_ok.1 hsum
  obtain ⟨m', hm', hround⟩ := mean_of_total hne hlen htotal
  cases hm'.symm.trans h
  exact ⟨total, htotal, hround⟩

theorem midOf_of_sum (h : bid.add ask = .ok sum) :
    ∃ m, midOf bid ask = .ok m ∧ Rounded (sum.value / 2) m.value m.scale := by
  obtain ⟨m, hm, hround⟩ := exists_div_natCast (x := sum) (y := two) (n := 2) (by norm_num)
    (by norm_num [value_eq, two])
  refine ⟨m, ?_, by simpa using hround⟩
  unfold midOf
  rw [h]
  exact hm

/-! ## Exact sums -/

theorem foldlM_add_exact (hs : s ≤ maxScale) (hxs : ∀ x ∈ xs, HasDigits s x.value) (hy : HasDigits s y.value)
    (hsum : (|y.value| + (xs.map fun x => |x.value|).sum) * 10 ^ s ≤ largest) :
    ∃ z, xs.foldlM add y = .ok z ∧ z.value = y.value + (xs.map value).sum := by
  induction xs generalizing y with
  | nil => exact ⟨y, rfl, by simp⟩
  | cons x xs ih =>
    have hpow : (1 : ℚ) ≤ 10 ^ s := one_le_pow₀ (by norm_num)
    rw [List.map_cons, List.sum_cons] at hsum
    have hrest : 0 ≤ (xs.map fun x => |x.value|).sum := List.sum_nonneg (by simp)
    have habs := abs_add_le y.value x.value
    have hhead : |y.value + x.value| * 10 ^ s ≤ largest :=
      (mul_le_mul_of_nonneg_right (by linarith) (by positivity)).trans hsum
    obtain ⟨z, hz⟩ := exists_add ((le_mul_of_one_le_right (abs_nonneg _) hpow).trans hhead)
    have hdigits := hy.add (hxs x List.mem_cons_self)
    have hvalue : z.value = y.value + x.value := (add_rounded hz).eq_of_hasDigits hs hdigits hhead
    obtain ⟨w, hw, hwvalue⟩ := ih (y := z) (fun x hx => hxs x (List.mem_cons_of_mem _ hx)) (hvalue ▸ hdigits) (by
      rw [hvalue]
      exact (mul_le_mul_of_nonneg_right (by linarith) (by positivity)).trans hsum)
    refine ⟨w, by rw [List.foldlM_cons, hz]; exact hw, ?_⟩
    rw [hwvalue, hvalue, List.map_cons, List.sum_cons, add_assoc]

def exactMean (xs : List Decimal) : ℚ := (xs.map value).sum / xs.length

/-- A mean of numbers with few digits is rounded once, when the sum is divided. -/
theorem mean_of_hasDigits (hne : xs ≠ []) (hlen : xs.length < coeffBound) (hs : s ≤ maxScale)
    (hxs : ∀ x ∈ xs, HasDigits s x.value) (hsum : (xs.map fun x => |x.value|).sum * 10 ^ s ≤ largest) :
    ∃ m, mean xs = .ok (some m) ∧ Rounded (exactMean xs) m.value m.scale := by
  have hzero : zero.value = 0 := by norm_num [value_eq, zero]
  obtain ⟨total, htotal, hvalue⟩ := foldlM_add_exact (y := zero) hs hxs ⟨0, by rw [hzero]; simp⟩
    (by rwa [hzero, abs_zero, zero_add])
  rw [hzero, zero_add] at hvalue
  unfold exactMean
  rw [← hvalue]
  exact mean_of_total hne hlen htotal

/-! ## Sums of 96 bits -/

/-- The largest number of fraction digits in a list. -/
def finest (xs : List Decimal) : ℕ := xs.foldr (fun x s => max x.scale s) 0

theorem scale_le_finest (hx : x ∈ xs) : x.scale ≤ finest xs := by
  induction xs with
  | nil => cases hx
  | cons y ys ih =>
    rcases List.mem_cons.1 hx with rfl | hx
    · exact le_max_left _ _
    · exact (ih hx).trans (le_max_right _ _)

theorem finest_le (xs : List Decimal) : finest xs ≤ maxScale := by
  induction xs with
  | nil => exact Nat.zero_le _
  | cons y ys ih => exact max_le y.scale_le ih

/-- Some numbers, not more of them than a decimal can count, whose absolute values have a sum of 96 bits
at the largest scale among them. -/
structure SumFits (xs : List Decimal) : Prop where
  ne_nil : xs ≠ []
  length_lt : xs.length < coeffBound
  sum_lt : (xs.map fun x => (x.coeffAt (finest xs)).natAbs).sum < coeffBound

theorem cast_natAbs_coeffAt (h : x.scale ≤ s) : ((x.coeffAt s).natAbs : ℚ) = |x.value| * 10 ^ s := by
  rw [Nat.cast_natAbs, Int.cast_abs, cast_coeffAt h, abs_mul, abs_of_pos (by positivity : (0 : ℚ) < 10 ^ s)]

theorem cast_sum_natAbs (h : ∀ x ∈ xs, x.scale ≤ s) :
    (((xs.map fun x => (x.coeffAt s).natAbs).sum : ℕ) : ℚ) = (xs.map fun x => |x.value|).sum * 10 ^ s := by
  induction xs with
  | nil => simp
  | cons x xs ih =>
    rw [List.map_cons, List.map_cons, List.sum_cons, List.sum_cons, Nat.cast_add, add_mul,
      cast_natAbs_coeffAt (h x List.mem_cons_self), ih fun x hx => h x (List.mem_cons_of_mem _ hx)]

theorem SumFits.mean (h : SumFits xs) : ∃ m, mean xs = .ok (some m) ∧ Rounded (exactMean xs) m.value m.scale := by
  refine mean_of_hasDigits h.ne_nil h.length_lt (finest_le xs) (fun x hx => hasDigits_value (scale_le_finest hx)) ?_
  rw [← cast_sum_natAbs fun x hx => scale_le_finest hx, ← lt_coeffBound]
  exact h.sum_lt

/-! ## Means among what they are taken of -/

/-- A number lies between the least and the greatest of some numbers. -/
def Within (xs : List Decimal) (v : ℚ) : Prop := (∃ x ∈ xs, x.value ≤ v) ∧ ∃ x ∈ xs, v ≤ x.value

theorem exactMean_within (hne : xs ≠ []) : Within xs (exactMean xs) := by
  have hpos : (0 : ℚ) < xs.length := by exact_mod_cast List.length_pos_iff.2 hne
  have hsum : (xs.map fun _ => exactMean xs).sum = (xs.map value).sum := by
    rw [List.map_const', List.sum_replicate, nsmul_eq_mul, exactMean, mul_div_cancel₀ _ hpos.ne']
  exact ⟨List.exists_le_of_sum_le hne _ _ hsum.ge, List.exists_le_of_sum_le hne _ _ hsum.le⟩

/-- What lies among decimals still does so when it is rounded. -/
theorem Within.rounded {v w : ℚ} {t : ℤ} (h : Within xs v) (hround : Rounded v w t) : Within xs w := by
  obtain ⟨⟨lo, hlo, hle⟩, hi, hhi, hge⟩ := h
  exact ⟨⟨lo, hlo, (rounded_value lo).mono hround hle⟩, hi, hhi, hround.mono (rounded_value hi) hge⟩

/-- **A mean is exact or rounded once.** For numbers whose absolute values have a sum of 96 bits, the mean
has no fault and lies among them; it is the exact mean if that is a decimal, and differs from it by at
most half a unit of its last digit otherwise. So the consensus bid and ask lie among those of the
peers. -/
theorem mean_exact_or_rounded :
    (∀ xs, SumFits xs → ∃ m, mean xs = .ok (some m) ∧ Within xs m.value ∧
      (∀ y : Decimal, y.value = exactMean xs → m.value = exactMean xs) ∧
      |m.value - exactMean xs| ≤ 1 / 2 / 10 ^ m.scale) ∧
    ∀ bids asks, SumFits bids → SumFits asks → ∃ q, aggregate bids asks = .ok (some q) ∧
      Within bids q.bid.value ∧ Within asks q.ask.value := by
  refine ⟨fun xs h => ?_, fun bids asks hb ha => ?_⟩
  · obtain ⟨m, hm, hround⟩ := h.mean
    refine ⟨m, hm, (exactMean_within h.ne_nil).rounded hround, fun y hy => ?_, ?_⟩
    · rw [← hy] at hround ⊢
      exact hround.eq y.scale_le y.abs_coeff_le y.value_mul_pow
    · simpa [zpow_natCast] using hround.abs_sub_le
  · obtain ⟨bid, hbid, hbround⟩ := hb.mean
    obtain ⟨ask, hask, haround⟩ := ha.mean
    refine ⟨⟨bid, ask⟩, ?_, (exactMean_within hb.ne_nil).rounded hbround, (exactMean_within ha.ne_nil).rounded haround⟩
    simp only [aggregate, hbid, hask, bind, Except.bind, pure, Except.pure]

def thirds : List Decimal := [(of? 10 1).getD zero, (of? (-200) 2).getD zero, (of? 2 0).getD zero]

theorem mean_exact_or_rounded_third : SumFits thirds ∧ ∃ m, mean thirds = .ok (some m) ∧ Within thirds m.value ∧
    |m.value - 1 / 3| ≤ 1 / 2 / 10 ^ m.scale := by
  have hfits : SumFits thirds := ⟨by decide, by decide, by decide⟩
  have hthird : exactMean thirds = 1 / 3 := by norm_num [exactMean, thirds, of?, value_eq]
  obtain ⟨m, hm, hwithin, -, hclose⟩ := mean_exact_or_rounded.1 thirds hfits
  exact ⟨hfits, m, hm, hwithin, hthird ▸ hclose⟩

end RateDesk.Consensus
