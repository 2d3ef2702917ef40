import RateDesk.Proofs.Consensus.Mean

/-!
# Moderate quotes

Bids and asks between a billionth and a billion.

* `Decimal.Moderate`, `Moderates` : such numbers, and lists of them that a machine can count;
* `mean_moderate`, `midOf_moderate`, `referenceMid_moderate` : means and middles are as moderate as what
  they are taken of, although every sum and every quotient is rounded;
* `isValid_decided` : the comparison with peers is decided, and it turns no quote away whose mid is
  within the tolerance;
* `aggregate_moderate`, `dependentRate_ok` : whatever is derived from such quotes has a representation.
-/

namespace RateDesk

/-- A number between a billionth and a billion. -/
structure Decimal.Moderate (x : Decimal) : Prop where
  lower : 1 / 10 ^ 9 ≤ x.value
  upper : x.value ≤ 10 ^ 9

namespace Consensus

open Decimal

/-- Moderate numbers, not more of them than there are counts of 64 bits. -/
structure Moderates (xs : List Decimal) : Prop where
  moderate : ∀ x ∈ xs, x.Moderate
  length_le : xs.length ≤ twoPow 64

variable {x y bid ask mid : Decimal} {xs bids asks : List Decimal} {n : ℕ}

theorem pos_of_moderate (h : x.Moderate) : 0 < x.value :=
  lt_of_lt_of_le (by norm_num) h.lower

/-! ## Sums -/

theorem billions_le_largest (hn : n ≤ twoPow 64) : (n * 10 ^ 9 : ℚ) ≤ largest := by
  have hn : (n : ℚ) ≤ 2 ^ 64 := by exact_mod_cast hn
  calc (n * 10 ^ 9 : ℚ) ≤ 2 ^ 64 * 10 ^ 9 := mul_le_mul_of_nonneg_right hn (by norm_num)
    _ ≤ largest := by norm_num [largest]

/-- Rounding keeps a number between so many billionths and so many billions. -/
theorem between_of_rounded {v w : ℚ} {t : ℤ} (h : Rounded v w t) (hn : n ≤ twoPow 64) (hlow : n / 10 ^ 9 ≤ v)
    (hhigh : v ≤ n * 10 ^ 9) : n / 10 ^ 9 ≤ w ∧ w ≤ n * 10 ^ 9 := by
  have hbillions := billions_le_largest hn
  have hnonneg : (0 : ℚ) ≤ n := Nat.cast_nonneg n
  constructor
  · have hge := h.ge (c := n) (s := 9) (by norm_num) ?_ (by simpa using hlow)
    · simpa using hge
    · rw [Int.cast_natCast, abs_of_nonneg hnonneg]
      linarith
  · have hcast : ((n * 10 ^ 9 : ℕ) : ℚ) = n * 10 ^ 9 := by push_cast; rfl
    have hle := h.le_natCast (n := n * 10 ^ 9) (by rwa [hcast]) (by rwa [hcast])
    rwa [hcast] at hle

theorem add_between (hn : n + 1 ≤ twoPow 64) (hlow : n / 10 ^ 9 ≤ x.value) (hhigh : x.value ≤ n * 10 ^ 9)
    (hy : y.Moderate) :
    ∃ z, x.add y = .ok z ∧ ((n + 1 : ℕ) : ℚ) / 10 ^ 9 ≤ z.value ∧ z.value ≤ (n + 1 : ℕ) * 10 ^ 9 := by
  have hx : 0 ≤ x.value := le_trans (by positivity) hlow
  have hlow' : ((n + 1 : ℕ) : ℚ) / 10 ^ 9 ≤ x.value + y.value := by
    push_cast
    rw [add_div]
    exact add_le_add hlow hy.lower
  have hhigh' : x.value + y.value ≤ (n + 1 : ℕ) * 10 ^ 9 := by
    push_cast
    rw [add_mul, one_mul]
    exact add_le_add hhigh hy.upper
  have hfits : |x.value + y.value| ≤ largest := by
    rw [abs_of_nonneg (add_nonneg hx (pos_of_moderate hy).le)]
    exact hhigh'.trans (billions_le_largest hn)
  obtain ⟨z, hz⟩ := exists_add hfits
  exact ⟨z, hz, between_of_rounded (add_rounded hz) hn hlow' hhigh'⟩

theorem foldlM_add_between (hxs : ∀ x ∈ xs, x.Moderate) (hn : n + xs.length ≤ twoPow 64) (hlow : n / 10 ^ 9 ≤ y.value)
    (hhigh : y.value ≤ n * 10 ^ 9) :
    ∃ z, xs.foldlM add y = .ok z ∧ ((n + xs.length : ℕ) : ℚ) / 10 ^ 9 ≤ z.value ∧
      z.value ≤ (n + xs.length : ℕ) * 10 ^ 9 := by
  induction xs generalizing y n with
  | nil => exact ⟨y, rfl, hlow, hhigh⟩
  | cons x xs ih =>
    rw [List.length_cons] at hn ⊢
    obtain ⟨z, hz, hlow', hhigh'⟩ := add_between (by omega) hlow hhigh (hxs x List.mem_cons_self)
    obtain ⟨w, hw, hbetween⟩ := ih (fun x hx => hxs x (List.mem_cons_of_mem _ hx)) (by omega) hlow' hhigh'
    rw [show n + 1 + xs.length = n + (xs.length + 1) by omega] at hbetween
    exact ⟨w, by rw [List.foldlM_cons, hz]; exact hw, hbetween⟩

/-! ## Means -/

theorem moderate_of_quotient (hn : 0 < n) (hlow : n / 10 ^ 9 ≤ x.value) (hhigh : x.value ≤ n * 10 ^ 9)
    (h : Rounded (x.value / n) y.value y.scale) : y.Moderate := by
  have hpos : (0 : ℚ) < n := by exact_mod_cast hn
  have hlow' : ((1 : ℕ) : ℚ) / 10 ^ 9 ≤ x.value / n := by
    rw [le_div_iff₀ hpos]
    push_cast
    linarith
  have hhigh' : x.value / n ≤ (1 : ℕ) * 10 ^ 9 := by
    rw [div_le_iff₀ hpos]
    push_cast
    linarith
  obtain ⟨hylow, hyhigh⟩ := between_of_rounded h (by norm_num) hlow' hhigh'
  exact ⟨by simpa using hylow, by simpa using hyhigh⟩

theorem mean_moderate (h : Moderates xs) (hne : xs ≠ []) : ∃ m, mean xs = .ok (some m) ∧ m.Moderate := by
  have hlen := h.length_le
  obtain ⟨total, htotal, hlow, hhigh⟩ := foldlM_add_between (n := 0) (y := zero) h.moderate (by omega)
    (by norm_num [value_eq, zero]) (by norm_num [value_eq, zero])
  rw [Nat.zero_add] at hlow hhigh
  obtain ⟨m, hm, hround⟩ := mean_of_total hne (hlen.trans_lt (by norm_num)) htotal
  exact ⟨m, hm, moderate_of_quotient (List.length_pos_iff.2 hne) hlow hhigh hround⟩

theorem midOf_moderate (hbid : bid.Moderate) (hask : ask.Moderate) : ∃ m, midOf bid ask = .ok m ∧ m.Moderate := by
  have hlow : ((1 : ℕ) : ℚ) / 10 ^ 9 ≤ bid.value := by simpa using hbid.lower
  have hhigh : bid.value ≤ (1 : ℕ) * 10 ^ 9 := by simpa using hbid.upper
  obtain ⟨sum, hsum, hlow', hhigh'⟩ := add_between (by norm_num) hlow hhigh hask
  obtain ⟨m, hm, hround⟩ := midOf_of_sum hsum
  exact ⟨m, hm, moderate_of_quotient (n := 1 + 1) (by norm_num) hlow' hhigh' (by norm_num at hround ⊢; exact hround)⟩

theorem referenceMid_of_means (hbid : mean bids = .ok (some bid)) (hask : mean asks = .ok (some ask))
    (hmid : midOf bid ask = .ok mid) : referenceMid bids asks = .ok (some mid) := by
  simp only [referenceMid, hbid, hask, hmid, bind, Except.bind, pure, Except.pure]

theorem referenceMid_moderate (hbids : Moderates bids) (hasks : Moderates asks) (hb : bids ≠ []) (ha : asks ≠ []) :
    ∃ m, referenceMid bids asks = .ok (some m) ∧ m.Moderate := by
  obtain ⟨bid, hbid, hbidmod⟩ := mean_moderate hbids hb
  obtain ⟨ask, hask, haskmod⟩ := mean_moderate hasks ha
  obtain ⟨m, hm, hmod⟩ := midOf_moderate hbidmod haskmod
  exact ⟨m, referenceMid_of_means hbid hask hm, hmod⟩

theorem aggregate_moderate (hbids : Moderates bids) (hasks : Moderates asks) (hb : bids ≠ []) (ha : asks ≠ []) :
    ∃ q, aggregate bids asks = .ok (some q) ∧ q.bid.Moderate ∧ q.ask.Moderate := by
  obtain ⟨bid, hbid, hbidmod⟩ := mean_moderate hbids hb
  obtain ⟨ask, hask, haskmod⟩ := mean_moderate hasks ha
  refine ⟨⟨bid, ask⟩, ?_, hbidmod, haskmod⟩
  simp only [aggregate, hbid, hask, bind, Except.bind, pure, Except.pure]

theorem mul_moderate (hx : x.Moderate) (hy : y.Moderate) : ∃ z, x.mul y = .ok z := by
  apply exists_mul
  rw [abs_of_nonneg (mul_nonneg (pos_of_moderate hx).le (pos_of_moderate hy).le)]
  calc x.value * y.value ≤ 10 ^ 9 * 10 ^ 9 := mul_le_mul hx.upper hy.upper (pos_of_moderate hy).le (by norm_num)
    _ ≤ largest := by norm_num [largest]

theorem dependentRate_ok (hbids : Moderates bids) (hasks : Moderates asks) (hb : bids ≠ []) (ha : asks ≠ [])
    (hmid : mid.Moderate) : ∃ q, dependentRate bids asks mid = .ok (some q) := by
  obtain ⟨bid, hbid, hbidmod⟩ := mean_moderate hbids hb
  obtain ⟨ask, hask, haskmod⟩ := mean_moderate hasks ha
  obtain ⟨bid', hbid'⟩ := mul_moderate hbidmod hmid
  obtain ⟨ask', hask'⟩ := mul_moderate haskmod hmid
  refine ⟨⟨bid', ask'⟩, ?_⟩
  simp only [dependentRate, hbid, hask, hbid', hask', bind, Except.bind, pure, Except.pure]

/-! ## The comparison with peers -/

theorem value_mul_pow_le (x : Decimal) : x.value * 10 ^ x.scale ≤ largest := by
  rw [value_mul_pow]
  exact (abs_le.1 x.abs_coeff_le).2

/-- The distance of two numbers of which the first is within a hundredth of the second has a
representation. -/
theorem exists_distance (hx : 0 < x.value) (hy : 0 < y.value) (hnear : |x.value - y.value| ≤ y.value / 100) :
    ∃ (c : ℤ) (s : ℕ), s ≤ maxScale ∧ |(c : ℚ)| ≤ largest ∧ (x.value - y.value) * 10 ^ s = c := by
  set s := max x.scale y.scale with hs
  have hscale : s ≤ maxScale := max_le x.scale_le y.scale_le
  have hpow : (0 : ℚ) < 10 ^ s := by positivity
  have hc : ((x.coeffAt s - y.coeffAt s : ℤ) : ℚ) = (x.value - y.value) * 10 ^ s := by
    rw [Int.cast_sub, cast_coeffAt (le_max_left _ _), cast_coeffAt (le_max_right _ _), ← sub_mul]
  refine ⟨x.coeffAt s - y.coeffAt s, s, hscale, ?_, hc.symm⟩
  have hlex : |x.value - y.value| ≤ x.value := by linarith [(abs_le.1 hnear).1]
  have hley : |x.value - y.value| ≤ y.value := by linarith
  rw [hc, abs_mul, abs_of_pos hpow]
  rcases le_total x.scale y.scale with hle | hle
  · rw [hs, max_eq_right hle]
    exact (mul_le_mul_of_nonneg_right hley (by positivity)).trans (value_mul_pow_le y)
  · rw [hs, max_eq_left hle]
    exact (mul_le_mul_of_nonneg_right hlex (by positivity)).trans (value_mul_pow_le x)

theorem value_tolerance : tolerance.value = 1 / 100 := by norm_num [value_eq, tolerance]

/-- The deviation is computed, and it is not above the tolerance where the numbers themselves are not. -/
theorem deviation_ok (hx : x.Moderate) (hy : y.Moderate) :
    ∃ gap deviation, x.sub y = .ok gap ∧ gap.abs.div y = .ok deviation ∧
      (|x.value - y.value| ≤ y.value / 100 → deviation.le tolerance = true) := by
  have hxpos := pos_of_moderate hx
  have hypos := pos_of_moderate hy
  have hdist : |x.value - y.value| ≤ 10 ^ 9 := by
    rw [abs_le]
    constructor <;> linarith [hx.upper, hy.upper]
  obtain ⟨gap, hgap⟩ := exists_sub (hdist.trans (by norm_num [largest]))
  have hround := sub_rounded hgap
  have hgaple : gap.abs.value ≤ 10 ^ 9 := by
    have hcast : ((10 ^ 9 : ℕ) : ℚ) = 10 ^ 9 := by push_cast; rfl
    have hle := hround.abs.le_natCast (n := 10 ^ 9) (by norm_num [largest]) (by rwa [hcast])
    rwa [value_abs, ← hcast]
  have hratio : gap.abs.value / y.value ≤ 10 ^ 18 := by
    rw [div_le_iff₀ hypos]
    calc gap.abs.value ≤ 10 ^ 18 * (1 / 10 ^ 9) := hgaple.trans (by norm_num)
      _ ≤ 10 ^ 18 * y.value := mul_le_mul_of_nonneg_left hy.lower (by norm_num)
  have hnonneg : 0 ≤ gap.abs.value / y.value := by
    rw [value_abs]
    positivity
  obtain ⟨deviation, hdev⟩ := exists_div hypos.ne' (by
    rw [abs_of_nonneg hnonneg]
    exact hratio.trans (by norm_num [largest]))
  refine ⟨gap, deviation, hgap, hdev, fun hnear => ?_⟩
  -- the distance is not rounded at all, and the tolerance is not rounded past
  obtain ⟨c, s, hs, hc, hexact⟩ := exists_distance hxpos hypos hnear
  rw [← hround.eq hs hc hexact, ← value_abs] at hnear
  rw [le_iff]
  refine (div_rounded hypos.ne' hdev).mono (rounded_value tolerance) ?_
  rw [value_tolerance, div_le_iff₀ hypos]
  linarith

/-- The comparison, once everything that it computes is known. -/
theorem isValid_of_deviation {reference gap deviation : Decimal} (href : referenceMid bids asks = .ok (some reference))
    (hpos : 0 < reference.value) (hmid : midOf bid ask = .ok mid) (hgap : mid.sub reference = .ok gap)
    (hdev : gap.abs.div reference = .ok deviation) :
    isValid bid ask bids asks = .ok (some (deviation.le tolerance)) := by
  have hle : reference.le Decimal.zero = false := by
    rw [Bool.eq_false_iff, ne_eq, le_iff, not_le]
    exact lt_of_eq_of_lt (by norm_num [value_eq, zero]) hpos
  simp only [isValid, href, hle, hmid, hgap, hdev, bind, Except.bind, pure, Except.pure, Bool.false_eq_true, if_false]

/-- With moderate peers the comparison is decided. A quote that is turned away deviates. -/
theorem isValid_decided (hbid : bid.Moderate) (hask : ask.Moderate) (hbids : Moderates bids) (hasks : Moderates asks)
    (hb : bids ≠ []) (ha : asks ≠ []) :
    ∃ (mid reference : Decimal) (accepted : Bool), midOf bid ask = .ok mid ∧
      referenceMid bids asks = .ok (some reference) ∧ 0 < reference.value ∧
      isValid bid ask bids asks = .ok (some accepted) ∧
      (accepted = false → reference.value / 100 < |mid.value - reference.value|) := by
  obtain ⟨mid, hmid, hmidmod⟩ := midOf_moderate hbid hask
  obtain ⟨reference, href, hrefmod⟩ := referenceMid_moderate hbids hasks hb ha
  obtain ⟨gap, deviation, hgap, hdev, hnear⟩ := deviation_ok hmidmod hrefmod
  have hpos := pos_of_moderate hrefmod
  refine ⟨mid, reference, deviation.le tolerance, hmid, href, hpos, isValid_of_deviation href hpos hmid hgap hdev,
    fun hfar => ?_⟩
  by_contra hclose
  rw [hnear (not_lt.1 hclose)] at hfar
  cases hfar

end Consensus

end RateDesk
