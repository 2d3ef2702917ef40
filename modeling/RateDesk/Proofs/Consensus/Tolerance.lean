import RateDesk.Proofs.Consensus.Moderate

/-!
# How exact the comparison with peers is

Prices have at most twelve fraction digits and lie between a millionth and a billion; peers are at most
a million.

* `exactMid`, `exactReference` : what is compared, in exact numbers;
* `midOf_exact`, `ReferenceSteps.near` : the mid is not rounded at all; the reference mid is off by less than
  its `10 ^ 21`th part, and by nothing if the exact means have at most fourteen fraction digits;
* `sub_far`, `deviation_far` : a deviation that is clearly above the tolerance is computed so;
* `ComparisonSteps`, `isValid_steps` : a comparison with all that it was computed from;
* `isValid_accurate` : up to a `10 ^ 15`th part of the tolerance the comparison is that of the exact numbers,
  and with short means it is exactly that.
-/

namespace RateDesk

/-- A price between a millionth and a billion with at most twelve fraction digits. -/
structure Decimal.Priced (x : Decimal) : Prop where
  lower : 1 / 10 ^ 6 ≤ x.value
  upper : x.value ≤ 10 ^ 9
  digits : Decimal.HasDigits 12 x.value

namespace Consensus

open Decimal

/-- Some prices, and at most a million of them. -/
structure Prices (xs : List Decimal) : Prop where
  ne_nil : xs ≠ []
  length_le : xs.length ≤ 1000000
  priced : ∀ x ∈ xs, x.Priced

def exactMid (bid ask : Decimal) : ℚ := (bid.value + ask.value) / 2

def exactReference (bids asks : List Decimal) : ℚ := (exactMean bids + exactMean asks) / 2

variable {x y bid ask gap deviation : Decimal} {xs bids asks : List Decimal} {v w : ℚ} {t : ℤ}

theorem priced_of_coeff (h : x.scale ≤ 12 ∧ (tenPow x.scale : ℤ) ≤ 1000000 * x.coeff ∧
    x.coeff ≤ 1000000000 * (tenPow x.scale : ℤ)) : x.Priced := by
  obtain ⟨hs, hlow, hhigh⟩ := h
  have hpos : (0 : ℚ) < 10 ^ x.scale := by positivity
  have hlow : ((tenPow x.scale : ℕ) : ℚ) ≤ 1000000 * x.coeff := by exact_mod_cast hlow
  have hhigh : (x.coeff : ℚ) ≤ 1000000000 * (tenPow x.scale : ℕ) := by exact_mod_cast hhigh
  rw [cast_tenPow] at hlow hhigh
  refine ⟨?_, ?_, hasDigits_value hs⟩
  · rw [value_eq, le_div_iff₀ hpos]
    linarith
  · rw [value_eq, div_le_iff₀ hpos]
    linarith

theorem moderate_of_priced (h : x.Priced) : x.Moderate := ⟨le_trans (by norm_num) h.lower, h.upper⟩

theorem Prices.moderates (h : Prices xs) : Moderates xs where
  moderate x hx := moderate_of_priced (h.priced x hx)
  length_le := h.length_le.trans (by norm_num)

/-! ## Means and mids -/

theorem Prices.exactMean_between (h : Prices xs) : 1 / 10 ^ 6 ≤ exactMean xs ∧ exactMean xs ≤ 10 ^ 9 := by
  obtain ⟨⟨lo, hlo, hle⟩, hi, hhi, hge⟩ := exactMean_within h.ne_nil
  exact ⟨(h.priced lo hlo).lower.trans hle, hge.trans (h.priced hi hhi).upper⟩

/-- A mean of prices has room for fourteen fraction digits. -/
theorem Prices.exactMean_fits (h : Prices xs) {s : ℕ} (hs : s ≤ 14) : |exactMean xs| * 10 ^ s ≤ largest := by
  obtain ⟨hlow, hhigh⟩ := h.exactMean_between
  have hpow : (10 : ℚ) ^ s ≤ 10 ^ 14 := pow_le_pow_right₀ (by norm_num) hs
  rw [abs_of_nonneg (le_trans (by norm_num) hlow)]
  exact (mul_le_mul hhigh hpow (by positivity) (by norm_num)).trans (by norm_num [largest])

theorem sum_le_of_moderate (hx : x.Moderate) (hy : y.Moderate) : |x.value + y.value| ≤ 2 * 10 ^ 9 := by
  rw [abs_of_nonneg (add_nonneg (pos_of_moderate hx).le (pos_of_moderate hy).le)]
  linarith [hx.upper, hy.upper]

/-- The sum of a million prices is exact, so their mean is rounded once. -/
theorem Prices.mean (h : Prices xs) : ∃ m, mean xs = .ok (some m) ∧ Rounded (exactMean xs) m.value m.scale := by
  refine mean_of_hasDigits (s := 12) h.ne_nil (h.length_le.trans_lt (by norm_num)) (by norm_num)
    (fun x hx => (h.priced x hx).digits) ?_
  have hsum : (xs.map fun x => |x.value|).sum ≤ xs.length * 10 ^ 9 := by
    have hbound := List.sum_le_card_nsmul (xs.map fun x => |x.value|) (10 ^ 9) (by
      intro v hv
      obtain ⟨x, hx, rfl⟩ := List.mem_map.1 hv
      rw [abs_of_pos (pos_of_moderate (moderate_of_priced (h.priced x hx)))]
      exact (h.priced x hx).upper)
    rwa [List.length_map, nsmul_eq_mul] at hbound
  have hlen : (xs.length : ℚ) ≤ 1000000 := by exact_mod_cast h.length_le
  norm_num [largest] at hsum ⊢
  linarith

/-- Rounding moves a price by less than its `10 ^ 22`th part. -/
theorem near_of_rounded (h : Rounded v w t) (hv : 1 / 10 ^ 6 ≤ v) : 1 / 10 ^ 6 ≤ w ∧ |w - v| ≤ v / 10 ^ 22 := by
  have hclose := h.abs_sub_le_mul
  have hge := h.ge (c := 1) (s := 6) (by norm_num) (by norm_num [largest]) (by simpa using hv)
  rw [abs_of_nonneg (le_trans (by norm_num) hv)] at hclose
  refine ⟨by simpa using hge, hclose.trans ?_⟩
  norm_num at hv ⊢
  linarith

theorem exactMid_digits (hbid : bid.Priced) (hask : ask.Priced) : HasDigits 13 (exactMid bid ask) :=
  (hbid.digits.add hask.digits).half

/-- The mid of a price is exact. -/
theorem midOf_exact (hbid : bid.Priced) (hask : ask.Priced) :
    ∃ m, midOf bid ask = .ok m ∧ m.value = exactMid bid ask := by
  have hsumle := sum_le_of_moderate (moderate_of_priced hbid) (moderate_of_priced hask)
  obtain ⟨sum, hsum⟩ := exists_add (hsumle.trans (by norm_num [largest]))
  have hvalue : sum.value = bid.value + ask.value :=
    (add_rounded hsum).eq_of_hasDigits (s := 12) (by norm_num) (hbid.digits.add hask.digits) (by
      norm_num [largest] at hsumle ⊢
      linarith)
  obtain ⟨m, hm, hround⟩ := midOf_of_sum hsum
  rw [hvalue] at hround
  refine ⟨m, hm, hround.eq_of_hasDigits (s := 13) (by norm_num) (exactMid_digits hbid hask) ?_⟩
  rw [exactMid, abs_div, abs_of_pos (by norm_num : (0 : ℚ) < 2)]
  norm_num [largest] at hsumle ⊢
  linarith

/-- A reference mid with all that it was computed from, each rounded once. -/
structure ReferenceSteps (bids asks : List Decimal) (bid ask sum reference : Decimal) : Prop where
  result : referenceMid bids asks = .ok (some reference)
  bid_moderate : bid.Moderate
  ask_moderate : ask.Moderate
  moderate : reference.Moderate
  bid_rounded : Rounded (exactMean bids) bid.value bid.scale
  ask_rounded : Rounded (exactMean asks) ask.value ask.scale
  sum_rounded : Rounded (bid.value + ask.value) sum.value sum.scale
  rounded : Rounded (sum.value / 2) reference.value reference.scale

theorem referenceMid_steps (hbids : Prices bids) (hasks : Prices asks) :
    ∃ bid ask sum reference, ReferenceSteps bids asks bid ask sum reference := by
  obtain ⟨bid, hbid, hbidround⟩ := hbids.mean
  obtain ⟨ask, hask, haskround⟩ := hasks.mean
  obtain ⟨bid', hbid', hbidmod⟩ := mean_moderate hbids.moderates hbids.ne_nil
  obtain ⟨ask', hask', haskmod⟩ := mean_moderate hasks.moderates hasks.ne_nil
  cases hbid.symm.trans hbid'
  cases hask.symm.trans hask'
  obtain ⟨reference, hmid, hmod⟩ := midOf_moderate hbidmod haskmod
  obtain ⟨sum, hsum⟩ := exists_add ((sum_le_of_moderate hbidmod haskmod).trans (by norm_num [largest]))
  obtain ⟨reference', hmid', hround⟩ := midOf_of_sum hsum
  cases hmid.symm.trans hmid'
  exact ⟨bid, ask, sum, reference, referenceMid_of_means hbid hask hmid, hbidmod, haskmod, hmod, hbidround, haskround,
    add_rounded hsum, hround⟩

/-- The four roundings add up. -/
theorem ReferenceSteps.near {sum reference : Decimal} (h : ReferenceSteps bids asks bid ask sum reference)
    (hbids : Prices bids) (hasks : Prices asks) :
    |reference.value - exactReference bids asks| ≤ exactReference bids asks / 10 ^ 21 := by
  obtain ⟨hbidge, hbidnear⟩ := near_of_rounded h.bid_rounded hbids.exactMean_between.1
  obtain ⟨haskge, hasknear⟩ := near_of_rounded h.ask_rounded hasks.exactMean_between.1
  obtain ⟨-, hsumnear⟩ := near_of_rounded h.sum_rounded (by linarith)
  have hsumge := h.sum_rounded.ge (c := 2) (s := 6) (by norm_num) (by norm_num [largest]) (by
    push_cast
    linarith)
  obtain ⟨-, hmidnear⟩ := near_of_rounded h.rounded (by
    push_cast at hsumge
    linarith)
  rw [abs_le] at hbidnear hasknear hsumnear hmidnear ⊢
  unfold exactReference
  norm_num at hbidnear hasknear hsumnear hmidnear ⊢
  constructor <;> linarith

theorem exactReference_ge (hbids : Prices bids) (hasks : Prices asks) : 1 / 10 ^ 6 ≤ exactReference bids asks := by
  unfold exactReference
  linarith [hbids.exactMean_between.1, hasks.exactMean_between.1]

theorem exactReference_digits (hbids : HasDigits 14 (exactMean bids)) (hasks : HasDigits 14 (exactMean asks)) :
    HasDigits 15 (exactReference bids asks) := (hbids.add hasks).half

/-- With short means there is nothing to round. -/
theorem ReferenceSteps.exact {sum reference : Decimal} (h : ReferenceSteps bids asks bid ask sum reference)
    (hbids : Prices bids) (hasks : Prices asks) (hbdigits : HasDigits 14 (exactMean bids))
    (hadigits : HasDigits 14 (exactMean asks)) : reference.value = exactReference bids asks := by
  have hbid := h.bid_rounded.eq_of_hasDigits (s := 14) (by norm_num) hbdigits (hbids.exactMean_fits (by norm_num))
  have hask := h.ask_rounded.eq_of_hasDigits (s := 14) (by norm_num) hadigits (hasks.exactMean_fits (by norm_num))
  have hsumle := sum_le_of_moderate h.bid_moderate h.ask_moderate
  have hdigits := hbdigits.add hadigits
  rw [← hbid, ← hask] at hdigits
  have hsum := h.sum_rounded.eq_of_hasDigits (s := 14) (by norm_num) hdigits (by
    norm_num [largest] at hsumle ⊢
    linarith)
  have hround := h.rounded
  rw [hsum] at hround
  unfold exactReference
  rw [← hbid, ← hask]
  refine hround.eq_of_hasDigits (s := 15) (by norm_num) hdigits.half ?_
  rw [abs_div, abs_of_pos (by norm_num : (0 : ℚ) < 2)]
  norm_num [largest] at hsumle ⊢
  linarith

/-! ## Deviations above the tolerance -/

/-- A distance that is not tiny is moved by less than its `10 ^ 18`th part. -/
theorem sub_far (hgap : x.sub y = .ok gap) (hfar : 1 / 10 ^ 9 ≤ |x.value - y.value|) :
    |x.value - y.value| * (1 - 1 / 10 ^ 18) ≤ gap.abs.value := by
  have hclose := (abs_le.1 (sub_rounded hgap).abs.abs_sub_le_mul).1
  rw [abs_abs] at hclose
  rw [value_abs]
  norm_num at hclose hfar ⊢
  linarith

/-- A quotient above the tolerance by `10 ^ -26` is not rounded down to it. -/
theorem deviation_far (hy : 0 < y.value) (hfar : (1 / 100 + 1 / 10 ^ 26) * y.value ≤ gap.abs.value)
    (hdev : gap.abs.div y = .ok deviation) : deviation.le tolerance = false := by
  have hge := (div_rounded hy.ne' hdev).ge (c := 10 ^ 24 + 1) (s := 26) (by norm_num) (by norm_num [largest]) (by
    rw [le_div_iff₀ hy]
    norm_num at hfar ⊢
    linarith)
  rw [Bool.eq_false_iff, ne_eq, le_iff, value_tolerance, not_le]
  norm_num at hge ⊢
  linarith

/-- Numbers of fifteen digits that deviate by more than the tolerance do so by a unit. -/
theorem far_of_digits (hx : x.Moderate) (hy : y.Moderate) (hxdigits : HasDigits 15 x.value)
    (hydigits : HasDigits 15 y.value) (hfar : y.value < 100 * |x.value - y.value|) (hgap : x.sub y = .ok gap) :
    (1 / 100 + 1 / 10 ^ 26) * y.value ≤ gap.abs.value := by
  have hdigits : HasDigits 15 (x.value - y.value) := by
    rw [sub_eq_add_neg]
    exact hxdigits.add hydigits.neg
  have hunit := hydigits.add_le_of_lt (hdigits.abs.intCast_mul 100) (by exact_mod_cast hfar)
  have hdist : |x.value - y.value| ≤ 10 ^ 9 := by
    rw [abs_le]
    constructor <;> linarith [hx.upper, hy.upper, pos_of_moderate hx, pos_of_moderate hy]
  have hexact := (sub_rounded hgap).eq_of_hasDigits (by norm_num) hdigits (by
    norm_num [largest] at hdist ⊢
    linarith)
  have hupper := hy.upper
  rw [value_abs, hexact]
  norm_num at hunit hupper ⊢
  linarith

/-! ## The comparison -/

/-- A comparison with all that it was computed from. -/
structure ComparisonSteps (bid ask : Decimal) (bids asks : List Decimal) (mid reference gap deviation : Decimal) :
    Prop where
  result : isValid bid ask bids asks = .ok (some (deviation.le tolerance))
  mid_value : mid.value = exactMid bid ask
  mid_moderate : mid.Moderate
  reference_moderate : reference.Moderate
  reference_ge : 1 / 10 ^ 6 ≤ exactReference bids asks
  reference_near : |reference.value - exactReference bids asks| ≤ exactReference bids asks / 10 ^ 21
  reference_exact : HasDigits 14 (exactMean bids) → HasDigits 14 (exactMean asks) →
    reference.value = exactReference bids asks
  gap_eq : mid.sub reference = .ok gap
  deviation_eq : gap.abs.div reference = .ok deviation
  accepts : |mid.value - reference.value| ≤ reference.value / 100 → deviation.le tolerance = true

theorem isValid_steps (hbid : bid.Priced) (hask : ask.Priced) (hbids : Prices bids) (hasks : Prices asks) :
    ∃ mid reference gap deviation, ComparisonSteps bid ask bids asks mid reference gap deviation := by
  obtain ⟨mid, hmid, hmidvalue⟩ := midOf_exact hbid hask
  obtain ⟨mid', hmid', hmidmod⟩ := midOf_moderate (moderate_of_priced hbid) (moderate_of_priced hask)
  cases hmid.symm.trans hmid'
  obtain ⟨_, _, _, reference, hsteps⟩ := referenceMid_steps hbids hasks
  obtain ⟨gap, deviation, hgap, hdev, haccept⟩ := deviation_ok hmidmod hsteps.moderate
  exact ⟨mid, reference, gap, deviation,
    isValid_of_deviation hsteps.result (pos_of_moderate hsteps.moderate) hmid hgap hdev, hmidvalue, hmidmod,
    hsteps.moderate, exactReference_ge hbids hasks, hsteps.near hbids hasks, hsteps.exact hbids hasks, hgap, hdev,
    haccept⟩

namespace ComparisonSteps

variable {mid reference : Decimal}

/-- The distance that is computed is not further from the exact one than the two reference mids are. -/
theorem distance_near (h : ComparisonSteps bid ask bids asks mid reference gap deviation) :
    |(|mid.value - reference.value| - |exactMid bid ask - exactReference bids asks|)| ≤
      exactReference bids asks / 10 ^ 21 := by
  have hdist := abs_abs_sub_abs_le_abs_sub (mid.value - reference.value) (mid.value - exactReference bids asks)
  rw [sub_sub_sub_cancel_left, abs_sub_comm (exactReference bids asks)] at hdist
  rw [← h.mid_value]
  exact hdist.trans h.reference_near

theorem accepted_of_near (h : ComparisonSteps bid ask bids asks mid reference gap deviation)
    (hclose : |exactMid bid ask - exactReference bids asks| ≤ exactReference bids asks / 100 * (1 - 1 / 10 ^ 15)) :
    isValid bid ask bids asks = .ok (some true) := by
  have hlow := h.reference_ge
  obtain ⟨hreference, -⟩ := abs_le.1 h.reference_near
  obtain ⟨-, hdist⟩ := abs_le.1 h.distance_near
  rw [h.result, h.accepts]
  norm_num at hclose hlow hreference hdist ⊢
  linarith

theorem rejected_of_far (h : ComparisonSteps bid ask bids asks mid reference gap deviation)
    (hfar : exactReference bids asks / 100 * (1 + 1 / 10 ^ 15) ≤ |exactMid bid ask - exactReference bids asks|) :
    isValid bid ask bids asks = .ok (some false) := by
  have hlow := h.reference_ge
  obtain ⟨-, hreference⟩ := abs_le.1 h.reference_near
  obtain ⟨hdist, -⟩ := abs_le.1 h.distance_near
  norm_num at hlow hfar hreference hdist
  have hgap := sub_far h.gap_eq (by norm_num; linarith)
  rw [h.result, deviation_far (pos_of_moderate h.reference_moderate) ?_ h.deviation_eq]
  norm_num at hgap ⊢
  linarith

theorem decided_of_digits (h : ComparisonSteps bid ask bids asks mid reference gap deviation)
    (hmid : HasDigits 13 (exactMid bid ask)) (hbids : HasDigits 14 (exactMean bids))
    (hasks : HasDigits 14 (exactMean asks)) :
    isValid bid ask bids asks =
      .ok (some (decide (100 * |exactMid bid ask - exactReference bids asks| ≤ exactReference bids asks))) := by
  have hreference := exactReference_digits hbids hasks
  rw [← h.reference_exact hbids hasks] at hreference ⊢
  rw [← h.mid_value] at hmid ⊢
  rw [h.result]
  by_cases hle : 100 * |mid.value - reference.value| ≤ reference.value
  · rw [h.accepts (by linarith), decide_eq_true hle]
  · have hfar := far_of_digits h.mid_moderate h.reference_moderate (hmid.mono (by norm_num)) hreference (not_le.1 hle)
      h.gap_eq
    rw [deviation_far (pos_of_moderate h.reference_moderate) hfar h.deviation_eq, decide_eq_false hle]

end ComparisonSteps

/-- **The comparison with peers is accurate.** A quote is accepted if its exact mid deviates from the exact
reference mid by the tolerance less its `10 ^ 15`th part at most, and rejected if it deviates by the
tolerance and its `10 ^ 15`th part at least. If the exact mean bid and the exact mean ask have at most
fourteen fraction digits, it is accepted exactly when the deviation is at most the tolerance. -/
theorem isValid_accurate (hbid : bid.Priced) (hask : ask.Priced) (hbids : Prices bids) (hasks : Prices asks) :
    (|exactMid bid ask - exactReference bids asks| ≤ exactReference bids asks / 100 * (1 - 1 / 10 ^ 15) →
      isValid bid ask bids asks = .ok (some true)) ∧
    (exactReference bids asks / 100 * (1 + 1 / 10 ^ 15) ≤ |exactMid bid ask - exactReference bids asks| →
      isValid bid ask bids asks = .ok (some false)) ∧
    (HasDigits 14 (exactMean bids) → HasDigits 14 (exactMean asks) → isValid bid ask bids asks =
      .ok (some (decide (100 * |exactMid bid ask - exactReference bids asks| ≤ exactReference bids asks)))) := by
  obtain ⟨mid, reference, gap, deviation, hsteps⟩ := isValid_steps hbid hask hbids hasks
  exact ⟨hsteps.accepted_of_near, hsteps.rejected_of_far, hsteps.decided_of_digits (exactMid_digits hbid hask)⟩

def nearbyBids : List Decimal := [(of? 99 0).getD zero, (of? 10000 2).getD zero]

def nearbyAsks : List Decimal := [(of? 100 0).getD zero, (of? 1010 1).getD zero]

/-- The peers' mid is 100: a mid of 101 is just accepted, and one that is half a millionth above it is not. -/
theorem isValid_accurate_boundary :
    isValid ((of? 1005 1).getD zero) ((of? 1015 1).getD zero) nearbyBids nearbyAsks = .ok (some true) ∧
    isValid ((of? 100500001 6).getD zero) ((of? 1015 1).getD zero) nearbyBids nearbyAsks = .ok (some false) := by
  have hbids : Prices nearbyBids := ⟨by decide, by decide, fun x hx => priced_of_coeff (by revert x; decide)⟩
  have hasks : Prices nearbyAsks := ⟨by decide, by decide, fun x hx => priced_of_coeff (by revert x; decide)⟩
  have hbidmean : exactMean nearbyBids = 99.5 := by norm_num [exactMean, nearbyBids, of?, value_eq]
  have haskmean : exactMean nearbyAsks = 100.5 := by norm_num [exactMean, nearbyAsks, of?, value_eq]
  have hbiddigits : HasDigits 14 (exactMean nearbyBids) := ⟨995 * 10 ^ 13, by norm_num [hbidmean]⟩
  have haskdigits : HasDigits 14 (exactMean nearbyAsks) := ⟨1005 * 10 ^ 13, by norm_num [haskmean]⟩
  have hdecided {bid ask : Decimal} (hbid : bid.Priced) (hask : ask.Priced) :=
    (isValid_accurate hbid hask hbids hasks).2.2 hbiddigits haskdigits
  constructor
  · rw [hdecided (priced_of_coeff (by decide)) (priced_of_coeff (by decide))]
    norm_num [exactMid, exactReference, hbidmean, haskmean, of?, value_eq]
  · rw [hdecided (priced_of_coeff (by decide)) (priced_of_coeff (by decide))]
    norm_num [exactMid, exactReference, hbidmean, haskmean, of?, value_eq]

end Consensus

end RateDesk
