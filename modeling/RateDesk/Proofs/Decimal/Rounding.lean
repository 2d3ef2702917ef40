import RateDesk.Decimal.Arithmetic
import RateDesk.Proofs.Decimal.Nearest

/-!
# Results that are rounded once

* `le_iff`, `value_zero`, `value_pos`, `value_neg`, `value_abs` : what comparison, zero and sign mean for values;
* `rounded_value` : a decimal is the rounding of its own value, so rounding never passes one;
* `fit_rounded`, `exists_fit` : `fit` rounds, and it does so for whatever fits at scale zero;
* `add_rounded`, `sub_rounded`, `mul_rounded` : hence sums, differences and products are rounded once;
* `exists_add`, `exists_sub`, `exists_mul` : and they have a result if the exact one is in range.
-/

namespace RateDesk.Decimal

variable {x y z : Decimal} {c : ℤ} {s : ℕ}

/-! ## Values -/

theorem value_eq (x : Decimal) : x.value = x.coeff / 10 ^ x.scale := by
  unfold value
  rw [cast_tenPow]

theorem value_zero : zero.value = 0 := by norm_num [value_eq, zero]

theorem value_pos : 0 < x.value ↔ 0 < x.coeff := by
  rw [value_eq, lt_div_iff₀ (by positivity), zero_mul, Int.cast_pos]

theorem value_neg (x : Decimal) : x.neg.value = -x.value := by
  rw [value_eq, value_eq, ← neg_div]
  push_cast [neg]
  rfl

theorem value_abs (x : Decimal) : x.abs.value = |x.value| := by
  have hpow : (0 : ℚ) < 10 ^ x.scale := by positivity
  rw [value_eq, value_eq, abs_div, abs_of_pos hpow]
  simp [abs, Nat.cast_natAbs]

theorem isZero_iff : x.isZero = true ↔ x.value = 0 := by
  rw [value_eq, div_eq_zero_iff]
  simp [isZero]

theorem value_mul_pow (x : Decimal) : x.value * 10 ^ x.scale = x.coeff := by
  rw [value_eq, div_mul_cancel₀ _ (by positivity)]

theorem cast_coeffAt (h : x.scale ≤ s) : (x.coeffAt s : ℚ) = x.value * 10 ^ s := by
  obtain ⟨n, rfl⟩ := Nat.exists_eq_add_of_le h
  unfold coeffAt
  rw [Nat.add_sub_cancel_left, Int.cast_mul, Int.cast_natCast, cast_tenPow, pow_add, ← mul_assoc, value_mul_pow]

theorem le_iff : x.le y = true ↔ x.value ≤ y.value := by
  have hpow : (0 : ℚ) < 10 ^ max x.scale y.scale := by positivity
  have hx := cast_coeffAt (x := x) (le_max_left x.scale y.scale)
  have hy := cast_coeffAt (x := y) (le_max_right x.scale y.scale)
  rw [← mul_le_mul_iff_left₀ hpow, ← hx, ← hy, Int.cast_le]
  simp [le]

theorem abs_coeff_le (x : Decimal) : |(x.coeff : ℚ)| ≤ largest := natAbs_lt_coeffBound.1 x.coeff_lt

theorem abs_value_le (x : Decimal) : |x.value| ≤ largest := by
  have hpow : (1 : ℚ) ≤ 10 ^ x.scale := one_le_pow₀ (by norm_num)
  rw [value_eq, abs_div, abs_of_pos (by positivity : (0 : ℚ) < 10 ^ x.scale)]
  exact (div_le_self (abs_nonneg _) hpow).trans x.abs_coeff_le

theorem hasDigits_value (h : x.scale ≤ s) : HasDigits s x.value :=
  HasDigits.mono ⟨x.coeff, x.value_mul_pow⟩ h

theorem rounded_value (x : Decimal) : Rounded x.value x.value x.scale :=
  rounded_of_exact x.scale_le x.abs_coeff_le x.value_mul_pow

theorem of?_eq_some (h : of? c s = some z) : z.value = c / 10 ^ s ∧ z.scale = s := by
  unfold of? at h
  split at h
  · cases h
    exact ⟨value_eq _, rfl⟩
  · cases h

theorem exists_of? (hc : c.natAbs < coeffBound) (hs : s ≤ maxScale) : ∃ z, of? c s = some z := ⟨_, dif_pos ⟨hc, hs⟩⟩

/-- A coefficient in range with a sign. -/
theorem rounded_of_signed {v : ℚ} {q : ℕ} {negative : Prop} [Decidable negative]
    (hz : of? (if negative then -(q : ℤ) else q) s = some z) (h : Rounded |v| (q / 10 ^ s) s)
    (hneg : negative → v ≤ 0) (hpos : ¬ negative → 0 ≤ v) : Rounded v z.value z.scale := by
  obtain ⟨hvalue, hscale⟩ := of?_eq_some hz
  rw [hvalue, hscale]
  by_cases hn : negative
  · rw [abs_of_nonpos (hneg hn)] at h
    simpa [hn, neg_div] using h.neg
  · rw [abs_of_nonneg (hpos hn)] at h
    simpa [hn] using h

/-! ## Exact results that are rounded once -/

/-- Nothing was dropped so far, or the digits that were had no room. -/
def Crowded (v : ℚ) (d s : ℕ) : Prop := d = 0 ∨ s = maxScale ∨ largest + 1 / 2 ≤ |v| * 10 ^ (s + 1)

variable {v : ℚ} {m d q s' : ℕ}

theorem halfEven_cut (hv : v * 10 ^ s = m / 10 ^ d) : HalfEven (v * 10 ^ s) (roundHalfEven m (tenPow d) : ℕ) := by
  rw [hv, ← cast_tenPow]
  exact HalfEven.roundHalfEven m (Nat.pow_pos (by norm_num))

theorem fits_cut (hs : s ≤ maxScale) (hv : v * 10 ^ s = m / 10 ^ d) (hc : Crowded v d s)
    (hq : roundHalfEven m (tenPow d) < coeffBound) : Fits v (roundHalfEven m (tenPow d) : ℕ) s := by
  have hnearest := halfEven_cut hv
  refine ⟨hs, natAbs_lt_coeffBound.1 (by simpa using hq), hnearest, ?_⟩
  rcases hc with rfl | hfull
  · rw [hv, pow_zero, div_one, ← Int.cast_natCast m] at hnearest
    rw [hv, pow_zero, div_one, hnearest.eq_of_intCast]
    exact Or.inl (Int.cast_natCast m).symm
  · exact Or.inr hfull

theorem crowded_cut (hv : v * 10 ^ (s + 1) = m / 10 ^ d) (hq : ¬ roundHalfEven m (tenPow d) < coeffBound) :
    Crowded v (d + 1) s := by
  have hcoeff : largest + 1 ≤ (roundHalfEven m (tenPow d) : ℕ) := by
    rw [← cast_coeffBound]
    exact_mod_cast Nat.le_of_not_lt hq
  have hclose := (abs_le.1 (halfEven_cut hv).close).2
  have hmono : v * 10 ^ (s + 1) ≤ |v| * 10 ^ (s + 1) := mul_le_mul_of_nonneg_right (le_abs_self v) (by positivity)
  rw [Int.cast_natCast] at hclose
  exact Or.inr (Or.inr (by linarith))

/-- Digits are dropped only as long as the coefficient has no room. -/
theorem fitBelow_fits (hs : s ≤ maxScale) (hv : v * 10 ^ s = m / 10 ^ d) (hc : Crowded v d s)
    (h : fitBelow m d s = some (q, s')) : Fits v q s' := by
  induction s generalizing d with
  | zero =>
    unfold fitBelow at h
    dsimp only at h
    split at h
    · rename_i hq
      cases h
      exact fits_cut hs hv hc hq
    · cases h
  | succ s ih =>
    unfold fitBelow at h
    dsimp only at h
    split at h
    · rename_i hq
      cases h
      exact fits_cut hs hv hc hq
    · rename_i hq
      refine ih (by omega) ?_ (crowded_cut hv hq) h
      rw [pow_succ, ← mul_assoc, eq_div_iff (by positivity)] at hv
      rw [eq_div_iff (by positivity), ← hv]
      ring

theorem exists_fitBelow (s : ℕ) (hle : (m : ℚ) / 10 ^ (s + d) ≤ largest) : ∃ x, fitBelow m d s = some x := by
  induction s generalizing d with
  | zero =>
    rw [Nat.zero_add] at hle
    have hnearest := HalfEven.roundHalfEven m (d := tenPow d) (Nat.pow_pos (by norm_num))
    rw [cast_tenPow] at hnearest
    have hq : roundHalfEven m (tenPow d) < coeffBound := by
      rw [lt_coeffBound, ← Int.cast_natCast]
      exact le_largest hnearest hle
    exact ⟨_, by rw [fitBelow, if_pos hq]⟩
  | succ s ih =>
    unfold fitBelow
    dsimp only
    split
    · exact ⟨_, rfl⟩
    · exact ih (by rwa [Nat.add_right_comm, Nat.add_assoc] at hle)

/-- The digits beyond the last scale are dropped first. -/
theorem fit_fits (h : fitBelow m (s - maxScale) (min s maxScale) = some (q, s')) :
    Fits ((m : ℚ) / 10 ^ s) q s' := by
  have hsplit : min s maxScale + (s - maxScale) = s := by omega
  refine fitBelow_fits (min_le_right s maxScale) ?_ (by unfold Crowded; omega) h
  rw [div_mul_eq_mul_div, div_eq_div_iff (by positivity) (by positivity), mul_assoc, ← pow_add, hsplit]

theorem fit_rounded (h : fit c s = some z) : Rounded (c / 10 ^ s) z.value z.scale := by
  obtain ⟨⟨q, s'⟩, hfit, hz⟩ := Option.bind_eq_some_iff.1 h
  have habs : |(c : ℚ) / 10 ^ s| = c.natAbs / 10 ^ s := by
    rw [abs_div, abs_of_pos (by positivity : (0 : ℚ) < 10 ^ s), Nat.cast_natAbs, Int.cast_abs]
  have hfits := fit_fits hfit
  rw [← habs] at hfits
  refine rounded_of_signed hz (by simpa using hfits.rounded) (fun hc => ?_) fun hc => ?_
  · exact div_nonpos_of_nonpos_of_nonneg (by exact_mod_cast hc.le) (by positivity)
  · exact div_nonneg (by exact_mod_cast not_lt.1 hc) (by positivity)

theorem exists_fit (hle : |(c : ℚ)| / 10 ^ s ≤ largest) : ∃ z, fit c s = some z := by
  have hsplit : min s maxScale + (s - maxScale) = s := by omega
  obtain ⟨⟨q, s'⟩, hfit⟩ := exists_fitBelow (m := c.natAbs) (d := s - maxScale) (min s maxScale)
    (by rw [hsplit, Nat.cast_natAbs, Int.cast_abs]; exact hle)
  have hfits := fit_fits hfit
  have hq : q < coeffBound := by simpa using natAbs_lt_coeffBound.2 hfits.coeff_le
  obtain ⟨z, hz⟩ := exists_of? (c := if c < 0 then -(q : ℤ) else q) (by split <;> simpa using hq) hfits.scale_le
  exact ⟨z, Option.bind_eq_some_iff.2 ⟨_, hfit, hz⟩⟩

/-! ## Sums and differences -/

theorem cast_sum (x y : Decimal) :
    ((x.coeffAt (max x.scale y.scale) + y.coeffAt (max x.scale y.scale) : ℤ) : ℚ) / 10 ^ max x.scale y.scale =
      x.value + y.value := by
  rw [Int.cast_add, cast_coeffAt (le_max_left _ _), cast_coeffAt (le_max_right _ _), ← add_mul,
    mul_div_cancel_right₀ _ (by positivity)]

theorem add_rounded (h : x.add y = .ok z) : Rounded (x.value + y.value) z.value z.scale := by
  unfold add at h
  split at h
  · rename_i hx
    cases h
    rw [isZero_iff.1 hx, zero_add]
    exact rounded_value y
  · split at h
    · rename_i hy
      cases h
      rw [isZero_iff.1 hy, add_zero]
      exact rounded_value x
    · dsimp only at h
      split at h
      · rename_i hfit
        cases h
        rw [← cast_sum x y]
        exact fit_rounded hfit
      · cases h

theorem exists_add (hle : |x.value + y.value| ≤ largest) : ∃ z, x.add y = .ok z := by
  unfold add
  split
  · exact ⟨y, rfl⟩
  · split
    · exact ⟨x, rfl⟩
    · rw [← cast_sum x y, abs_div, abs_of_pos (by positivity : (0 : ℚ) < 10 ^ max x.scale y.scale)] at hle
      obtain ⟨z, hz⟩ := exists_fit hle
      exact ⟨z, by simp only [hz]⟩

theorem sub_rounded (h : x.sub y = .ok z) : Rounded (x.value - y.value) z.value z.scale := by
  unfold sub at h
  split at h
  · rename_i hz
    cases h
    rw [sub_eq_add_neg, ← value_neg]
    exact add_rounded hz
  · cases h

theorem exists_sub (hle : |x.value - y.value| ≤ largest) : ∃ z, x.sub y = .ok z := by
  rw [sub_eq_add_neg, ← value_neg] at hle
  obtain ⟨z, hz⟩ := exists_add hle
  exact ⟨z, by rw [sub, hz]⟩

/-! ## Products -/

theorem cast_product (x y : Decimal) : ((x.coeff * y.coeff : ℤ) : ℚ) / 10 ^ (x.scale + y.scale) = x.value * y.value := by
  rw [value_eq, value_eq, div_mul_div_comm, ← pow_add, Int.cast_mul]

/-- Two short coefficients over more than 47 digits are closer to zero than to any other decimal. -/
theorem rounded_tiny (hx : x.coeff.natAbs < twoPow 32) (hy : y.coeff.natAbs < twoPow 32) (hs : 47 < x.scale + y.scale) :
    Rounded (x.value * y.value) zero.value zero.scale := by
  have hcoeff : |((x.coeff * y.coeff : ℤ) : ℚ)| ≤ 2 ^ 64 := by
    have hnat : (x.coeff * y.coeff).natAbs ≤ twoPow 32 * twoPow 32 := by
      rw [Int.natAbs_mul]
      exact Nat.mul_le_mul hx.le hy.le
    rw [← Int.cast_abs, ← Nat.cast_natAbs]
    exact (Nat.cast_le.2 hnat).trans (by norm_num)
  have htiny : |x.value * y.value * 10 ^ maxScale| < 1 / 2 := by
    obtain ⟨n, hn⟩ := Nat.exists_eq_add_of_lt hs
    have hpow : (1 : ℚ) ≤ 10 ^ n := one_le_pow₀ (by norm_num)
    rw [← cast_product, abs_mul, abs_div, abs_of_pos (by positivity : (0 : ℚ) < 10 ^ (x.scale + y.scale)),
      abs_of_pos (by positivity : (0 : ℚ) < 10 ^ maxScale), div_mul_eq_mul_div, div_lt_iff₀ (by positivity), hn]
    calc |((x.coeff * y.coeff : ℤ) : ℚ)| * 10 ^ maxScale ≤ 2 ^ 64 * 10 ^ maxScale :=
          mul_le_mul_of_nonneg_right hcoeff (by positivity)
      _ < 1 / 2 * 10 ^ 48 * 1 := by norm_num [maxScale]
      _ ≤ 1 / 2 * 10 ^ 48 * 10 ^ n := mul_le_mul_of_nonneg_left hpow (by positivity)
      _ = 1 / 2 * 10 ^ (47 + n + 1) := by ring
  refine ⟨0, maxScale, ⟨le_rfl, by norm_num [largest], ?_, Or.inr (Or.inl rfl)⟩, by norm_num [value_eq, zero],
    by norm_num [zero]⟩
  refine HalfEven.of_lt ?_
  rwa [Int.cast_zero, zero_sub, abs_neg]

theorem mul_rounded (h : x.mul y = .ok z) : Rounded (x.value * y.value) z.value z.scale := by
  unfold mul at h
  split at h
  · rename_i hzero
    cases h
    have hprod : x.value * y.value = zero.value := by
      rw [Bool.or_eq_true, isZero_iff, isZero_iff] at hzero
      rw [mul_eq_zero.2 hzero]
      norm_num [value_eq, zero]
    rw [hprod]
    exact rounded_value zero
  · dsimp only at h
    split at h
    · rename_i hshort
      cases h
      exact rounded_tiny hshort.1 hshort.2.1 hshort.2.2
    · split at h
      · rename_i hfit
        cases h
        rw [← cast_product]
        exact fit_rounded hfit
      · cases h

theorem exists_mul (hle : |x.value * y.value| ≤ largest) : ∃ z, x.mul y = .ok z := by
  unfold mul
  dsimp only
  split
  · exact ⟨zero, rfl⟩
  · split
    · exact ⟨zero, rfl⟩
    · rw [← cast_product, abs_div, abs_of_pos (by positivity : (0 : ℚ) < 10 ^ (x.scale + y.scale))] at hle
      obtain ⟨z, hz⟩ := exists_fit hle
      exact ⟨z, by rw [hz]⟩

end RateDesk.Decimal
