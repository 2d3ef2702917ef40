import Mathlib.Algebra.Order.Field.Power
import Mathlib.Data.Int.Cast.Lemmas
import Mathlib.Data.Rat.Cast.Order
import Mathlib.Tactic.FieldSimp
import Mathlib.Tactic.Linarith
import Mathlib.Tactic.Positivity
import Mathlib.Tactic.Ring
import RateDesk.Decimal.Basic
import RateDesk.Number.Round

/-!
# The nearest number with 96 bits

A number is rounded to a coefficient of 96 bits with as many fraction digits as there is room for.

* `HalfEven u c` : `c` is the integer nearest to `u`, of two equally near ones the even one; rounding
  quotients of natural numbers gives it;
* `Decimal.Fits v c s` : `c / 10 ^ s` is `v` with as many of 28 fraction digits as fit;
* `Decimal.Rounded v w t` : such a number `w`, which is written with at most that many digits;
* `Rounded.mono` : rounding keeps the order, although two numbers may be rounded at different digits;
* `Rounded.le`, `Rounded.ge`, `Rounded.eq` : so it goes past no number that has a representation;
* `HasDigits`, `Rounded.eq_of_hasDigits` : a number with few digits is not moved;
* `Rounded.abs_sub_le`, `Rounded.abs_sub_le_mul` : how far any other number is moved.
-/

namespace RateDesk

theorem cast_tenPow (n : ℕ) : ((tenPow n : ℕ) : ℚ) = 10 ^ n := by
  show ((10 ^ n : ℕ) : ℚ) = 10 ^ n
  push_cast
  rfl

/-! ## Half to even -/

/-- The integer `c` is the one nearest to `u`, and even if there are two of them. -/
structure HalfEven (u : ℚ) (c : ℤ) : Prop where
  close : |(c : ℚ) - u| ≤ 1 / 2
  even : |(c : ℚ) - u| = 1 / 2 → c % 2 = 0

namespace HalfEven

variable {u u' : ℚ} {c c' : ℤ}

theorem of_lt (h : |(c : ℚ) - u| < 1 / 2) : HalfEven u c := ⟨h.le, fun heq => absurd heq h.ne⟩

theorem intCast (c : ℤ) : HalfEven c c := of_lt (by rw [sub_self, abs_zero]; norm_num)

theorem neg (h : HalfEven u c) : HalfEven (-u) (-c) := by
  have hdist : |((-c : ℤ) : ℚ) - -u| = |(c : ℚ) - u| := by
    rw [Int.cast_neg, neg_sub_neg, abs_sub_comm]
  refine ⟨by rw [hdist]; exact h.close, fun htie => ?_⟩
  have heven := h.even (hdist ▸ htie)
  omega

theorem mono (h : HalfEven u c) (h' : HalfEven u' c') (hle : u ≤ u') : c ≤ c' := by
  by_contra hlt
  obtain ⟨hlow, hhigh⟩ := abs_le.1 h.close
  obtain ⟨hlow', hhigh'⟩ := abs_le.1 h'.close
  have hge : ((c' + 1 : ℤ) : ℚ) ≤ c := Int.cast_le.2 (by omega)
  push_cast at hge
  -- both numbers lie half-way between the two integers, which cannot both be even
  have heven : c % 2 = 0 := h.even (by rw [abs_of_nonneg] <;> linarith)
  have heven' : c' % 2 = 0 := h'.even (by rw [abs_of_nonpos] <;> linarith)
  have hsucc : c = c' + 1 := by
    have hle : (c : ℚ) ≤ (c' + 1 : ℤ) := by
      push_cast
      linarith
    have hle := Int.cast_le.1 hle
    omega
  omega

theorem unique (h : HalfEven u c) (h' : HalfEven u c') : c = c' :=
  le_antisymm (h.mono h' le_rfl) (h'.mono h le_rfl)

theorem eq_of_intCast (h : HalfEven c c') : c' = c := h.unique (intCast c)

/-- A quotient with a remainder, rounded by comparing the remainder with the half of the divisor. -/
theorem ofQuotient (q : ℕ) {r d : ℕ} (hr : r < d) :
    HalfEven (q + r / d) (if d < 2 * r ∨ (2 * r = d ∧ q % 2 = 1) then q + 1 else q : ℕ) := by
  have hd : (0 : ℚ) < d := by exact_mod_cast Nat.zero_lt_of_lt hr
  have hlt : (r / d : ℚ) < 1 := by
    rw [div_lt_one hd]
    exact_mod_cast hr
  have hnonneg : (0 : ℚ) ≤ r / d := by positivity
  by_cases htie : 2 * r = d
  · have hhalf : (r / d : ℚ) = 1 / 2 := by
      rw [div_eq_div_iff hd.ne' two_ne_zero, one_mul, mul_comm]
      exact_mod_cast htie
    rw [hhalf]
    split
    · refine ⟨by push_cast; rw [abs_of_nonneg] <;> linarith, fun _ => ?_⟩
      omega
    · refine ⟨by push_cast; rw [abs_of_nonpos] <;> linarith, fun _ => ?_⟩
      omega
  · apply of_lt
    rw [abs_lt]
    split
    · have hhalf : (1 / 2 : ℚ) < r / d := by
        rw [div_lt_div_iff₀ two_pos hd, one_mul]
        have hlt : d < r * 2 := by omega
        exact_mod_cast hlt
      push_cast
      constructor <;> linarith
    · have hhalf : (r / d : ℚ) < 1 / 2 := by
        rw [div_lt_div_iff₀ hd two_pos, one_mul]
        have hlt : r * 2 < d := by omega
        exact_mod_cast hlt
      push_cast
      constructor <;> linarith

theorem roundHalfEven (n : ℕ) {d : ℕ} (hd : 0 < d) : HalfEven (n / d) (RateDesk.roundHalfEven n d : ℕ) := by
  have hdq : (d : ℚ) ≠ 0 := by exact_mod_cast hd.ne'
  have hsplit : (d * (n / d : ℕ) + (n % d : ℕ) : ℚ) = n := by exact_mod_cast Nat.div_add_mod n d
  have hquot : (n : ℚ) / d = (n / d : ℕ) + (n % d : ℕ) / d := by
    rw [← hsplit]
    field_simp
  rw [hquot]
  exact ofQuotient (n / d) (Nat.mod_lt n hd)

end HalfEven

namespace Decimal

/-! ## Room for a coefficient -/

abbrev largest : ℚ := 2 ^ 96 - 1

theorem cast_coeffBound : ((coeffBound : ℕ) : ℚ) = largest + 1 := by norm_num [coeffBound, largest]

theorem lt_coeffBound {n : ℕ} : n < coeffBound ↔ (n : ℚ) ≤ largest := by
  rw [← Nat.add_one_le_iff, ← Nat.cast_le (α := ℚ), cast_coeffBound]
  push_cast
  constructor <;> intro h <;> linarith

theorem natAbs_lt_coeffBound {c : ℤ} : c.natAbs < coeffBound ↔ |(c : ℚ)| ≤ largest := by
  rw [lt_coeffBound, Nat.cast_natAbs, Int.cast_abs]

theorem le_largest {u : ℚ} {c : ℤ} (h : HalfEven u c) (hu : u ≤ largest) : (c : ℚ) ≤ largest := by
  have hcast : (((2 : ℤ) ^ 96 - 1 : ℤ) : ℚ) = largest := by norm_num [largest]
  have hle := h.mono (HalfEven.intCast (2 ^ 96 - 1)) (by rwa [hcast])
  rw [← hcast]
  exact Int.cast_le.2 hle

/-- The number `c / 10 ^ s` is `v`, rounded if need be with as many fraction digits as there is room
for. -/
structure Fits (v : ℚ) (c : ℤ) (s : ℕ) : Prop where
  scale_le : s ≤ maxScale
  coeff_le : |(c : ℚ)| ≤ largest
  nearest : HalfEven (v * 10 ^ s) c
  full : v * 10 ^ s = c ∨ s = maxScale ∨ largest + 1 / 2 ≤ |v| * 10 ^ (s + 1)

namespace Fits

variable {v v' : ℚ} {c c' : ℤ} {s s' : ℕ}

theorem of_exact (hs : s ≤ maxScale) (hc : |(c : ℚ)| ≤ largest) (hv : v * 10 ^ s = c) : Fits v c s :=
  ⟨hs, hc, hv ▸ HalfEven.intCast c, Or.inl hv⟩

theorem neg (h : Fits v c s) : Fits (-v) (-c) s where
  scale_le := h.scale_le
  coeff_le := by
    rw [Int.cast_neg, abs_neg]
    exact h.coeff_le
  nearest := by
    rw [neg_mul]
    exact h.nearest.neg
  full := by
    rw [neg_mul, Int.cast_neg, neg_inj, abs_neg]
    exact h.full

/-- The first number that has no room is the one that a half would be rounded up to. -/
theorem lt_half (h : Fits v c s) : v * 10 ^ s < largest + 1 / 2 := by
  by_contra hge
  have hround : HalfEven (largest + 1 / 2) (2 ^ 96) := by
    refine ⟨?_, fun _ => by norm_num⟩
    rw [abs_of_nonneg] <;> norm_num [largest]
  have hle : ((2 ^ 96 : ℤ) : ℚ) ≤ c := Int.cast_le.2 (hround.mono h.nearest (not_lt.1 hge))
  have hlargest : ((2 ^ 96 : ℤ) : ℚ) = largest + 1 := by norm_num [largest]
  linarith [(abs_le.1 h.coeff_le).2]

/-- What had no room for another digit is above all that has. -/
theorem lt_mul_ten (h : Fits v c s) (hfull : largest + 1 / 2 ≤ v * 10 ^ (s + 1)) : largest < c * 10 := by
  rw [pow_succ, ← mul_assoc] at hfull
  have hround : HalfEven ((largest + 1 / 2) / 10) 7922816251426433759354395034 := by
    apply HalfEven.of_lt
    rw [abs_of_nonneg] <;> norm_num [largest]
  have hle : ((7922816251426433759354395034 : ℤ) : ℚ) ≤ c :=
    Int.cast_le.2 (hround.mono h.nearest (by linarith))
  norm_num [largest] at hle ⊢
  linarith

/-- Rounding keeps the order where the larger number has as many digits. -/
theorem le_of_scale_le (h : Fits v c s) (h' : Fits v' c' s') (hv : v ≤ v') (hs : s ≤ s') :
    (c : ℚ) / 10 ^ s ≤ c' / 10 ^ s' := by
  obtain ⟨n, rfl⟩ := Nat.exists_eq_add_of_le hs
  rw [div_le_div_iff₀ (by positivity) (by positivity), pow_add, ← mul_assoc, mul_right_comm]
  refine mul_le_mul_of_nonneg_right ?_ (by positivity)
  have hscaled : v * 10 ^ s * 10 ^ n ≤ v' * 10 ^ (s + n) := by
    rw [pow_add, ← mul_assoc]
    exact mul_le_mul_of_nonneg_right (mul_le_mul_of_nonneg_right hv (by positivity)) (by positivity)
  rcases h.full with hexact | hfull
  · rw [hexact] at hscaled
    have hround := HalfEven.intCast (c * 10 ^ n)
    push_cast at hround
    exact_mod_cast hround.mono h'.nearest hscaled
  · rcases n with _ | n
    · rw [pow_zero, mul_one] at hscaled ⊢
      exact_mod_cast h.nearest.mono h'.nearest hscaled
    · have hfull : largest + 1 / 2 ≤ |v| * 10 ^ (s + 1) := hfull.resolve_left (by have := h'.scale_le; omega)
      have hpow : (1 : ℚ) ≤ 10 ^ n := one_le_pow₀ (by norm_num)
      rcases le_total 0 v with hsign | hsign
      · rw [abs_of_nonneg hsign] at hfull
        have hroom := h'.lt_half
        have hmore : v * 10 ^ (s + 1) ≤ v * 10 ^ (s + 1) * 10 ^ n := le_mul_of_one_le_right (by positivity) hpow
        have heq : v * 10 ^ (s + 1) * 10 ^ n = v * 10 ^ s * 10 ^ (n + 1) := by ring
        linarith
      · rw [abs_of_nonpos hsign] at hfull
        have hten := h.neg.lt_mul_ten hfull
        rw [Int.cast_neg] at hten
        have hmore : (c : ℚ) * 10 * 10 ^ n ≤ c * 10 * 1 := by
          refine mul_le_mul_of_nonpos_left hpow ?_
          have hlargest : (0 : ℚ) < largest := by norm_num [largest]
          linarith
        rw [pow_succ', ← mul_assoc]
        linarith [(abs_le.1 h'.coeff_le).1]

end Fits

/-! ## Fraction digits -/

/-- A number with at most `n` fraction digits. -/
def HasDigits (n : ℕ) (v : ℚ) : Prop := ∃ c : ℤ, v * 10 ^ n = c

namespace HasDigits

variable {v w : ℚ} {n k : ℕ}

theorem mono (h : HasDigits n v) (hle : n ≤ k) : HasDigits k v := by
  obtain ⟨c, hc⟩ := h
  obtain ⟨d, rfl⟩ := Nat.exists_eq_add_of_le hle
  refine ⟨c * 10 ^ d, ?_⟩
  rw [pow_add, ← mul_assoc, hc]
  push_cast
  rfl

theorem add (h : HasDigits n v) (h' : HasDigits n w) : HasDigits n (v + w) := by
  obtain ⟨c, hc⟩ := h
  obtain ⟨c', hc'⟩ := h'
  refine ⟨c + c', ?_⟩
  rw [add_mul, hc, hc', Int.cast_add]

theorem neg (h : HasDigits n v) : HasDigits n (-v) := by
  obtain ⟨c, hc⟩ := h
  refine ⟨-c, ?_⟩
  rw [neg_mul, hc, Int.cast_neg]

theorem abs (h : HasDigits n v) : HasDigits n |v| := by
  rcases abs_choice v with hv | hv
  · rw [hv]
    exact h
  · rw [hv]
    exact h.neg

theorem intCast_mul (h : HasDigits n v) (k : ℤ) : HasDigits n (k * v) := by
  obtain ⟨c, hc⟩ := h
  refine ⟨k * c, ?_⟩
  rw [mul_assoc, hc, Int.cast_mul]

/-- Two different numbers differ by a unit of the last digit at least. -/
theorem add_le_of_lt (h : HasDigits n v) (h' : HasDigits n w) (hlt : v < w) : v + 1 / 10 ^ n ≤ w := by
  obtain ⟨c, hc⟩ := h
  obtain ⟨c', hc'⟩ := h'
  have hpow : (0 : ℚ) < 10 ^ n := by positivity
  rw [← mul_lt_mul_iff_left₀ hpow, hc, hc', Int.cast_lt] at hlt
  have hsucc : ((c + 1 : ℤ) : ℚ) ≤ c' := Int.cast_le.2 hlt
  rw [← mul_le_mul_iff_left₀ hpow, add_mul, hc, hc', div_mul_cancel₀ _ hpow.ne']
  exact_mod_cast hsucc

/-- Half a number has one more digit. -/
theorem half (h : HasDigits n v) : HasDigits (n + 1) (v / 2) := by
  obtain ⟨c, hc⟩ := h
  refine ⟨c * 5, ?_⟩
  rw [pow_succ, div_mul_eq_mul_div, ← mul_assoc, hc]
  push_cast
  ring

end HasDigits

/-! ## Rounding -/

/-- The number `w`, written with `t` fraction digits, is `v` rounded once. -/
def Rounded (v w : ℚ) (t : ℤ) : Prop := ∃ c s, Fits v c s ∧ w = c / 10 ^ s ∧ t ≤ s

variable {v v' w w' : ℚ} {t t' : ℤ} {c : ℤ} {s : ℕ}

theorem Fits.rounded (h : Fits v c s) : Rounded v (c / 10 ^ s) s := ⟨c, s, h, rfl, le_rfl⟩

theorem rounded_of_exact (hs : s ≤ maxScale) (hc : |(c : ℚ)| ≤ largest) (hv : v * 10 ^ s = c) : Rounded v v s := by
  have hexact : v = c / 10 ^ s := by
    rw [← hv, mul_div_cancel_right₀ _ (by positivity)]
  exact ⟨c, s, .of_exact hs hc hv, hexact, le_rfl⟩

namespace Rounded

theorem neg (h : Rounded v w t) : Rounded (-v) (-w) t := by
  obtain ⟨c, s, hfits, rfl, ht⟩ := h
  refine ⟨-c, s, hfits.neg, ?_, ht⟩
  rw [Int.cast_neg, neg_div]

/-- **Rounding keeps the order.** -/
theorem mono (h : Rounded v w t) (h' : Rounded v' w' t') (hv : v ≤ v') : w ≤ w' := by
  obtain ⟨c, s, hfits, rfl, -⟩ := h
  obtain ⟨c', s', hfits', rfl, -⟩ := h'
  rcases le_total s s' with hs | hs
  · exact hfits.le_of_scale_le hfits' hv hs
  · have hneg := hfits'.neg.le_of_scale_le hfits.neg (neg_le_neg hv) hs
    rw [Int.cast_neg, Int.cast_neg, neg_div, neg_div] at hneg
    exact neg_le_neg_iff.1 hneg

/-- Rounding up goes past no number that has a representation. -/
theorem le (h : Rounded v w t) (hs : s ≤ maxScale) (hc : |(c : ℚ)| ≤ largest) (hv : v ≤ c / 10 ^ s) :
    w ≤ c / 10 ^ s :=
  h.mono (rounded_of_exact hs hc (div_mul_cancel₀ _ (by positivity))) hv

/-- Nor does rounding down. -/
theorem ge (h : Rounded v w t) (hs : s ≤ maxScale) (hc : |(c : ℚ)| ≤ largest) (hv : c / 10 ^ s ≤ v) :
    c / 10 ^ s ≤ w :=
  (rounded_of_exact hs hc (div_mul_cancel₀ _ (by positivity))).mono h hv

theorem le_natCast {n : ℕ} (h : Rounded v w t) (hn : (n : ℚ) ≤ largest) (hv : v ≤ n) : w ≤ n := by
  have hle := h.le (c := n) (s := 0) (Nat.zero_le _) (by simpa using hn) (by simpa using hv)
  simpa using hle

theorem eq (h : Rounded v w t) (hs : s ≤ maxScale) (hc : |(c : ℚ)| ≤ largest) (hv : v * 10 ^ s = c) : w = v := by
  have hexact := rounded_of_exact hs hc hv
  exact le_antisymm (h.mono hexact le_rfl) (hexact.mono h le_rfl)

theorem eq_of_hasDigits (h : Rounded v w t) (hs : s ≤ maxScale) (hdigits : HasDigits s v) (hv : |v| * 10 ^ s ≤ largest) :
    w = v := by
  obtain ⟨c, hc⟩ := hdigits
  refine h.eq hs ?_ hc
  rwa [← hc, abs_mul, abs_of_pos (by positivity : (0 : ℚ) < 10 ^ s)]

theorem nonneg (h : Rounded v w t) (hv : 0 ≤ v) : 0 ≤ w := by
  have hge := h.ge (c := 0) (s := 0) (Nat.zero_le _) (by norm_num [largest]) (by simpa using hv)
  simpa using hge

theorem abs (h : Rounded v w t) : Rounded |v| |w| t := by
  rcases le_total 0 v with hv | hv
  · rw [abs_of_nonneg hv, abs_of_nonneg (h.nonneg hv)]
    exact h
  · have hw := h.neg.nonneg (neg_nonneg.2 hv)
    rw [abs_of_nonpos hv, abs_of_nonpos (neg_nonneg.1 hw)]
    exact h.neg

/-- A number is moved by at most half a unit of the last digit. -/
theorem abs_sub_le (h : Rounded v w t) : |w - v| ≤ 1 / 2 / 10 ^ t := by
  obtain ⟨c, s, hfits, rfl, ht⟩ := h
  have hpow : (0 : ℚ) < 10 ^ s := by positivity
  have hdist : |(c : ℚ) / 10 ^ s - v| = |(c : ℚ) - v * 10 ^ s| / 10 ^ s := by
    rw [← abs_of_pos hpow, ← abs_div, abs_of_pos hpow, sub_div, mul_div_cancel_right₀ _ hpow.ne']
  rw [hdist]
  calc |(c : ℚ) - v * 10 ^ s| / 10 ^ s ≤ 1 / 2 / 10 ^ s := div_le_div_of_nonneg_right hfits.nearest.close hpow.le
    _ = 1 / 2 / 10 ^ (s : ℤ) := by rw [zpow_natCast]
    _ ≤ 1 / 2 / 10 ^ t :=
      div_le_div_of_nonneg_left (by norm_num) (by positivity) (zpow_le_zpow_right₀ (by norm_num) ht)

/-- A number is moved by less than its `10 ^ 28`th part, or by half a unit of the last digit there is. -/
theorem abs_sub_le_mul (h : Rounded v w t) : |w - v| ≤ |v| / 10 ^ 28 + 1 / 2 / 10 ^ 28 := by
  obtain ⟨c, s, hfits, rfl, -⟩ := h
  have hpow : (0 : ℚ) < 10 ^ s := by positivity
  have hclose : |(c : ℚ) / 10 ^ s - v| ≤ 1 / 2 / 10 ^ s := by
    simpa [zpow_natCast] using hfits.rounded.abs_sub_le
  have hnonneg : 0 ≤ |v| / 10 ^ 28 := by positivity
  rcases hfits.full with hexact | rfl | hfull
  · rw [← hexact, mul_div_cancel_right₀ _ hpow.ne', sub_self, abs_zero]
    positivity
  · exact hclose.trans (le_add_of_nonneg_left hnonneg)
  · have hunit : 1 / 2 / 10 ^ s ≤ |v| / 10 ^ 28 := by
      rw [div_le_div_iff₀ hpow (by norm_num)]
      rw [pow_succ, ← mul_assoc] at hfull
      norm_num [largest] at hfull ⊢
      linarith
    have hhalf : (0 : ℚ) ≤ 1 / 2 / 10 ^ 28 := by positivity
    exact (hclose.trans hunit).trans (le_add_of_nonneg_right hhalf)

end Rounded

end Decimal

end RateDesk
