import RateDesk.Proofs.Decimal.Rounding

/-!
# Quotients, digit by digit

* `Partial` : what a quotient, its remainder and its scale have in common while a division goes on;
* `Settled`, `Ends` : what the division ends with, or that its quotient is out of range;
* `carryOut_ends`, `roundLast_ends`, `extend_ends` : it ends before its fuel does, with the digits for
  which there is room;
* `shorten_settled` : the zeros that are dropped afterwards change no value;
* `div_rounded`, `exists_div` : so a quotient is rounded once, and there is one if the exact one is in
  range.
-/

namespace RateDesk.Decimal

variable {v u : ℚ} {d q r p : ℕ} {σ : ℤ}

/-! ## Room for digits -/

theorem room_le (q bound : ℕ) : room q bound ≤ bound := by
  induction bound with
  | zero => exact le_rfl
  | succ p ih =>
    unfold room
    split
    · exact le_rfl
    · omega

theorem room_fits {bound : ℕ} (hq : q < coeffBound) : q * tenPow (room q bound) < coeffBound := by
  induction bound with
  | zero => simpa [room] using hq
  | succ p ih =>
    unfold room
    split
    · assumption
    · exact ih

theorem room_full (q bound : ℕ) (h : room q bound < bound) : coeffBound ≤ q * tenPow (room q bound + 1) := by
  induction bound with
  | zero => cases h
  | succ p ih =>
    unfold room at h ⊢
    split
    · rename_i hfits
      rw [if_pos hfits] at h
      omega
    · rename_i hfull
      rw [if_neg hfull] at h
      rcases Nat.lt_or_eq_of_le (room_le q p) with hlt | heq
      · exact ih hlt
      · rw [heq]
        exact Nat.le_of_not_lt hfull

/-! ## A division under way -/

/-- A quotient `q`, a remainder `r` and a scale `σ` of a division by `d` that comes to `v`. -/
structure Partial (v : ℚ) (d q r : ℕ) (σ : ℤ) : Prop where
  rem_lt : r < d
  coeff_lt : q < coeffBound
  scale_le : σ ≤ maxScale
  exact : v * 10 ^ σ = q + r / d

/-- A quotient that rounds `v` and is in the range of decimals. -/
structure Settled (v : ℚ) (q : ℕ) (σ : ℤ) : Prop where
  coeff_lt : q < coeffBound
  nonneg : 0 ≤ σ
  scale_le : σ ≤ maxScale
  rounded : Rounded v (q / 10 ^ σ) σ

/-- How a division ends: with a settled quotient, or with none, and then the exact one is out of
range. -/
def Ends (v : ℚ) : Option (ℕ × ℤ) → Prop
  | none => largest < v
  | some x => Settled v x.1 x.2

theorem Ends.grown {o : Option (ℕ × ℤ)} (h : Ends v o) :
    Ends v ((o.map fun (q, s) => (q, s, true)).map fun x => (x.1, x.2.1)) := by
  cases o <;> exact h

theorem Settled.of_fits {s : ℕ} (h : Fits v q s) : Settled v q s where
  coeff_lt := by simpa using natAbs_lt_coeffBound.2 h.coeff_le
  nonneg := Int.natCast_nonneg s
  scale_le := by exact_mod_cast h.scale_le
  rounded := by simpa [zpow_natCast] using h.rounded

namespace Partial

theorem rest_nonneg (d r : ℕ) : (0 : ℚ) ≤ r / d := by positivity

theorem rest_lt_one (h : r < d) : (r : ℚ) / d < 1 := by
  have hd : (0 : ℚ) < d := by exact_mod_cast Nat.zero_lt_of_lt h
  rw [div_lt_one hd]
  exact_mod_cast h

theorem nonneg (h : Partial v d q r σ) : 0 ≤ v := by
  have hpow : (0 : ℚ) < 10 ^ σ := by positivity
  have hscaled : 0 ≤ v * 10 ^ σ := by
    rw [h.exact]
    positivity
  exact nonneg_of_mul_nonneg_left hscaled hpow

/-- Without fraction digits a number has no larger coefficient than itself. -/
theorem mul_zpow_le (h : Partial v d q r σ) {τ : ℤ} (hτ : τ ≤ 0) : v * 10 ^ τ ≤ v :=
  mul_le_of_le_one_right h.nonneg (zpow_le_one_of_nonpos₀ (by norm_num) hτ)

theorem digits (h : Partial v d q r σ) (p : ℕ) :
    v * 10 ^ (σ + p) = (q * tenPow p + r * tenPow p / d : ℕ) + (r * tenPow p % d : ℕ) / d := by
  have hd : (d : ℚ) ≠ 0 := by
    have hpos : 0 < d := Nat.zero_lt_of_lt h.rem_lt
    exact_mod_cast hpos.ne'
  have hsplit : ((d * (r * tenPow p / d) + r * tenPow p % d : ℕ) : ℚ) = (r * tenPow p : ℕ) := by
    rw [Nat.div_add_mod]
  push_cast [cast_tenPow] at hsplit ⊢
  rw [zpow_add₀ (by norm_num), zpow_natCast, ← mul_assoc, h.exact, add_assoc, add_mul]
  congr 1
  field_simp
  linarith

theorem coeff_mul_le (h : Partial v d q r σ) (p : ℕ) : ((q * tenPow p : ℕ) : ℚ) ≤ v * 10 ^ (σ + p) := by
  rw [h.digits p, Nat.cast_add]
  have hrest := rest_nonneg d (r * tenPow p % d)
  have hnew : (0 : ℚ) ≤ (r * tenPow p / d : ℕ) := Nat.cast_nonneg _
  linarith

/-- A coefficient that leaves 96 bits before there are fraction digits is out of range. -/
theorem out_of_range (h : Partial v d q r σ) (hge : coeffBound ≤ q * tenPow p) (hσ : σ + p ≤ 0) : largest < v := by
  have hgeq : ((coeffBound : ℕ) : ℚ) ≤ (q * tenPow p : ℕ) := by exact_mod_cast hge
  rw [cast_coeffBound] at hgeq
  linarith [h.coeff_mul_le p, h.mul_zpow_le hσ]

theorem advance (h : Partial v d q r σ) (hscale : σ + p ≤ maxScale)
    (hfits : q * tenPow p + r * tenPow p / d < coeffBound) :
    Partial v d (q * tenPow p + r * tenPow p / d) (r * tenPow p % d) (σ + p) where
  rem_lt := Nat.mod_lt _ (Nat.zero_lt_of_lt h.rem_lt)
  coeff_lt := hfits
  scale_le := hscale
  exact := h.digits p

theorem settled_of_exact (h : Partial v d q r σ) (hr : r = 0) (hσ : 0 ≤ σ) : Settled v q σ := by
  obtain ⟨s, rfl⟩ := Int.eq_ofNat_of_zero_le hσ
  have hexact : v * 10 ^ s = ((q : ℤ) : ℚ) := by simpa [hr, zpow_natCast] using h.exact
  exact .of_fits (.of_exact (by exact_mod_cast h.scale_le) (natAbs_lt_coeffBound.1 (by simpa using h.coeff_lt)) hexact)

end Partial

/-! ## Carries -/

/-- A coefficient that is one digit too long, as it stands for `u`, is rounded to the digit before. -/
theorem halfEven_carryOut {sticky : Bool} (hlow : (q : ℚ) - 1 / 2 ≤ u) (hhigh : u < q + 1)
    (hsticky : q % 10 = 5 → (q : ℚ) ≤ u ∧ (sticky = true ↔ (q : ℚ) < u)) :
    HalfEven (u / 10) (if 5 < q % 10 ∨ (q % 10 = 5 ∧ (sticky ∨ q / 10 % 2 = 1)) then q / 10 + 1 else q / 10 : ℕ) := by
  have hsplit : (10 * (q / 10 : ℕ) + (q % 10 : ℕ) : ℚ) = q := by exact_mod_cast Nat.div_add_mod q 10
  have hdigit : q % 10 < 10 := Nat.mod_lt q (by norm_num)
  have hdigit : ((q % 10 : ℕ) : ℚ) ≤ 9 := by exact_mod_cast Nat.le_of_lt_succ hdigit
  have hzero : (0 : ℚ) ≤ (q % 10 : ℕ) := Nat.cast_nonneg _
  rcases Nat.lt_trichotomy (q % 10) 5 with hlt | heq | hgt
  · rw [if_neg (by omega)]
    have hfour : ((q % 10 : ℕ) : ℚ) ≤ 4 := by exact_mod_cast Nat.le_of_lt_succ hlt
    apply HalfEven.of_lt
    rw [Int.cast_natCast, abs_lt]
    constructor <;> linarith
  · obtain ⟨hge, hiff⟩ := hsticky heq
    rw [heq] at hsplit
    push_cast at hsplit
    by_cases hs : sticky = true
    · rw [if_pos (Or.inr ⟨heq, Or.inl hs⟩)]
      have hgt := hiff.1 hs
      apply HalfEven.of_lt
      rw [Int.cast_natCast, Nat.cast_add, Nat.cast_one, abs_lt]
      constructor <;> linarith
    · have hu : u = q := le_antisymm (not_lt.1 fun h => hs (hiff.2 h)) hge
      have hround := HalfEven.ofQuotient (q / 10) (r := 5) (d := 10) (by norm_num)
      have hvalue : ((q / 10 : ℕ) : ℚ) + (5 : ℕ) / (10 : ℕ) = u / 10 := by
        push_cast
        linarith
      rw [hvalue] at hround
      simpa [heq, hs] using hround
  · rw [if_pos (Or.inl hgt)]
    have hsix : (6 : ℚ) ≤ (q % 10 : ℕ) := by exact_mod_cast hgt
    apply HalfEven.of_lt
    rw [Int.cast_natCast, Nat.cast_add, Nat.cast_one, abs_lt]
    constructor <;> linarith

theorem carryOut_ends {sticky : Bool} (hv : 0 ≤ v) (hq : q < 9 * coeffBound) (hscale : σ ≤ maxScale)
    (hlow : (q : ℚ) - 1 / 2 ≤ v * 10 ^ σ) (hhigh : v * 10 ^ σ < q + 1)
    (hsticky : q % 10 = 5 → (q : ℚ) ≤ v * 10 ^ σ ∧ (sticky = true ↔ (q : ℚ) < v * 10 ^ σ))
    (hfull : largest + 1 / 2 ≤ v * 10 ^ σ) : Ends v (carryOut q σ sticky) := by
  unfold carryOut
  split
  · have hle : v * 10 ^ σ ≤ v := mul_le_of_le_one_right hv (zpow_le_one_of_nonpos₀ (by norm_num) (by omega))
    show largest < v
    linarith
  · obtain ⟨s, rfl⟩ : ∃ s : ℕ, σ = s + 1 := ⟨(σ - 1).toNat, by omega⟩
    have hround := halfEven_carryOut hlow hhigh hsticky
    have hpow : v * 10 ^ ((s : ℤ) + 1) = v * 10 ^ (s + 1) := by
      rw [← zpow_natCast]
      push_cast
      rfl
    have htenth : v * 10 ^ ((s : ℤ) + 1) / 10 = v * 10 ^ s := by
      rw [hpow, pow_succ]
      ring
    rw [htenth] at hround
    dsimp only
    show Settled v _ ((s : ℤ) + 1 - 1)
    rw [add_sub_cancel_right]
    refine .of_fits ⟨by omega, natAbs_lt_coeffBound.1 ?_, hround, Or.inr (Or.inr ?_)⟩
    · rw [Int.natAbs_natCast]
      have hbound : 10 ≤ coeffBound := by norm_num
      split <;> omega
    · rwa [abs_of_nonneg hv, ← hpow]

/-! ## The last digit -/

/-- Where there is no room for another digit, the last one is rounded. -/
theorem roundLast_ends (h : Partial v d q r σ) (hσ : 0 ≤ σ) (hfull : σ = maxScale ∨ coeffBound ≤ q * 10) :
    Ends v (roundLast q r d σ) := by
  have hround := HalfEven.ofQuotient q h.rem_lt
  rw [← h.exact] at hround
  have hcases : ∀ q', (if d < 2 * r ∨ (2 * r = d ∧ q % 2 = 1) then q + 1 else q) = q' → q' = q ∨ q' = q + 1 := by
    intro q' hq'
    split at hq' <;> omega
  unfold roundLast
  dsimp only
  generalize (if d < 2 * r ∨ (2 * r = d ∧ q % 2 = 1) then q + 1 else q) = q' at hround hcases ⊢
  have hcases := hcases q' rfl
  split
  · rename_i hlt
    obtain ⟨s, rfl⟩ := Int.eq_ofNat_of_zero_le hσ
    rw [zpow_natCast] at hround
    refine Settled.of_fits ⟨by exact_mod_cast h.scale_le, natAbs_lt_coeffBound.1 (by simpa using hlt), hround, Or.inr ?_⟩
    refine hfull.imp (fun hmax => by exact_mod_cast hmax) fun hten => ?_
    have hten : ((coeffBound : ℕ) : ℚ) ≤ q * 10 := by exact_mod_cast hten
    have hexact := h.exact
    rw [cast_coeffBound] at hten
    rw [zpow_natCast] at hexact
    rw [abs_of_nonneg h.nonneg, pow_succ, ← mul_assoc, hexact]
    linarith [Partial.rest_nonneg d r]
  · rename_i hge
    -- a coefficient of 96 ones was rounded up, and the power of two that comes of it ends in a six
    have hlt := h.coeff_lt
    obtain rfl : q' = coeffBound := by omega
    have hsucc : q + 1 = coeffBound := by omega
    have hsix : coeffBound % 10 = 6 := by norm_num
    have hlow := (abs_le.1 hround.close).2
    have hhigh := Partial.rest_lt_one h.rem_lt
    have hcast : ((coeffBound : ℕ) : ℚ) = q + 1 := by exact_mod_cast hsucc.symm
    rw [Int.cast_natCast] at hlow
    refine carryOut_ends h.nonneg (by omega) h.scale_le (by linarith) ?_ (by omega) ?_
    · rw [h.exact, hcast]
      linarith
    · rw [cast_coeffBound] at hlow
      linarith

/-- Digits that pass 96 bits are carried out. -/
theorem carryOut_digits (h : Partial v d q r σ) (hp : p ≤ 9) (hscale : σ + p ≤ maxScale)
    (hroom : q * tenPow p < coeffBound) (hge : coeffBound ≤ q * tenPow p + r * tenPow p / d) :
    Ends v (carryOut (q * tenPow p + r * tenPow p / d) (σ + p) (r * tenPow p % d ≠ 0)) := by
  have hd : 0 < d := Nat.zero_lt_of_lt h.rem_lt
  have hnew : r * tenPow p / d < coeffBound := by
    have hlt : r * tenPow p / d < tenPow p := by
      rw [Nat.div_lt_iff_lt_mul hd, Nat.mul_comm]
      exact Nat.mul_lt_mul_of_pos_left h.rem_lt (Nat.pow_pos (by norm_num))
    have hpow : tenPow p ≤ tenPow 9 := Nat.pow_le_pow_right (by norm_num) hp
    exact hlt.trans_le (hpow.trans (by norm_num))
  have hrest := Partial.rest_nonneg d (r * tenPow p % d)
  have hrest' := Partial.rest_lt_one (Nat.mod_lt (r * tenPow p) hd)
  have hgeq : ((coeffBound : ℕ) : ℚ) ≤ (q * tenPow p + r * tenPow p / d : ℕ) := by exact_mod_cast hge
  rw [cast_coeffBound] at hgeq
  have hdigits := h.digits p
  refine carryOut_ends h.nonneg (by omega) hscale (by linarith) (by linarith) (fun _ => ⟨by linarith, ?_⟩) (by linarith)
  rw [hdigits, lt_add_iff_pos_right, decide_eq_true_iff]
  refine ⟨fun hne => div_pos ?_ (by exact_mod_cast hd), fun hpos hzero => ?_⟩
  · exact_mod_cast Nat.pos_of_ne_zero hne
  · rw [hzero, Nat.cast_zero, zero_div] at hpos
    exact lt_irrefl _ hpos

/-! ## The end of a division -/

/-- How many digits the next round brings: at least one as long as there is room, and as many as there
is room for, unless the quotient is out of range. -/
theorem nextDigits_spec (h : Partial v d q r σ) (hgo : ¬ (r = 0 ∧ 0 ≤ σ)) :
    let p := if r = 0 then min 9 (-σ).toNat else room q (min 9 ((maxScale : ℤ) - σ).toNat)
    p ≤ 9 ∧ σ + p ≤ maxScale ∧ (q * tenPow p < coeffBound ∨ largest < v) ∧
      (r ≠ 0 ∧ p < 9 ∧ p + σ < 0 → largest < v) ∧
      (p = 0 → r ≠ 0 ∧ (0 ≤ σ → σ = maxScale ∨ coeffBound ≤ q * 10)) := by
  have hscale := h.scale_le
  by_cases hr : r = 0
  · have hneg : σ < 0 := by omega
    rw [if_pos hr]
    refine ⟨by omega, by omega, ?_, by omega, by omega⟩
    by_contra hover
    rw [not_or, not_lt] at hover
    exact hover.2 (h.out_of_range hover.1 (by omega))
  · rw [if_neg hr]
    have hle := room_le q (min 9 ((maxScale : ℤ) - σ).toNat)
    have hfull := room_full q (min 9 ((maxScale : ℤ) - σ).toNat)
    refine ⟨by omega, by omega, Or.inl (room_fits h.coeff_lt), ?_, fun hp => ⟨hr, fun hσ => ?_⟩⟩
    · rintro ⟨-, hp, hneg⟩
      exact h.out_of_range (hfull (by omega)) (by omega)
    · rw [hp] at hfull
      by_cases hmax : σ = maxScale
      · exact Or.inl hmax
      · exact Or.inr (hfull (by omega))

/-- A division goes on until it is settled: the fuel is enough, and only a quotient out of range has no
result. -/
theorem extend_ends {fuel : ℕ} (h : Partial v d q r σ) (hfuel : maxScale - σ < fuel) (grown : Bool) :
    Ends v ((extend d fuel q r σ grown).map fun x => (x.1, x.2.1)) := by
  -- every round brings a digit at least, so the fuel outlasts the digits up to the largest scale
  induction fuel generalizing q r σ grown with
  | zero =>
    have hscale := h.scale_le
    omega
  | succ fuel ih =>
    by_cases hdone : r = 0 ∧ 0 ≤ σ
    · rw [extend, if_pos hdone]
      exact h.settled_of_exact hdone.1 hdone.2
    · have hp := nextDigits_spec h hdone
      rw [extend, if_neg hdone]
      dsimp only at hp ⊢
      generalize (if r = 0 then min 9 (-σ).toNat else room q (min 9 ((maxScale : ℤ) - σ).toNat)) = p at hp ⊢
      obtain ⟨hp9, hscale, hroom, hstop, hlast⟩ := hp
      by_cases hgo : r ≠ 0 ∧ p < 9 ∧ p + σ < 0
      · rw [if_pos hgo]
        exact hstop hgo
      rw [if_neg hgo]
      by_cases hzero : r ≠ 0 ∧ p = 0
      · rw [if_pos hzero]
        have hσ : 0 ≤ σ := by omega
        exact (roundLast_ends h hσ ((hlast hzero.2).2 hσ)).grown
      · have hpos : p ≠ 0 := fun hp => hzero ⟨(hlast hp).1, hp⟩
        rw [if_neg hzero]
        by_cases hover : coeffBound ≤ q * tenPow p
        · rw [if_pos hover]
          exact hroom.resolve_left (Nat.not_lt.2 hover)
        rw [if_neg hover]
        by_cases hfits : q * tenPow p + r * tenPow p / d < coeffBound
        · rw [if_pos hfits]
          exact ih (h.advance hscale hfits) (by omega) _
        · rw [if_neg hfits]
          exact (carryOut_digits h hp9 hscale (Nat.lt_of_not_le hover) (Nat.le_of_not_lt hfits)).grown

/-! ## Trailing zeros -/

theorem Settled.strip {k : ℕ} (h : Settled v q σ) (hdvd : q % tenPow k = 0) (hk : (k : ℤ) ≤ σ) :
    Settled v (q / tenPow k) (σ - k) := by
  have hmul : ((q / tenPow k : ℕ) : ℚ) * 10 ^ k = q := by
    rw [← cast_tenPow, ← Nat.cast_mul, Nat.div_mul_cancel (Nat.dvd_of_mod_eq_zero hdvd)]
  have hvalue : ((q / tenPow k : ℕ) : ℚ) / 10 ^ (σ - k) = q / 10 ^ σ := by
    rw [← hmul, zpow_sub₀ (by norm_num), zpow_natCast]
    field_simp
  have hscale := h.scale_le
  refine ⟨(Nat.div_le_self q _).trans_lt h.coeff_lt, by omega, by omega, ?_⟩
  rw [hvalue]
  obtain ⟨c, s, hfits, heq, ht⟩ := h.rounded
  exact ⟨c, s, hfits, heq, by omega⟩

theorem shortenBy_settled (k : ℕ) {x : ℕ × ℤ} (h : Settled v x.1 x.2) :
    Settled v (shortenBy k x).1 (shortenBy k x).2 := by
  unfold shortenBy
  split
  · rename_i hcond
    exact h.strip hcond.1 hcond.2
  · exact h

theorem shorten8_settled (fuel : ℕ) (h : Settled v q σ) :
    Settled v (shorten8 fuel q σ).1 (shorten8 fuel q σ).2 := by
  induction fuel generalizing q σ with
  | zero => exact h
  | succ fuel ih =>
    unfold shorten8
    split
    · rename_i hcond
      exact ih (h.strip hcond.2.2 hcond.2.1)
    · exact h

theorem shorten_settled (h : Settled v q σ) : Settled v (shorten q σ).1 (shorten q σ).2 :=
  shortenBy_settled 1 (shortenBy_settled 2 (shortenBy_settled 4 (shorten8_settled 4 h)))

/-! ## Quotients of decimals -/

variable {x y z : Decimal}

theorem cast_natAbs_coeff (x : Decimal) : (x.coeff.natAbs : ℚ) = |x.value| * 10 ^ x.scale := by
  rw [Nat.cast_natAbs, Int.cast_abs, ← value_mul_pow, abs_mul, abs_of_pos (by positivity : (0 : ℚ) < 10 ^ x.scale)]

theorem partial_init (x : Decimal) (hy : y.value ≠ 0) :
    Partial |x.value / y.value| y.coeff.natAbs (x.coeff.natAbs / y.coeff.natAbs) (x.coeff.natAbs % y.coeff.natAbs)
      (x.scale - y.scale) := by
  have hn := cast_natAbs_coeff x
  have hd := cast_natAbs_coeff y
  have hypos : 0 < |y.value| := abs_pos.2 hy
  have hdpos : (0 : ℚ) < y.coeff.natAbs := by
    rw [hd]
    positivity
  have hscale : x.scale ≤ maxScale := x.scale_le
  refine ⟨Nat.mod_lt _ (by exact_mod_cast hdpos), (Nat.div_le_self _ _).trans_lt x.coeff_lt, by omega, ?_⟩
  have hsplit : (y.coeff.natAbs * (x.coeff.natAbs / y.coeff.natAbs : ℕ) + (x.coeff.natAbs % y.coeff.natAbs : ℕ) : ℚ) =
      x.coeff.natAbs := by exact_mod_cast Nat.div_add_mod x.coeff.natAbs y.coeff.natAbs
  have hquot : |x.value / y.value| * 10 ^ ((x.scale : ℤ) - y.scale) = x.coeff.natAbs / y.coeff.natAbs := by
    rw [abs_div, hn, hd, zpow_sub₀ (by norm_num), zpow_natCast, zpow_natCast]
    field_simp
  rw [hquot, ← hsplit]
  field_simp

theorem extend_init (x : Decimal) (hy : y.value ≠ 0) :
    Ends |x.value / y.value| ((extend y.coeff.natAbs 64 (x.coeff.natAbs / y.coeff.natAbs)
      (x.coeff.natAbs % y.coeff.natAbs) (x.scale - y.scale) false).map fun x => (x.1, x.2.1)) := by
  refine extend_ends (partial_init x hy) ?_ false
  have hscale := y.scale_le
  have hmax : ((maxScale : ℕ) : ℤ) = 28 := rfl
  omega

/-- A quotient has the sign that those of dividend and divisor give. -/
theorem quotient_signed {q s : ℕ} (h : Rounded |x.value / y.value| (q / 10 ^ s) s)
    (hz : of? (if x.coeff < 0 ∧ 0 < y.coeff ∨ 0 < x.coeff ∧ y.coeff < 0 then -(q : ℤ) else q) s = some z) :
    Rounded (x.value / y.value) z.value z.scale := by
  have hquot : x.value / y.value = x.coeff * y.coeff * (10 ^ y.scale / 10 ^ x.scale / y.coeff ^ 2) := by
    rw [value_eq, value_eq]
    by_cases hy : (y.coeff : ℚ) = 0
    · simp [hy]
    · field_simp
  have hpos : (0 : ℚ) ≤ 10 ^ y.scale / 10 ^ x.scale / y.coeff ^ 2 := by positivity
  refine rounded_of_signed hz h (fun hneg => ?_) fun hneg => ?_
  · have hprod : x.coeff * y.coeff ≤ 0 := by
      rcases hneg with ⟨hx, hy⟩ | ⟨hx, hy⟩
      · exact Int.mul_nonpos_of_nonpos_of_nonneg hx.le hy.le
      · exact Int.mul_nonpos_of_nonneg_of_nonpos hx.le hy.le
    rw [hquot]
    exact mul_nonpos_of_nonpos_of_nonneg (by exact_mod_cast hprod) hpos
  · have hprod : 0 ≤ x.coeff * y.coeff := by
      by_contra hlt
      exact hneg (Int.mul_neg_iff.1 (not_le.1 hlt)).symm
    rw [hquot]
    exact mul_nonneg (by exact_mod_cast hprod) hpos

/-- The end of a division, with its zeros dropped if it had to grow, is a decimal. -/
theorem exists_quotient {q : ℕ} (grown : Bool) (h : Settled |x.value / y.value| q σ) :
    ∃ z, of? (if x.coeff < 0 ∧ 0 < y.coeff ∨ 0 < x.coeff ∧ y.coeff < 0
        then -((if grown then shorten q σ else (q, σ)).1 : ℤ) else (if grown then shorten q σ else (q, σ)).1)
        (if grown then shorten q σ else (q, σ)).2.toNat = some z ∧ Rounded (x.value / y.value) z.value z.scale := by
  have hfinal : Settled |x.value / y.value| (if grown then shorten q σ else (q, σ)).1
      (if grown then shorten q σ else (q, σ)).2 := by
    cases grown
    · exact h
    · exact shorten_settled h
  generalize (if grown then shorten q σ else (q, σ)) = w at hfinal ⊢
  obtain ⟨s, hs⟩ := Int.eq_ofNat_of_zero_le hfinal.nonneg
  have hround := hfinal.rounded
  have hscale := hfinal.scale_le
  rw [hs, zpow_natCast] at hround
  rw [hs] at hscale ⊢
  obtain ⟨z, hz⟩ := exists_of?
    (c := if x.coeff < 0 ∧ 0 < y.coeff ∨ 0 < x.coeff ∧ y.coeff < 0 then -(w.1 : ℤ) else w.1) (s := s)
    (by split <;> simpa using hfinal.coeff_lt) (by exact_mod_cast hscale)
  exact ⟨z, hz, quotient_signed hround hz⟩

theorem div_ends (x : Decimal) (hy : y.value ≠ 0) :
    (∃ z, x.div y = .ok z ∧ Rounded (x.value / y.value) z.value z.scale) ∨
      x.div y = .error .division ∧ largest < |x.value / y.value| := by
  unfold div
  by_cases hzero : x.isZero = true
  · rw [if_pos hzero, isZero_iff.1 hzero, zero_div]
    exact Or.inl ⟨zero, rfl, by simpa [value_eq, zero] using rounded_value zero⟩
  · have hends := extend_init x hy
    rw [if_neg hzero]
    dsimp only
    cases hextend : extend y.coeff.natAbs 64 (x.coeff.natAbs / y.coeff.natAbs) (x.coeff.natAbs % y.coeff.natAbs)
      (x.scale - y.scale) false with
    | none =>
      rw [hextend] at hends
      exact Or.inr ⟨rfl, hends⟩
    | some e =>
      rw [hextend] at hends
      obtain ⟨z, hz, hround⟩ := exists_quotient e.2.2 hends
      refine Or.inl ⟨z, ?_, hround⟩
      dsimp only [Option.bind_eq_bind, Option.bind_some]
      rw [hz]

theorem div_rounded (hy : y.value ≠ 0) (h : x.div y = .ok z) : Rounded (x.value / y.value) z.value z.scale := by
  rcases div_ends x hy with ⟨w, hw, hround⟩ | ⟨hfault, -⟩
  · cases hw.symm.trans h
    exact hround
  · cases hfault.symm.trans h

theorem exists_div (hy : y.value ≠ 0) (hle : |x.value / y.value| ≤ largest) : ∃ z, x.div y = .ok z := by
  rcases div_ends x hy with ⟨z, hz, -⟩ | ⟨-, hlt⟩
  · exact ⟨z, hz⟩
  · exact absurd hle (not_le.2 hlt)

end RateDesk.Decimal
