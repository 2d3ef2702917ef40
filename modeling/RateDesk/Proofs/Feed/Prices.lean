import RateDesk.Proofs.Decimal.Rounding
import RateDesk.Proofs.Feed.Grammar

/-!
# Prices in writing

* `IsPlain s c k` : the text `s` is a sign, digits and a point, which write `c / 10 ^ k`;
* `IsExponent s z` : the text `s` is a sign and digits, which write the integer `z`;
* `readPlain_of_isPlain` : a plain number that fits is read as it is written;
* `Shifted r v z` : what `r` should be, where the point of a number was moved by `z` digits to make it `v`;
* `shiftDown_shifted`, `shiftUp_shifted` : an exponent loses nothing before the 28th fraction digit;
* `price_read` : what is read from a price in either notation, and from a price that was printed.
-/

namespace RateDesk

open Text

namespace Decimal

/-! ## Numbers in writing -/

/-- A minus, or a plus or nothing. -/
inductive IsSign : Bool → List Char → Prop
  | none : IsSign false []
  | plus : IsSign false ['+']
  | minus : IsSign true ['-']

def signed (negative : Bool) (n : Nat) : Int := if negative then -(n : Int) else n

/-- An optional sign, one or more digits, and then perhaps a point with digits: all digits together and the sign
make an integer, and the digits after the point are counted. -/
inductive IsPlain : List Char → Int → Nat → Prop
  | whole {negative : Bool} {s w : List Char} {n : Nat} (hsign : IsSign negative s) (hw : w ≠ []) (hn : Denotes w n) :
      IsPlain (s ++ w) (signed negative n) 0
  | fraction {negative : Bool} {s w f : List Char} {n : Nat} (hsign : IsSign negative s) (hw : w ≠ [])
      (hn : Denotes (w ++ f) n) : IsPlain (s ++ (w ++ '.' :: f)) (signed negative n) f.length

/-- An optional sign and one or more digits, and the integer that they write. -/
inductive IsExponent : List Char → Int → Prop
  | digits {negative : Bool} {s w : List Char} {n : Nat} (hsign : IsSign negative s) (hw : w ≠ []) (hn : Denotes w n) :
      IsExponent (s ++ w) (signed negative n)

variable {negative : Bool} {s t w : List Char} {c z : Int} {d k m n : Nat} {e : Char} {x y : Decimal} {v : ℚ}
  {r : Except ReadError Decimal}

theorem natAbs_signed (negative : Bool) (n : Nat) : (signed negative n).natAbs = n := by
  cases negative <;> simp [signed]

theorem exists_cons_of_denotes (hn : Denotes w n) (hw : w ≠ []) : ∃ c t, isDigit c ∧ w = c :: t := by
  obtain ⟨c, t, rfl⟩ := List.exists_cons_of_ne_nil hw
  exact ⟨c, t, hn.isDigit c List.mem_cons_self, rfl⟩

theorem IsSign.isPlainMark (h : IsSign negative s) : ∀ c ∈ s, IsPlainMark c := by
  cases h <;> simp [IsPlainMark]

theorem IsPlain.isPlainMark (h : IsPlain s c k) : ∀ c ∈ s, IsPlainMark c := by
  cases h with
  | whole hsign hw hn =>
    exact List.forall_mem_append.2 ⟨hsign.isPlainMark, fun c hc => Or.inl (hn.isDigit c hc)⟩
  | fraction hsign hw hn =>
    obtain ⟨hleft, hright⟩ := List.forall_mem_append.1 hn.isDigit
    refine List.forall_mem_append.2 ⟨hsign.isPlainMark, List.forall_mem_append.2 ⟨fun c hc => Or.inl (hleft c hc), ?_⟩⟩
    exact List.forall_mem_cons.2 ⟨Or.inr (by simp), fun c hc => Or.inl (hright c hc)⟩

/-! ## Plain notation -/

theorem ofMagnitude_signed (negative : Bool) (hn : n < coeffBound) (hk : k ≤ maxScale) :
    ∃ x, ofMagnitude negative (n, k) = .ok x ∧ x.coeff = signed negative n ∧ x.scale = k := by
  have hfits : (signed negative n).natAbs < twoPow 96 ∧ k ≤ 28 := ⟨by rwa [natAbs_signed], hk⟩
  refine ⟨⟨signed negative n, k, hfits.1, hfits.2⟩, ?_, rfl, rfl⟩
  have hof : of? (signed negative n) k = some ⟨signed negative n, k, hfits.1, hfits.2⟩ := dif_pos hfits
  unfold signed at hof
  simp only [ofMagnitude, hof]
  rfl

theorem readPlain_signed (hsign : IsSign negative s) (hc : isDigit e) (t : List Char) :
    readPlain (s ++ e :: t) = readMagnitude false false 0 0 (e :: t) >>= ofMagnitude negative := by
  cases hsign with
  | none => exact readPlain_of_isDigit hc t
  | plus => rfl
  | minus => rfl

/-- A plain number that fits is read with the scale that it is written with. -/
theorem readPlain_of_isPlain (h : IsPlain s c k) (hc : c.natAbs < coeffBound) (hk : k ≤ maxScale) :
    ∃ x, readPlain s = .ok x ∧ x.coeff = c ∧ x.scale = k := by
  cases h with
  | @whole negative s w n hsign hw hn =>
    rw [natAbs_signed] at hc
    obtain ⟨x, hx, hcoeff⟩ := ofMagnitude_signed negative hc hk
    have hread : readMagnitude false false 0 0 w = .ok (n, 0) := by
      rw [← List.append_nil w, readMagnitude_whole hn hw hc]
      rfl
    obtain ⟨e, t, he, rfl⟩ := exists_cons_of_denotes hn hw
    exact ⟨x, by rw [readPlain_signed hsign he, hread, ← hx]; rfl, hcoeff⟩
  | @fraction negative s w f n hsign hw hn =>
    rw [natAbs_signed] at hc
    obtain ⟨x, hx, hcoeff⟩ := ofMagnitude_signed negative hc hk
    have hread := readMagnitude_fraction hn hw hc hk
    obtain ⟨a, -, ha, -⟩ := hn.split
    obtain ⟨e, t, he, rfl⟩ := exists_cons_of_denotes ha hw
    rw [List.cons_append] at hread ⊢
    exact ⟨x, by rw [readPlain_signed hsign he, hread, ← hx]; rfl, hcoeff⟩

/-! ## Exponents -/

/-- The result for a number that becomes `v` when its point is moved by `z` digits: there is one if neither is too
large, and it is the nearest with 28 fraction digits. -/
structure Shifted (r : Except ReadError Decimal) (v : ℚ) (z : Int) : Prop where
  exists_iff : (∃ y, r = .ok y) ↔ |z| ≤ maxScale ∧ |v| ≤ largest
  close : ∀ y, r = .ok y → |y.value - v| ≤ 1 / 2 / 10 ^ maxScale

/-- The nearest decimal is the number itself if that has no more digits. -/
theorem Shifted.exact (h : Shifted r v z) (hy : r = .ok y) (hv : HasDigits maxScale v) : y.value = v := by
  have hclose := abs_le.1 (h.close y hy)
  have hdigits : HasDigits maxScale y.value := hasDigits_value y.scale_le
  have hunit : (0 : ℚ) < 1 / 2 / 10 ^ maxScale := by positivity
  have htwice : (1 : ℚ) / 10 ^ maxScale = 1 / 2 / 10 ^ maxScale + 1 / 2 / 10 ^ maxScale := by ring
  rcases lt_trichotomy y.value v with hlt | heq | hlt
  · have hle := hdigits.add_le_of_lt hv hlt
    linarith
  · exact heq
  · have hle := hv.add_le_of_lt hdigits hlt
    linarith

theorem abs_roundHalfUp_sub_le (n : Nat) (hd : 0 < d) : |(roundHalfUp n d : ℚ) - n / d| ≤ 1 / 2 := by
  have hdq : (0 : ℚ) < d := by exact_mod_cast hd
  have hsplit : 2 * d * roundHalfUp n d + (2 * n + d) % (2 * d) = 2 * n + d := Nat.div_add_mod _ _
  have hrest : (2 * n + d) % (2 * d) < 2 * d := Nat.mod_lt _ (by omega)
  have hlow : 2 * d * roundHalfUp n d ≤ 2 * n + d := by omega
  have hhigh : 2 * n + d ≤ 2 * d * roundHalfUp n d + 2 * d := by omega
  have hlow : (2 * d * roundHalfUp n d : ℚ) ≤ 2 * n + d := by exact_mod_cast hlow
  have hhigh : (2 * n + d : ℚ) ≤ 2 * d * roundHalfUp n d + 2 * d := by exact_mod_cast hhigh
  rw [show (roundHalfUp n d : ℚ) - n / d = (d * roundHalfUp n d - n) / d by field_simp, abs_div, abs_of_pos hdq,
    div_le_iff₀ hdq, abs_le]
  constructor <;> linarith

theorem ofMagnitude_sign (x : Decimal) (hn : n < coeffBound) (hk : k ≤ maxScale) :
    ∃ y, ofMagnitude (x.coeff < 0) (n, k) = .ok y ∧ y.value = signed (x.coeff < 0) n / 10 ^ k := by
  obtain ⟨y, hy, hcoeff, rfl⟩ := ofMagnitude_signed (x.coeff < 0) hn hk
  exact ⟨y, hy, by rw [value_eq, hcoeff]⟩

theorem signed_coeff (x : Decimal) : signed (x.coeff < 0) x.coeff.natAbs = x.coeff := by
  simp only [signed, decide_eq_true_eq]
  split <;> omega

theorem cast_signed (negative : Bool) (n : Nat) :
    ((signed negative n : ℤ) : ℚ) = (if negative then -1 else 1) * n := by
  cases negative <;> simp [signed]

theorem Shifted.of_exact (hy : r = .ok y) (hvalue : y.value = v) (hz : |z| ≤ maxScale) : Shifted r v z where
  exists_iff := ⟨fun _ => ⟨hz, hvalue ▸ y.abs_value_le⟩, fun _ => ⟨y, hy⟩⟩
  close := by
    intro x hx
    rw [hy] at hx
    cases hx
    rw [hvalue, sub_self, abs_zero]
    positivity

theorem Shifted.of_error {why : ReadError} (h : ¬ (|z| ≤ maxScale ∧ |v| ≤ largest)) : Shifted (.error why) v z :=
  ⟨⟨nofun, fun hv => absurd hv h⟩, nofun⟩

/-- A coefficient of which digits are rounded off still fits. -/
theorem roundHalfUp_lt (hn : n < coeffBound) (hd : 2 ≤ d) : roundHalfUp n d < coeffBound := by
  refine Nat.div_lt_of_lt_mul ?_
  have htwo : 2 * coeffBound ≤ d * coeffBound := Nat.mul_le_mul_right _ hd
  have hone : d * 1 ≤ d * coeffBound := Nat.mul_le_mul_left _ (by decide)
  rw [Nat.mul_assoc]
  omega

theorem shiftDown_shifted (x : Decimal) (m : Nat) : Shifted (shiftDown x m) (x.value * 10 ^ (-m : ℤ)) (-m) := by
  have hv : x.value * 10 ^ (-m : ℤ) = x.coeff / 10 ^ (x.scale + m) := by
    rw [value_eq, zpow_neg, zpow_natCast, ← div_eq_mul_inv, div_div, ← pow_add]
  have habs : |(-m : ℤ)| = m := by rw [abs_neg, Nat.abs_cast]
  rw [hv]
  unfold shiftDown
  split
  · rename_i hm
    refine .of_error fun h => ?_
    omega
  · split
    · rename_i hm hk
      obtain ⟨y, hy, hvalue⟩ := ofMagnitude_sign x x.coeff_lt hk
      rw [signed_coeff] at hvalue
      exact .of_exact hy hvalue (by omega)
    · rename_i hm hk
      obtain ⟨i, hi⟩ : ∃ i, x.scale + m - maxScale = i + 1 := ⟨x.scale + m - maxScale - 1, by omega⟩
      have hd : 2 ≤ tenPow (i + 1) := by
        have hpos := tenPow_pos i
        rw [tenPow_add, show tenPow 1 = 10 from rfl]
        omega
      rw [hi]
      obtain ⟨y, hy, hvalue⟩ := ofMagnitude_sign x (roundHalfUp_lt x.coeff_lt hd) le_rfl
      have hsplit : (10 : ℚ) ^ (x.scale + m) = tenPow (i + 1) * 10 ^ maxScale := by
        rw [cast_tenPow, ← pow_add]
        congr 1
        omega
      refine ⟨⟨fun _ => ⟨by omega, ?_⟩, fun _ => ⟨y, hy⟩⟩, fun x' hx' => ?_⟩
      · rw [abs_div, abs_of_pos (by positivity : (0 : ℚ) < 10 ^ (x.scale + m))]
        exact (div_le_self (abs_nonneg _) (one_le_pow₀ (by norm_num))).trans x.abs_coeff_le
      · rw [hy] at hx'
        cases hx'
        have hnear := abs_roundHalfUp_sub_le x.coeff.natAbs (Nat.zero_lt_of_lt hd)
        have hdist : y.value - x.coeff / 10 ^ (x.scale + m) = (if decide (x.coeff < 0) then -1 else 1) *
            ((roundHalfUp x.coeff.natAbs (tenPow (i + 1)) : ℚ) - x.coeff.natAbs / tenPow (i + 1)) / 10 ^ maxScale := by
          rw [hvalue, hsplit, ← signed_coeff x, natAbs_signed, cast_signed, cast_signed, signed_coeff]
          ring
        rw [hdist, abs_div, abs_mul, abs_of_pos (by positivity : (0 : ℚ) < 10 ^ maxScale)]
        refine div_le_div_of_nonneg_right ?_ (by positivity)
        split
        · rwa [abs_neg, abs_one, one_mul]
        · rwa [abs_one, one_mul]

theorem shiftUp_shifted (x : Decimal) (m : Nat) : Shifted (shiftUp x m) (x.value * 10 ^ (m : ℤ)) m := by
  have habs : |(m : ℤ)| = m := Nat.abs_cast m
  rw [zpow_natCast]
  unfold shiftUp
  split
  · rename_i hm
    obtain ⟨y, hy, hvalue⟩ := ofMagnitude_sign x x.coeff_lt ((Nat.sub_le x.scale m).trans x.scale_le)
    refine .of_exact hy ?_ ?_
    · obtain ⟨i, hi⟩ := Nat.exists_eq_add_of_le hm
      rw [hvalue, signed_coeff, value_eq, hi, Nat.add_sub_cancel_left, pow_add]
      field_simp
    · rw [habs]
      exact_mod_cast hm.trans x.scale_le
  · rename_i hm
    have hv : x.value * 10 ^ m = (x.coeff * tenPow (m - x.scale) : ℤ) := by
      obtain ⟨i, hi⟩ := Nat.exists_eq_add_of_lt (Nat.lt_of_not_le hm)
      rw [show m - x.scale = i + 1 by omega, value_eq, hi, Nat.add_assoc, pow_add, Int.cast_mul, Int.cast_natCast,
        cast_tenPow]
      field_simp
    split
    · refine .of_error fun h => ?_
      omega
    · split
      · rename_i y hy
        refine .of_exact rfl ?_ (by omega)
        rw [(of?_eq_some hy).1, pow_zero, div_one, hv]
      · rename_i hnone
        refine .of_error fun h => ?_
        rw [hv, ← natAbs_lt_coeffBound] at h
        obtain ⟨y, hy⟩ := exists_of? h.2 (Nat.zero_le maxScale)
        rw [hnone] at hy
        cases hy

theorem readExponent_digits (hsign : IsSign false s) (hw : w ≠ []) (hn : Denotes w n) :
    readExponent (s ++ w) = if n < twoPow 32 then .ok n else .error .malformed := by
  obtain ⟨c, t, hc, rfl⟩ := exists_cons_of_denotes hn hw
  have hnumeral : numeral? (c :: t) = some n := hn
  have hunsigned : unsigned? (twoPow 32) (s ++ c :: t) = if n < twoPow 32 then some n else none := by
    cases hsign with
    | none =>
      unfold unsigned?
      split
      · rename_i heq
        cases heq
        cases hc
      · rw [List.nil_append, hnumeral]
        rfl
    | plus =>
      simp only [List.cons_append, List.nil_append, unsigned?, hnumeral, bind, Option.bind]
  rw [readExponent, hunsigned]
  by_cases hlt : n < twoPow 32
  · simp only [if_pos hlt]
  · simp only [if_neg hlt]

theorem not_isPlainMark (he : e = 'e' ∨ e = 'E') : ¬ IsPlainMark e := by
  unfold IsPlainMark
  rcases he with rfl | rfl <;> decide

/-- The point of a number moved as the text after the exponent's mark says. -/
def shiftBy (x : Decimal) (t : List Char) : Except ReadError Decimal :=
  match t with
  | '-' :: r => readExponent r >>= shiftDown x
  | r => readExponent r >>= shiftUp x

theorem shiftBy_of_plus (x : Decimal) (hsign : IsSign false s) (hn : Denotes w n) :
    shiftBy x (s ++ w) = readExponent (s ++ w) >>= shiftUp x := by
  unfold shiftBy
  split
  · rename_i t heq
    cases hsign with
    | none =>
      have hminus := hn.isDigit '-' (by rw [show w = '-' :: t from heq]; exact List.mem_cons_self)
      cases hminus
    | plus => cases heq
  · rfl

theorem shiftBy_shifted (x : Decimal) (ht : IsExponent t z) : Shifted (shiftBy x t) (x.value * 10 ^ z) z := by
  cases ht with
  | @digits negative s w n hsign hw hn =>
    have hlarge : ¬ n < twoPow 32 → ¬ (|signed negative n| ≤ maxScale ∧ |x.value * 10 ^ signed negative n| ≤ largest) := by
      rintro hn ⟨hle, -⟩
      rw [Int.abs_eq_natAbs, natAbs_signed] at hle
      have hbound : maxScale < twoPow 32 := by decide
      omega
    cases negative with
    | true =>
      cases hsign
      have hexponent := readExponent_digits .none hw hn
      show Shifted (readExponent w >>= shiftDown x) _ _
      rw [← List.nil_append w, hexponent]
      split
      · exact shiftDown_shifted x n
      · exact .of_error (hlarge ‹_›)
    | false =>
      rw [shiftBy_of_plus x hsign hn, readExponent_digits hsign hw hn]
      split
      · exact shiftUp_shifted x n
      · exact .of_error (hlarge ‹_›)

/-- A number with an exponent is not a plain number; it is cut before the exponent. -/
theorem read_exponent (hs : ∀ c ∈ s, IsPlainMark c) (he : e = 'e' ∨ e = 'E') (t : List Char) :
    read (s ++ e :: t) = readPlain s >>= fun x => shiftBy x t := by
  have hcut : cutWhere (fun c => c == 'e' || c == 'E') (s ++ e :: t) = some (s, t) := by
    refine cutWhere_eq_some.2 ⟨e, by simpa using he, rfl, fun c hc heq => ?_⟩
    exact not_isPlainMark (by simpa using heq) (hs c hc)
  unfold read
  split
  · rename_i y hy
    exact absurd (isPlainMark_of_readPlain hy e (by simp)) (not_isPlainMark he)
  · rw [readScientific, hcut]
    rfl

theorem read_scientific (hs : IsPlain s c k) (hc : c.natAbs < coeffBound) (hk : k ≤ maxScale) (he : e = 'e' ∨ e = 'E')
    (ht : IsExponent t z) : Shifted (read (s ++ e :: t)) (c / 10 ^ k * 10 ^ z) z := by
  obtain ⟨x, hx, rfl, rfl⟩ := readPlain_of_isPlain hs hc hk
  rw [read_exponent hs.isPlainMark he, hx, ← value_eq]
  exact shiftBy_shifted x ht

end Decimal

/-! ## Prices between white space -/

open Decimal

variable {s t a b : List Char} {c z : Int} {k : Nat} {x : Decimal}

theorem not_isBlank_of_isPlain (h : IsPlain s c k) : ∀ c ∈ s, ¬ isBlank c :=
  fun c hc => (h.isPlainMark c hc).isMark.not_isBlank

theorem not_isBlank_of_isExponent (h : IsExponent t z) : ∀ c ∈ t, ¬ isBlank c := by
  cases h with
  | digits hsign hw hn =>
    refine List.forall_mem_append.2 ⟨fun c hc => (hsign.isPlainMark c hc).isMark.not_isBlank, ?_⟩
    exact fun c hc => not_isBlank_of_isDigit (hn.isDigit c hc)

theorem readDecimal_between (ha : ∀ c ∈ a, isBlank c) (hb : ∀ c ∈ b, isBlank c) (hs : ∀ c ∈ s, ¬ isBlank c) :
    readDecimal (a ++ s ++ b) = .ok x ↔ Decimal.read s = .ok x := by
  rw [readDecimal_eq_ok, trim_append ha hb, trim_eq_self (fun c hc => hs c (List.mem_of_head? hc))
    (fun c hc => hs c (List.mem_of_getLast? hc))]

/-- **How a price is read.** White space around it does not matter. A plain number that fits is read as it is written,
with as many fraction digits. With an exponent of at most 28 and of a value in range it is read as the nearest number
with 28 fraction digits, so exactly if it has no more; otherwise it is refused. What is printed is read back. -/
theorem price_read (hs : IsPlain s c k) (hc : c.natAbs < coeffBound) (hk : k ≤ maxScale) (ha : ∀ c ∈ a, isBlank c)
    (hb : ∀ c ∈ b, isBlank c) :
    (∃ x, readDecimal (a ++ s ++ b) = .ok x ∧ x.coeff = c ∧ x.scale = k) ∧
    (∀ (e : Char) (t : List Char) (z : Int), (e = 'e' ∨ e = 'E') → IsExponent t z →
      let v : ℚ := c / 10 ^ k * 10 ^ z
      ((∃ y, readDecimal (a ++ (s ++ e :: t) ++ b) = .ok y) ↔ |z| ≤ maxScale ∧ |v| ≤ largest) ∧
      ∀ y, readDecimal (a ++ (s ++ e :: t) ++ b) = .ok y →
        |y.value - v| ≤ 1 / 2 / 10 ^ maxScale ∧ (HasDigits maxScale v → y.value = v)) ∧
    ∀ x : Decimal, readDecimal x.print = .ok x := by
  refine ⟨?_, fun e t z he ht => ?_, readDecimal_print⟩
  · obtain ⟨x, hx, hcoeff⟩ := readPlain_of_isPlain hs hc hk
    exact ⟨x, (readDecimal_between ha hb (not_isBlank_of_isPlain hs)).2 (by rw [Decimal.read, hx]), hcoeff⟩
  · have hshifted := read_scientific hs hc hk he ht
    have hblank : ∀ c ∈ s ++ e :: t, ¬ isBlank c := by
      refine List.forall_mem_append.2 ⟨not_isBlank_of_isPlain hs, List.forall_mem_cons.2 ⟨?_, not_isBlank_of_isExponent ht⟩⟩
      rcases he with rfl | rfl <;> decide
    simp only [readDecimal_between ha hb hblank]
    exact ⟨hshifted.exists_iff, fun y hy => ⟨hshifted.close y hy, hshifted.exact hy⟩⟩

theorem price_read_signed :
    IsPlain "-1.50".toList (-150) 2 ∧ IsExponent "+3".toList 3 ∧
    (∃ x, readDecimal "\t-1.50 \n".toList = .ok x ∧ x.coeff = -150 ∧ x.scale = 2) ∧
    ∀ y, readDecimal "\t-1.50e+3 \n".toList = .ok y → y.value = -1500 := by
  have hs : IsPlain "-1.50".toList (-150) 2 :=
    IsPlain.fraction (s := ['-']) (w := ['1']) (f := ['5', '0']) (n := 150) .minus (by decide) rfl
  have ht : IsExponent "+3".toList 3 := IsExponent.digits (s := ['+']) (w := ['3']) (n := 3) .plus (by decide) rfl
  have hbefore : ∀ c ∈ ['\t'], isBlank c := List.forall_mem_singleton.2 (by decide)
  have hafter : ∀ c ∈ [' ', '\n'], isBlank c :=
    List.forall_mem_cons.2 ⟨by decide, List.forall_mem_singleton.2 (by decide)⟩
  obtain ⟨hplain, hscientific, -⟩ := price_read hs (by decide) (by decide) hbefore hafter
  refine ⟨hs, ht, hplain, fun y hy => ?_⟩
  have hexact := ((hscientific 'e' "+3".toList 3 (Or.inl rfl) ht).2 y hy).2 ⟨-1500 * 10 ^ 28, by norm_num [maxScale]⟩
  rw [hexact]
  norm_num

/-- A price with 29 fraction digits, which is written with an exponent, is not refused but rounded. -/
theorem last_digit_dropped :
    IsPlain "1.2".toList 12 1 ∧ IsExponent "-28".toList (-28) ∧
    ∃ y, readDecimal "1.2e-28".toList = .ok y ∧ y.value ≠ 12 / 10 ^ 1 * 10 ^ (-28 : ℤ) := by
  refine ⟨IsPlain.fraction (s := []) (w := ['1']) (f := ['2']) (n := 12) .none (by decide) rfl,
    IsExponent.digits (s := ['-']) (w := ['2', '8']) (n := 28) .minus (by decide) rfl, ?_⟩
  refine ⟨⟨1, 28, by decide, by decide⟩, by decide +kernel, ?_⟩
  norm_num [value_eq]

end RateDesk
