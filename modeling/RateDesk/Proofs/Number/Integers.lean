import Mathlib.Data.List.TakeWhile
import RateDesk.Number.Binary64
import RateDesk.Proofs.Text.Numeral

/-!
# Integers as they are read

* `Text.Writes s n` : the text `s` is a numeral of the integer `n`, with a sign or without;
* `Text.signed64?_of_writes` : as an integer of 64 bits a numeral is read exactly, if its integer is one;
* `Binary64.read_of_writes` : as a float every numeral is read, and rounded once;
* `Binary64.nearest_eq_infinite` : integers beyond the range of floats;
* `Binary64.toNat64_ofInt_of_neg` : negative integers, rounded to a natural number.
-/

namespace RateDesk

namespace Text

variable {s : List Char} {c : Char} {k : Nat} {n : Int}

/-- The text is a numeral of the integer: digits, with a sign or without. -/
inductive Writes : List Char → Int → Prop
  | plain {s : List Char} {k : Nat} (h : numeral? s = some k) : Writes s k
  | plus {s : List Char} {k : Nat} (h : numeral? s = some k) : Writes ('+' :: s) k
  | minus {s : List Char} {k : Nat} (h : numeral? s = some k) : Writes ('-' :: s) (-k)

/-- The integer fits in 64 bits with a sign. -/
def Signed64 (n : Int) : Prop := -(twoPow 63 : Int) ≤ n ∧ n < (twoPow 63 : Int)

instance (n : Int) : Decidable (Signed64 n) := inferInstanceAs (Decidable (_ ∧ _))

theorem numeral?_minus (s : List Char) : numeral? ('-' :: s) = none := rfl

theorem numeral?_plus (s : List Char) : numeral? ('+' :: s) = none := rfl

theorem signed64?_eq_bind (h : Writes s n) :
    signed64? s = (some n).bind fun n => if -(twoPow 63 : Int) ≤ n ∧ n < (twoPow 63 : Int) then some n else none := by
  cases h with
  | plain h =>
    unfold signed64?
    split
    · cases (numeral?_minus _).symm.trans h
    · cases (numeral?_plus _).symm.trans h
    · rw [h, Option.map_some]
      rfl
  | plus h =>
    rw [signed64?, h, Option.map_some]
    rfl
  | minus h =>
    rw [signed64?, h]
    rfl

/-- As an integer of 64 bits a numeral is read exactly. -/
theorem signed64?_of_writes (h : Writes s n) (hn : Signed64 n) : signed64? s = some n :=
  (signed64?_eq_bind h).trans (if_pos hn)

theorem signed64?_eq_none (h : Writes s n) (hn : ¬ Signed64 n) : signed64? s = none :=
  (signed64?_eq_bind h).trans (if_neg hn)

/-- What is read as an integer of 64 bits is one. -/
theorem signed64_of_signed64? (h : signed64? s = some n) : Signed64 n := by
  unfold signed64? at h
  extract_lets bounded at h
  have hbounded (k : Int) (h : bounded k = some n) : Signed64 n := by
    unfold bounded at h
    split at h
    · rename_i hk
      cases h
      exact hk
    · cases h
  split at h
  · obtain ⟨k, -, h⟩ := Option.bind_eq_some_iff.1 h
    exact hbounded k h
  · obtain ⟨k, -, h⟩ := Option.bind_eq_some_iff.1 h
    exact hbounded k h
  · obtain ⟨k, -, h⟩ := Option.bind_eq_some_iff.1 h
    exact hbounded k h

theorem toLower_of_isDigit (h : isDigit c) : c.toLower = c := by
  obtain ⟨d, hd⟩ := isDigit_iff.1 h
  unfold digit? at hd
  split at hd
  · rename_i hc
    have h9 : '9'.toNat = 57 := rfl
    have hval : c.val.toNat ≤ 57 := h9 ▸ hc.2
    unfold Char.toLower
    split
    · rename_i hupper
      have hle : 65 ≤ c.val.toNat := UInt32.le_iff_toNat_le.1 hupper.1
      omega
    · rfl
  · cases hd

end Text

namespace Binary64

open Text

variable {s : List Char} {k : Nat} {n : Int} {negative : Bool}

theorem le_log2_of_tenPow_le {a b : Nat} (hab : 2 ^ a ≤ 10 ^ b) (d : Nat) (h : tenPow (b * d) ≤ k) :
    a * d ≤ k.log2 := by
  have hne : k ≠ 0 := Nat.ne_of_gt (Nat.lt_of_lt_of_le (tenPow_pos _) h)
  refine (Nat.le_log2 hne).2 (Nat.le_trans ?_ h)
  calc 2 ^ (a * d) = (2 ^ a) ^ d := Nat.pow_mul 2 a d
    _ ≤ (10 ^ b) ^ d := Nat.pow_le_pow_left hab d
    _ = 10 ^ (b * d) := (Nat.pow_mul 10 b d).symm

/-- What is far beyond the largest float is infinite. -/
theorem nearest_eq_infinite (h : tenPow (62 * 5) ≤ k) (negative : Bool) : nearest negative k 1 = .infinite negative := by
  have hne : k ≠ 0 := Nat.ne_of_gt (Nat.lt_of_lt_of_le (tenPow_pos _) h)
  have hlog : 205 * 5 ≤ k.log2 := le_log2_of_tenPow_le (by decide : 2 ^ 205 ≤ 10 ^ 62) 5 h
  rw [nearest, if_neg hne]
  extract_lets scaled q q₁ q₂ m
  have hq : 972 ≤ q := by
    have hone : Nat.log2 1 = 0 := by decide
    omega
  have hq₁ : q ≤ q₁ := by
    unfold q₁
    split <;> omega
  have hq₂ : q₁ ≤ q₂ := le_max_left q₁ minExp
  split
  rename_i m' q' heq
  have hq' : q₂ ≤ q' := by
    split at heq
    · cases heq
      omega
    · cases heq
      exact le_rfl
  have hmax : maxExp = 971 := rfl
  exact if_pos (by omega)

/-- A word that does not begin with a digit is no numeral. -/
theorem lower_ne_of_numeral? (h : numeral? s = some k) {c : Char} {r : List Char} (hc : ¬ isDigit c) :
    lower s ≠ c :: r := by
  obtain ⟨d, t, rfl, hd⟩ := cons_of_numeral? h
  intro heq
  have hhead : d.toLower = c := (List.cons.inj heq).1
  rw [toLower_of_isDigit hd] at hhead
  exact hc (hhead ▸ hd)

theorem readSignificand_numeral (h : numeral? s = some k) : readSignificand s = some (s, [], []) := by
  obtain ⟨c, t, rfl, -⟩ := cons_of_numeral? h
  have hdigits := isDigit_of_numeral? h
  have htake : (c :: t).takeWhile isDigit = c :: t := List.takeWhile_eq_self_iff.2 hdigits
  have hdrop : (c :: t).dropWhile isDigit = [] := List.dropWhile_eq_nil_iff.2 hdigits
  rw [readSignificand, htake, hdrop]
  rfl

/-- A numeral is read as the nearest float; what is out of range is infinite either way. -/
theorem readUnsigned_numeral (h : numeral? s = some k) (negative : Bool) :
    readUnsigned negative s = some (nearest negative k 1) := by
  have hinf : ¬ (lower s = "inf".toList ∨ lower s = "infinity".toList) :=
    not_or.2 ⟨lower_ne_of_numeral? h (by decide), lower_ne_of_numeral? h (by decide)⟩
  have hnan : lower s ≠ "nan".toList := lower_ne_of_numeral? h (by decide)
  obtain ⟨ds, hds, hk⟩ := denotes_iff.1 (denotes_of_numeral? h)
  rw [readUnsigned, if_neg hinf, if_neg hnan, readSignificand_numeral h]
  simp only [readExponent, hds, hk, List.append_nil, List.length_nil, bind, Option.bind, pure]
  split
  · rename_i h₀
    rw [h₀]
    rfl
  · split
    · rename_i hlong
      have hlarge : tenPow (62 * 5) ≤ k := by
        by_contra hlt
        rw [show 62 * 5 = 309 + 1 from rfl, Nat.not_le] at hlt
        have hlen := length_printNat_le hlt
        omega
      rw [nearest_eq_infinite hlarge]
    · rw [if_neg (by omega), if_pos (by omega)]
      exact congrArg (fun k => some (nearest negative k 1)) (Nat.mul_one k)

/-- As a float every numeral is read, and rounded once; only zero keeps a sign. -/
theorem read_of_writes (h : Writes s n) (hn : n ≠ 0) : read s = some (ofInt n) := by
  cases h with
  | plain h =>
    unfold read
    split
    · cases (numeral?_minus _).symm.trans h
    · cases (numeral?_plus _).symm.trans h
    · exact readUnsigned_numeral h false
  | plus h => exact readUnsigned_numeral h false
  | @minus r k h =>
    have hneg : -(k : Int) < 0 := by omega
    rw [read, readUnsigned_numeral h, ofInt, decide_eq_true hneg, Int.natAbs_neg, Int.natAbs_natCast]

theorem toNat64_nearest_negative (num den : Nat) : (nearest true num den).toNat64 = 0 := by
  unfold nearest
  split
  · rfl
  · extract_lets
    split
    split <;> rfl

/-- A negative integer becomes zero. -/
theorem toNat64_ofInt_of_neg (h : n < 0) : (ofInt n).toNat64 = 0 := by
  rw [ofInt, decide_eq_true h, toNat64_nearest_negative]

end Binary64

end RateDesk
