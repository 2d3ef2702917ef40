import Mathlib.Tactic.Ring
import RateDesk.Text.Blank
import RateDesk.Text.Numeral

/-!
# Numerals and the numbers they write

* `Denotes s n` : the text `s` consists of digits, which write the number `n`;
* `Denotes.append`, `Denotes.split` : two runs of digits, one after the other;
* `denotes_printNat`, `denotes_padded` : what is printed denotes the number that was printed;
* `length_padded` : a number that fits is exactly as wide as it is padded to.
-/

namespace RateDesk.Text

variable {s t : List Char} {c : Char} {d m n w : Nat}

theorem tenPow_pos (n : Nat) : 0 < tenPow n := Nat.pow_pos (by decide)

theorem tenPow_add (m n : Nat) : tenPow (m + n) = tenPow m * tenPow n := Nat.pow_add 10 m n

/-! ## Digits -/

theorem digit?_digitChar (h : d < 10) : digit? (digitChar d) = some d :=
  (by decide : ∀ d < 10, digit? (digitChar d) = some d) d h

theorem digit?_lt (h : digit? c = some d) : d < 10 := by
  unfold digit? at h
  split at h
  · rename_i hc
    obtain rfl := Option.some.inj h
    have h9 : '9'.toNat = '0'.toNat + 9 := rfl
    omega
  · cases h

theorem isDigit_iff : isDigit c ↔ ∃ d, digit? c = some d := Option.isSome_iff_exists

theorem not_isBlank_of_isDigit (h : isDigit c) : ¬ isBlank c := by
  obtain ⟨d, hd⟩ := isDigit_iff.1 h
  unfold digit? at hd
  split at hd
  · rename_i hc
    have h0 : '0'.toNat = 48 := rfl
    have h9 : '9'.toNat = 57 := rfl
    simp [isBlank]
    omega
  · cases hd

theorem digits?_append (s t : List Char) :
    digits? (s ++ t) = (digits? s).bind fun ds => (digits? t).map fun es => ds ++ es := by
  induction s with
  | nil => cases h : digits? t <;> simp [digits?, h]
  | cons c s ih =>
    simp only [List.cons_append, digits?, ih, bind, pure]
    cases digit? c <;> cases digits? s <;> cases digits? t <;> rfl

theorem length_digits? {ds : List Nat} (h : digits? s = some ds) : ds.length = s.length := by
  induction s generalizing ds with
  | nil => cases h; rfl
  | cons c s ih =>
    simp only [digits?, bind, pure, Option.bind_eq_some_iff] at h
    obtain ⟨d, -, es, hes, heq⟩ := h
    cases heq
    simp [ih hes]

theorem ofDigits_append (acc : Nat) (ds es : List Nat) :
    ofDigits acc (ds ++ es) = ofDigits (ofDigits acc ds) es := by
  induction ds generalizing acc with
  | nil => rfl
  | cons d ds ih => exact ih (acc * 10 + d)

theorem ofDigits_eq (acc : Nat) (ds : List Nat) : ofDigits acc ds = acc * tenPow ds.length + ofDigits 0 ds := by
  induction ds generalizing acc with
  | nil => exact (Nat.mul_one acc).symm
  | cons d ds ih =>
    rw [ofDigits, ofDigits, ih, ih (0 * 10 + d), List.length_cons, tenPow_add, show tenPow 1 = 10 from rfl]
    ring

/-! ## Runs of digits -/

/-- The text consists of digits, which write the number. -/
def Denotes (s : List Char) (n : Nat) : Prop := (digits? s).map (ofDigits 0) = some n

theorem denotes_iff : Denotes s n ↔ ∃ ds, digits? s = some ds ∧ ofDigits 0 ds = n := Option.map_eq_some_iff

theorem denotes_nil : Denotes [] 0 := rfl

theorem denotes_nil_iff : Denotes [] n ↔ n = 0 := by
  simp [Denotes, digits?, ofDigits, eq_comm]

theorem denotes_digit (h : digit? c = some d) : Denotes [c] d := by
  simp [Denotes, digits?, h, ofDigits]

theorem Denotes.append (hs : Denotes s m) (ht : Denotes t n) : Denotes (s ++ t) (m * tenPow t.length + n) := by
  obtain ⟨ds, hds, rfl⟩ := denotes_iff.1 hs
  obtain ⟨es, hes, rfl⟩ := denotes_iff.1 ht
  rw [denotes_iff]
  refine ⟨ds ++ es, by simp [digits?_append, hds, hes], ?_⟩
  rw [ofDigits_append, ofDigits_eq, length_digits? hes]

theorem Denotes.split (h : Denotes (s ++ t) n) :
    ∃ a b, Denotes s a ∧ Denotes t b ∧ n = a * tenPow t.length + b := by
  obtain ⟨vs, hvs, rfl⟩ := denotes_iff.1 h
  rw [digits?_append, Option.bind_eq_some_iff] at hvs
  obtain ⟨ds, hds, hmap⟩ := hvs
  obtain ⟨es, hes, rfl⟩ := Option.map_eq_some_iff.1 hmap
  refine ⟨_, _, denotes_iff.2 ⟨ds, hds, rfl⟩, denotes_iff.2 ⟨es, hes, rfl⟩, ?_⟩
  rw [ofDigits_append, ofDigits_eq, length_digits? hes]

theorem Denotes.head (h : Denotes (c :: s) n) :
    ∃ d b, digit? c = some d ∧ Denotes s b ∧ n = d * tenPow s.length + b := by
  obtain ⟨a, b, ha, hb, rfl⟩ := Denotes.split (s := [c]) h
  obtain ⟨ds, hds, rfl⟩ := denotes_iff.1 ha
  cases hc : digit? c with
  | none => simp [digits?, hc] at hds
  | some d =>
    simp only [digits?, hc, bind, pure, Option.bind_some, Option.some.injEq] at hds
    subst hds
    exact ⟨d, b, rfl, hb, by simp [ofDigits]⟩

theorem Denotes.isDigit (h : Denotes s n) : ∀ c ∈ s, isDigit c := by
  induction s generalizing n with
  | nil => nofun
  | cons c s ih =>
    obtain ⟨d, b, hd, hb, -⟩ := h.head
    intro x hx
    rcases List.mem_cons.1 hx with rfl | hx
    · exact isDigit_iff.2 ⟨d, hd⟩
    · exact ih hb x hx

theorem exists_denotes (h : ∀ c ∈ s, isDigit c) : ∃ n, Denotes s n := by
  induction s with
  | nil => exact ⟨0, denotes_nil⟩
  | cons c s ih =>
    obtain ⟨hc, hs⟩ := List.forall_mem_cons.1 h
    obtain ⟨d, hd⟩ := isDigit_iff.1 hc
    obtain ⟨n, hn⟩ := ih hs
    exact ⟨_, (denotes_digit hd).append hn⟩

theorem Denotes.lt (h : Denotes s n) : n < tenPow s.length := by
  induction s generalizing n with
  | nil => cases h; exact tenPow_pos 0
  | cons c s ih =>
    obtain ⟨d, b, hd, hb, rfl⟩ := h.head
    have hlt := ih hb
    have hdigit := Nat.mul_le_mul_right (tenPow s.length) (Nat.le_of_lt_succ (digit?_lt hd))
    rw [List.length_cons, tenPow_add, show tenPow 1 = 10 from rfl]
    omega

theorem denotes_of_numeral? (h : numeral? s = some n) : Denotes s n := by
  unfold numeral? at h
  split at h
  · cases h
  · exact h

theorem isDigit_of_numeral? (h : numeral? s = some n) : ∀ c ∈ s, isDigit c := (denotes_of_numeral? h).isDigit

/-- A numeral begins with a digit. -/
theorem cons_of_numeral? (h : numeral? s = some n) : ∃ c t, s = c :: t ∧ isDigit c := by
  cases s with
  | nil => cases h
  | cons c t => exact ⟨c, t, rfl, isDigit_of_numeral? h c List.mem_cons_self⟩

/-! ## Printed numbers -/

theorem writeDigits_append (fuel n : Nat) (tail : List Char) :
    writeDigits fuel n tail = writeDigits fuel n [] ++ tail := by
  induction fuel generalizing n tail with
  | zero => rfl
  | succ fuel ih =>
    rw [writeDigits, writeDigits]
    split
    · rfl
    · rw [ih, ih (n / 10) [digitChar (n % 10)], List.append_assoc]
      rfl

theorem writeDigits_fuel {fuel fuel' : Nat} (h : n < fuel) (h' : n < fuel') (tail : List Char) :
    writeDigits fuel n tail = writeDigits fuel' n tail := by
  induction fuel generalizing n fuel' tail with
  | zero => exact absurd h (Nat.not_lt_zero n)
  | succ fuel ih =>
    cases fuel' with
    | zero => exact absurd h' (Nat.not_lt_zero n)
    | succ fuel' =>
      rw [writeDigits, writeDigits]
      split
      · rfl
      · exact ih (by omega) (by omega) _

theorem printNat_of_lt (h : n < 10) : printNat n = [digitChar n] := by
  rw [printNat, writeDigits, if_pos h]

theorem printNat_of_le (h : 10 ≤ n) : printNat n = printNat (n / 10) ++ [digitChar (n % 10)] := by
  rw [printNat, writeDigits, if_neg (by omega), writeDigits_append, printNat]
  congr 1
  exact writeDigits_fuel (by omega) (by omega) []

theorem denotes_printNat (n : Nat) : Denotes (printNat n) n := by
  induction n using Nat.strongRecOn with
  | _ n ih =>
    by_cases h : n < 10
    · rw [printNat_of_lt h]
      exact denotes_digit (digit?_digitChar h)
    · have hlast := denotes_digit (digit?_digitChar (Nat.mod_lt n (by decide : 0 < 10)))
      have hall := (ih (n / 10) (by omega)).append hlast
      rw [printNat_of_le (by omega)]
      rwa [show n / 10 * tenPow [digitChar (n % 10)].length + n % 10 = n from Nat.div_add_mod' n 10] at hall

theorem length_printNat_le (h : n < tenPow (w + 1)) : (printNat n).length ≤ w + 1 := by
  induction w generalizing n with
  | zero =>
    rw [printNat_of_lt h]
    exact Nat.le_refl 1
  | succ w ih =>
    by_cases hn : n < 10
    · rw [printNat_of_lt hn]
      exact Nat.le_add_left 1 (w + 1)
    · rw [tenPow_add, show tenPow 1 = 10 from rfl] at h
      have hrest : (printNat (n / 10)).length ≤ w + 1 := ih (Nat.div_lt_of_lt_mul (by rwa [Nat.mul_comm] at h))
      rw [printNat_of_le (by omega), List.length_append]
      exact Nat.succ_le_succ hrest

theorem denotes_zeros (k : Nat) : Denotes (List.replicate k '0') 0 := by
  induction k with
  | zero => exact denotes_nil
  | succ k ih =>
    have hall := (denotes_digit (digit?_digitChar (by decide : 0 < 10))).append ih
    rwa [Nat.zero_mul] at hall

theorem denotes_padded (w n : Nat) : Denotes (padded w n) n := by
  have hall := (denotes_zeros (w - (printNat n).length)).append (denotes_printNat n)
  rwa [Nat.zero_mul, Nat.zero_add] at hall

theorem length_padded_ge (w n : Nat) : w ≤ (padded w n).length := by
  rw [padded, List.length_append, List.length_replicate]
  omega

theorem length_padded (h : n < tenPow (w + 1)) : (padded (w + 1) n).length = w + 1 := by
  have hle := length_printNat_le h
  rw [padded, List.length_append, List.length_replicate]
  omega

end RateDesk.Text
