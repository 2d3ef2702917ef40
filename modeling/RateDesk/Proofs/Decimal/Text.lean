import RateDesk.Decimal.Text
import RateDesk.Proofs.Outcome
import RateDesk.Proofs.Text.Cut
import RateDesk.Proofs.Text.Numeral

/-!
# Decimals in writing and back

* `read_print` : a printed decimal is read back with its scale;
* `isMark_of_read` : which characters a text that is read as a decimal can have.
-/

namespace RateDesk.Decimal

open Text

variable {point seen : Bool} {m n scale : Nat} {s r : List Char} {c : Char} {x : Decimal} {y : Nat × Nat}

/-! ## Reading what was printed -/

/-- Digits that fit are read one after the other. -/
theorem readMagnitude_digits (hs : Denotes s n) (hfits : m * tenPow s.length + n < coeffBound)
    (hscale : point → scale + s.length ≤ maxScale) (r : List Char) :
    readMagnitude point seen m scale (s ++ r) =
      readMagnitude point (seen || !s.isEmpty) (m * tenPow s.length + n)
        (if point then scale + s.length else scale) r := by
  -- by induction on the digits: what is left to read is worth less than one unit of what was read
  induction s generalizing seen m n scale with
  | nil =>
    obtain rfl := denotes_nil_iff.1 hs
    simp
  | cons c s ih =>
    obtain ⟨d, b, hd, hb, rfl⟩ := hs.head
    have hnext : m * tenPow (c :: s).length + (d * tenPow s.length + b) = (m * 10 + d) * tenPow s.length + b := by
      rw [List.length_cons, tenPow_add, show tenPow 1 = 10 from rfl]
      ring
    rw [hnext] at hfits ⊢
    have hone : m * 10 + d < coeffBound := by
      have hle := Nat.le_mul_of_pos_right (m * 10 + d) (tenPow_pos s.length)
      omega
    have hroom : ¬ (point = true ∧ maxScale ≤ scale) := by
      rintro ⟨hp, hle⟩
      have hlen := hscale hp
      rw [List.length_cons] at hlen
      omega
    rw [List.cons_append, readMagnitude, if_neg hroom, hd]
    dsimp only
    rw [if_pos hone, ih hb hfits ?_]
    · cases point <;> simp [Nat.add_comm, Nat.add_left_comm]
    · intro hp
      have hlen := hscale hp
      rw [List.length_cons] at hlen
      simp only [hp, if_true]
      omega

theorem readMagnitude_point (seen : Bool) (m scale : Nat) (r : List Char) :
    readMagnitude false seen m scale ('.' :: r) = readMagnitude true seen m scale r := by
  rw [readMagnitude, if_neg (by simp)]
  rfl

/-- A printed magnitude has its digits before and after the point, and at least one before it. -/
theorem printMagnitude_eq (m scale : Nat) :
    ∃ a b, a ≠ [] ∧ b.length = scale ∧ Denotes (a ++ b) m ∧
      printMagnitude m scale = if scale = 0 then a else a ++ '.' :: b := by
  have hlen := length_padded_ge (scale + 1) m
  have hall := denotes_padded (scale + 1) m
  rw [← List.take_append_drop ((padded (scale + 1) m).length - scale) (padded (scale + 1) m)] at hall
  refine ⟨_, _, ?_, ?_, hall, ?_⟩
  · rw [ne_eq, List.take_eq_nil_iff, not_or]
    constructor
    · omega
    · exact List.ne_nil_of_length_pos (by omega)
  · rw [List.length_drop]
    omega
  · unfold printMagnitude
    by_cases h : scale = 0
    · simp [h]
    · simp [h]

theorem readMagnitude_whole (hs : Denotes s n) (hne : s ≠ []) (hfits : n < coeffBound) (r : List Char) :
    readMagnitude false false 0 0 (s ++ r) = readMagnitude false true n 0 r := by
  have hread : ∀ r, readMagnitude false false 0 0 (s ++ r) = readMagnitude false (false || !s.isEmpty)
      (0 * tenPow s.length + n) 0 r := readMagnitude_digits hs (by omega) nofun
  rw [hread]
  simp [List.isEmpty_eq_false_iff.2 hne]

/-- Digits with a point after the first of them. -/
theorem readMagnitude_fraction (hs : Denotes (s ++ r) n) (hne : s ≠ []) (hfits : n < coeffBound)
    (hscale : r.length ≤ maxScale) : readMagnitude false false 0 0 (s ++ '.' :: r) = .ok (n, r.length) := by
  obtain ⟨a, b, ha, hb, rfl⟩ := hs.split
  have hle := Nat.le_mul_of_pos_right a (tenPow_pos r.length)
  rw [readMagnitude_whole ha hne (by omega), readMagnitude_point, ← List.append_nil r,
    readMagnitude_digits hb (by simpa using hfits) (by simpa using hscale)]
  simp [readMagnitude]

theorem readMagnitude_printMagnitude (hm : m < coeffBound) (hscale : scale ≤ maxScale) :
    readMagnitude false false 0 0 (printMagnitude m scale) = .ok (m, scale) := by
  obtain ⟨a, b, ha, rfl, hab, hprint⟩ := printMagnitude_eq m scale
  rw [hprint]
  split
  · rename_i hb
    obtain rfl := List.length_eq_zero_iff.1 hb
    rw [List.append_nil] at hab
    rw [← List.append_nil a, readMagnitude_whole hab ha hm]
    rfl
  · exact readMagnitude_fraction hab ha hm hscale

theorem head_printMagnitude (m scale : Nat) : ∃ c r, isDigit c ∧ printMagnitude m scale = c :: r := by
  obtain ⟨a, b, ha, -, hab, hprint⟩ := printMagnitude_eq m scale
  obtain ⟨c, a, rfl⟩ := List.exists_cons_of_ne_nil ha
  refine ⟨c, if scale = 0 then a else a ++ '.' :: b, hab.isDigit c List.mem_cons_self, ?_⟩
  rw [hprint]
  split <;> rfl

/-- A text that begins with a digit has no sign. -/
theorem readPlain_of_isDigit (hc : isDigit c) (r : List Char) :
    readPlain (c :: r) = readMagnitude false false 0 0 (c :: r) >>= ofMagnitude false := by
  rw [readPlain.eq_def]
  split
  · rename_i heq; cases heq
  · rename_i heq; cases heq; cases hc
  · rename_i heq; cases heq; cases hc
  · rfl

theorem ofMagnitude_eq (x : Decimal) : ofMagnitude (x.coeff < 0) (x.coeff.natAbs, x.scale) = .ok x := by
  have hcoeff : (if x.coeff < 0 then -(x.coeff.natAbs : Int) else x.coeff.natAbs) = x.coeff := by
    split <;> omega
  have hof : of? x.coeff x.scale = some x := by
    rw [of?, dif_pos ⟨x.coeff_lt, x.scale_le⟩]
  simp only [ofMagnitude, decide_eq_true_eq, hcoeff, hof]

theorem readPlain_print (x : Decimal) : readPlain x.print = .ok x := by
  have hmagnitude := readMagnitude_printMagnitude x.coeff_lt x.scale_le
  have hof := ofMagnitude_eq x
  unfold print
  by_cases h : x.coeff < 0
  · rw [decide_eq_true h] at hof
    rw [if_pos h, readPlain, hmagnitude]
    exact hof
  · rw [decide_eq_false h] at hof
    obtain ⟨c, r, hc, hprint⟩ := head_printMagnitude x.coeff.natAbs x.scale
    rw [if_neg h, hprint, readPlain_of_isDigit hc, ← hprint, hmagnitude]
    exact hof

/-- A printed decimal is read back, coefficient and scale. -/
theorem read_print (x : Decimal) : read x.print = .ok x := by
  rw [read, readPlain_print]

/-! ## Characters of decimals -/

def IsPlainMark (c : Char) : Prop := isDigit c ∨ c ∈ ['.', '_', '-', '+']

/-- The characters that decimals in plain or scientific notation are written with. -/
def IsMark (c : Char) : Prop := isDigit c ∨ c ∈ ['.', '_', '-', '+', 'e', 'E']

theorem IsPlainMark.isMark (h : IsPlainMark c) : IsMark c :=
  h.imp_right fun hc => List.mem_of_mem_take (i := 4) hc

theorem isDigit_of_checkRest (h : checkRest s = .ok ()) : ∀ c ∈ s, isDigit c ∨ c = '_' := by
  induction s with
  | nil => nofun
  | cons c s ih =>
    rw [checkRest] at h
    split at h
    · rename_i hc
      exact List.forall_mem_cons.2 ⟨hc, ih h⟩
    · cases h

theorem isPlainMark_of_roundOff (h : roundOff m scale s = .ok y) : ∀ c ∈ s, IsPlainMark c := by
  obtain ⟨d, -, h⟩ := bind_eq_ok.1 h
  obtain ⟨u, hrest, -⟩ := bind_eq_ok.1 h
  intro c hc
  exact (isDigit_of_checkRest hrest c hc).imp_right fun hc => by simp [hc]

theorem isPlainMark_of_readMagnitude (h : readMagnitude point seen m scale s = .ok y) : ∀ c ∈ s, IsPlainMark c := by
  induction s generalizing point seen m scale with
  | nil => nofun
  | cons c s ih =>
    rw [readMagnitude] at h
    split at h
    · exact isPlainMark_of_roundOff h
    · split at h
      · rename_i d hd
        have hc : IsPlainMark c := Or.inl (isDigit_iff.2 ⟨d, hd⟩)
        split at h
        · exact List.forall_mem_cons.2 ⟨hc, ih h⟩
        · split at h
          · exact isPlainMark_of_roundOff h
          · cases h
      · split at h
        · rename_i hc
          exact List.forall_mem_cons.2 ⟨Or.inr (by simp [hc.1]), ih h⟩
        · split at h
          · rename_i hc
            exact List.forall_mem_cons.2 ⟨Or.inr (by simp [hc.1]), ih h⟩
          · cases h

theorem isPlainMark_of_readPlain (h : readPlain s = .ok x) : ∀ c ∈ s, IsPlainMark c := by
  unfold readPlain at h
  split at h
  · cases h
  · obtain ⟨y, hy, -⟩ := bind_eq_ok.1 h
    exact List.forall_mem_cons.2 ⟨Or.inr (by simp), isPlainMark_of_readMagnitude hy⟩
  · obtain ⟨y, hy, -⟩ := bind_eq_ok.1 h
    exact List.forall_mem_cons.2 ⟨Or.inr (by simp), isPlainMark_of_readMagnitude hy⟩
  · obtain ⟨y, hy, -⟩ := bind_eq_ok.1 h
    exact isPlainMark_of_readMagnitude hy

theorem isMark_of_readExponent (h : readExponent s = .ok n) : ∀ c ∈ s, IsMark c := by
  unfold readExponent at h
  split at h
  · rename_i k hk
    unfold unsigned? at hk
    dsimp only at hk
    split at hk
    · obtain ⟨i, hnum, -⟩ := Option.bind_eq_some_iff.1 hk
      exact List.forall_mem_cons.2 ⟨Or.inr (by simp), fun c hc => Or.inl (isDigit_of_numeral? hnum c hc)⟩
    · obtain ⟨i, hnum, -⟩ := Option.bind_eq_some_iff.1 hk
      exact fun c hc => Or.inl (isDigit_of_numeral? hnum c hc)
  · cases h

theorem isMark_of_readScientific (h : readScientific s = .ok x) : ∀ c ∈ s, IsMark c := by
  unfold readScientific at h
  split at h
  · cases h
  · rename_i mantissa exponent hcut
    obtain ⟨e, he, rfl, -⟩ := cutWhere_eq_some.1 hcut
    obtain ⟨y, hy, h⟩ := bind_eq_ok.1 h
    have hmark : IsMark e := by
      rcases Bool.or_eq_true_iff.1 he with heq | heq
      · exact Or.inr (by simp [eq_of_beq heq])
      · exact Or.inr (by simp [eq_of_beq heq])
    have hexponent : ∀ c ∈ exponent, IsMark c := by
      split at h
      · obtain ⟨k, hk, -⟩ := bind_eq_ok.1 h
        exact List.forall_mem_cons.2 ⟨Or.inr (by simp), isMark_of_readExponent hk⟩
      · obtain ⟨k, hk, -⟩ := bind_eq_ok.1 h
        exact isMark_of_readExponent hk
    exact List.forall_mem_append.2
      ⟨fun c hc => (isPlainMark_of_readPlain hy c hc).isMark, List.forall_mem_cons.2 ⟨hmark, hexponent⟩⟩

/-- A text that is read as a decimal has no other characters. -/
theorem isMark_of_read (h : read s = .ok x) : ∀ c ∈ s, IsMark c := by
  unfold read at h
  split at h
  · rename_i y hy
    exact fun c hc => (isPlainMark_of_readPlain hy c hc).isMark
  · exact isMark_of_readScientific h

theorem IsMark.not_isBlank (h : IsMark c) : ¬ isBlank c := by
  rcases h with hdigit | hmark
  · exact not_isBlank_of_isDigit hdigit
  · simp only [List.mem_cons, List.not_mem_nil, or_false] at hmark
    rcases hmark with rfl | rfl | rfl | rfl | rfl | rfl <;> decide

end RateDesk.Decimal
