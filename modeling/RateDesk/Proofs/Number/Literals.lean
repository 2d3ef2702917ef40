import RateDesk.Proofs.Number.Integers

/-!
# Texts that write numbers

* `Text.signed64?_eq_some` : a text is read as an integer of 64 bits exactly if it is a numeral of one;
* `Text.writes_printInt` : an integer as it is printed is a numeral of it;
* `Binary64.IsLiteral` : the texts that write a float, without the reader;
* `Binary64.isSome_read_iff` : a text is read as a float exactly if it writes one;
* `Binary64.isMark_of_mem_print` : the characters that a finite float is printed with;
* `Binary64.isLiteral_of_writes`, `Binary64.IsLiteral.lower_ne` : numerals and words among these texts.
-/

namespace RateDesk

namespace Text

variable {s : List Char} {c : Char} {k : Nat} {n : Int}

theorem isSome_numeral?_iff : (numeral? s).isSome ↔ s ≠ [] ∧ ∀ c ∈ s, isDigit c := by
  constructor
  · intro h
    obtain ⟨k, hk⟩ := Option.isSome_iff_exists.1 h
    obtain ⟨c, t, rfl, -⟩ := cons_of_numeral? hk
    exact ⟨List.cons_ne_nil c t, isDigit_of_numeral? hk⟩
  · rintro ⟨hne, hs⟩
    obtain ⟨k, hk⟩ := exists_denotes hs
    rw [numeral?, if_neg (by simpa using hne), show (digits? s).map (ofDigits 0) = some k from hk]
    rfl

theorem writes_of_signed64? (h : signed64? s = some n) : Writes s n := by
  unfold signed64? at h
  extract_lets bounded at h
  have hbounded {k : Int} (h : bounded k = some n) : k = n := by
    unfold bounded at h
    split at h
    · exact Option.some.inj h
    · cases h
  split at h
  · obtain ⟨k, hk, h⟩ := Option.bind_eq_some_iff.1 h
    obtain ⟨i, hi, rfl⟩ := Option.map_eq_some_iff.1 hk
    obtain ⟨m, hm, hcast⟩ := Option.bind_eq_some_iff.1 hi
    cases hcast
    exact hbounded h ▸ .minus hm
  · obtain ⟨k, hk, h⟩ := Option.bind_eq_some_iff.1 h
    obtain ⟨m, hm, rfl⟩ := Option.map_eq_some_iff.1 hk
    exact hbounded h ▸ .plus hm
  · obtain ⟨k, hk, h⟩ := Option.bind_eq_some_iff.1 h
    obtain ⟨m, hm, rfl⟩ := Option.map_eq_some_iff.1 hk
    exact hbounded h ▸ .plain hm

/-- The texts that are read as an integer of 64 bits. -/
theorem signed64?_eq_some : signed64? s = some n ↔ Writes s n ∧ Signed64 n :=
  ⟨fun h => ⟨writes_of_signed64? h, signed64_of_signed64? h⟩, fun h => signed64?_of_writes h.1 h.2⟩

theorem numeral?_printNat (k : Nat) : numeral? (printNat k) = some k := by
  have hne : printNat k ≠ [] := by
    by_cases h : k < 10
    · simp [printNat_of_lt h]
    · simp [printNat_of_le (Nat.not_lt.1 h)]
  rw [numeral?, if_neg (by simpa using hne)]
  exact denotes_printNat k

/-- An integer as it is printed. -/
theorem writes_printInt (n : Int) : Writes (printInt n) n := by
  unfold printInt
  split
  · rename_i hneg
    have hn : n = -(n.natAbs : Int) := by omega
    exact cast (congrArg (Writes _) hn.symm) (Writes.minus (numeral?_printNat n.natAbs))
  · rename_i hpos
    have hn : n = (n.natAbs : Int) := by omega
    exact cast (congrArg (Writes _) hn.symm) (Writes.plain (numeral?_printNat n.natAbs))

end Text

namespace Binary64

open Text

variable {s t a b e : List Char} {c : Char} {k : Nat} {n : Int} {negative : Bool}

/-! ## The grammar of floats -/

/-- The words for what is not finite. -/
def words : List (List Char) := ["inf".toList, "infinity".toList, "nan".toList]

def signs : List (List Char) := [[], ['+'], ['-']]

/-- Digits with a point or without, and at least one of them. -/
inductive IsSignificand : List Char → Prop
  | whole {a : List Char} (ha : ∀ c ∈ a, isDigit c) (hne : a ≠ []) : IsSignificand a
  | point {a b : List Char} (ha : ∀ c ∈ a, isDigit c) (hb : ∀ c ∈ b, isDigit c) (hne : a ++ b ≠ []) :
      IsSignificand (a ++ '.' :: b)

/-- Nothing, or an `e` with the digits of an integer. -/
inductive IsExponent : List Char → Prop
  | nothing : IsExponent []
  | power {e : Char} {sign ds : List Char} (he : e ∈ ['e', 'E']) (hsign : sign ∈ signs) (hne : ds ≠ [])
      (hds : ∀ c ∈ ds, isDigit c) : IsExponent (e :: (sign ++ ds))

/-- A float without its sign. -/
inductive IsUnsigned : List Char → Prop
  | word {s : List Char} (h : lower s ∈ words) : IsUnsigned s
  | finite {a e : List Char} (ha : IsSignificand a) (he : IsExponent e) : IsUnsigned (a ++ e)

/-- A float: a word in any case, or digits with a point and an exponent or without. -/
def IsLiteral (s : List Char) : Prop := ∃ sign ∈ signs, ∃ r, s = sign ++ r ∧ IsUnsigned r

theorem mem_signs : s ∈ signs ↔ s = [] ∨ s = ['+'] ∨ s = ['-'] := by
  simp [signs]

/-! ## First characters -/

theorem IsSignificand.exists_cons (h : IsSignificand a) : ∃ c t, a = c :: t ∧ (isDigit c ∨ c = '.') := by
  cases h with
  | whole ha hne =>
    obtain ⟨c, t, rfl⟩ := List.exists_cons_of_ne_nil hne
    exact ⟨c, t, rfl, Or.inl (ha c List.mem_cons_self)⟩
  | @point a b ha hb hne =>
    cases a with
    | nil => exact ⟨'.', b, rfl, Or.inr rfl⟩
    | cons c a => exact ⟨c, _, rfl, Or.inl (ha c List.mem_cons_self)⟩

/-- A word begins with none of these characters, and nor does a float. -/
theorem IsUnsigned.lower_ne (h : IsUnsigned s) (hc : c ∈ ['+', '-', 't', 'f']) (t : List Char) : lower s ≠ c :: t := by
  obtain ⟨hdigit, hpoint, hword⟩ : ¬ isDigit c ∧ '.'.toLower ≠ c ∧ ∀ w ∈ words, w.head? ≠ some c := by
    simp only [List.mem_cons, List.not_mem_nil, or_false] at hc
    rcases hc with rfl | rfl | rfl | rfl <;> exact ⟨by decide, by decide, by simp [words]⟩
  intro heq
  cases h with
  | word h => exact hword _ h (congrArg List.head? heq)
  | finite ha he =>
    obtain ⟨d, r, rfl, hd⟩ := ha.exists_cons
    have hdc : d.toLower = c := (List.cons.inj heq).1
    rcases hd with hd | rfl
    · rw [toLower_of_isDigit hd] at hdc
      exact hdigit (hdc ▸ hd)
    · exact hpoint hdc

theorem not_isUnsigned_minus (s : List Char) : ¬ IsUnsigned ('-' :: s) := fun h => h.lower_ne (by decide) _ rfl

theorem not_isUnsigned_plus (s : List Char) : ¬ IsUnsigned ('+' :: s) := fun h => h.lower_ne (by decide) _ rfl

theorem isLiteral_minus : IsLiteral ('-' :: s) ↔ IsUnsigned s := by
  constructor
  · rintro ⟨sign, hsign, r, heq, h⟩
    rcases mem_signs.1 hsign with rfl | rfl | rfl
    · cases heq
      exact absurd h (not_isUnsigned_minus s)
    · cases heq
    · cases heq
      exact h
  · exact fun h => ⟨['-'], by decide, s, rfl, h⟩

theorem isLiteral_plus : IsLiteral ('+' :: s) ↔ IsUnsigned s := by
  constructor
  · rintro ⟨sign, hsign, r, heq, h⟩
    rcases mem_signs.1 hsign with rfl | rfl | rfl
    · cases heq
      exact absurd h (not_isUnsigned_plus s)
    · cases heq
      exact h
    · cases heq
  · exact fun h => ⟨['+'], by decide, s, rfl, h⟩

theorem isLiteral_unsigned (hminus : ∀ r, s ≠ '-' :: r) (hplus : ∀ r, s ≠ '+' :: r) : IsLiteral s ↔ IsUnsigned s := by
  constructor
  · rintro ⟨sign, hsign, r, rfl, h⟩
    rcases mem_signs.1 hsign with rfl | rfl | rfl
    · exact h
    · exact absurd rfl (hplus r)
    · exact absurd rfl (hminus r)
  · exact fun h => ⟨[], by decide, s, rfl, h⟩

/-! ## Reading -/

theorem isSome_readExponent_iff : (readExponent s).isSome ↔ IsExponent s := by
  constructor
  · intro h
    unfold readExponent at h
    split at h
    · exact .nothing
    · rename_i c r
      split at h
      · rename_i hc
        have he : c ∈ ['e', 'E'] := by simpa using hc
        split at h
        · obtain ⟨i, hi⟩ := Option.isSome_iff_exists.1 (Option.isSome_map ▸ h)
          obtain ⟨m, hm, -⟩ := Option.bind_eq_some_iff.1 hi
          obtain ⟨hne, hds⟩ := isSome_numeral?_iff.1 (Option.isSome_of_eq_some hm)
          exact @IsExponent.power c ['-'] _ he (by decide) hne hds
        · rw [Option.isSome_map, isSome_numeral?_iff] at h
          exact @IsExponent.power c ['+'] _ he (by decide) h.1 h.2
        · rw [Option.isSome_map, isSome_numeral?_iff] at h
          exact @IsExponent.power c [] _ he (by decide) h.1 h.2
      · cases h
  · intro h
    cases h with
    | nothing => rfl
    | @power c sign ds he hsign hne hds =>
      obtain ⟨k, hk⟩ := Option.isSome_iff_exists.1 (isSome_numeral?_iff.2 ⟨hne, hds⟩)
      unfold readExponent
      dsimp only
      rw [if_pos (by simpa using he)]
      rcases mem_signs.1 hsign with rfl | rfl | rfl
      · rw [List.nil_append]
        split
        · exact absurd (hds '-' List.mem_cons_self) (by decide)
        · exact absurd (hds '+' List.mem_cons_self) (by decide)
        · rw [hk]
          rfl
      · simp only [List.singleton_append, hk]
        rfl
      · simp only [List.singleton_append, hk]
        rfl

theorem readSignificand_sound (h : readSignificand s = some (a, b, e)) :
    (∀ c ∈ a ++ b, isDigit c) ∧ ∃ t, IsSignificand t ∧ s = t ++ e := by
  have hdigits (r : List Char) : ∀ c ∈ r.takeWhile isDigit, isDigit c := fun c hc => List.mem_takeWhile_imp hc
  unfold readSignificand at h
  extract_lets whole rest at h
  have hs : s = whole ++ rest := List.takeWhile_append_dropWhile.symm
  have hwhole : ∀ c ∈ whole, isDigit c := hdigits s
  clear_value whole rest
  split at h
  rename_i fraction r heq
  split at heq
  · rename_i r'
    cases heq
    split at h
    · cases h
    · rename_i hne
      cases h
      have hfraction := hdigits r'
      refine ⟨List.forall_mem_append.2 ⟨hwhole, hfraction⟩, a ++ '.' :: r'.takeWhile isDigit,
        .point hwhole hfraction (by simpa using hne), ?_⟩
      rw [hs, List.append_assoc, List.cons_append, List.takeWhile_append_dropWhile]
  · cases heq
    split at h
    · cases h
    · rename_i hne
      cases h
      exact ⟨by simpa using hwhole, a, .whole hwhole (by simpa using hne), hs⟩

/-- The digits of a float are read up to where nothing prolongs them. -/
theorem readSignificand_append (ht : IsSignificand t) (he : ∀ c ∈ e.head?, ¬ isDigit c ∧ c ≠ '.') :
    ∃ a b, readSignificand (t ++ e) = some (a, b, e) ∧ ∀ c ∈ a ++ b, isDigit c := by
  have hrest : e.takeWhile isDigit = [] ∧ e.dropWhile isDigit = e := by
    cases e with
    | nil => exact ⟨rfl, rfl⟩
    | cons c e => simp [(he c rfl).1]
  cases ht with
  | whole ha hne =>
    refine ⟨t, [], ?_, by simpa using ha⟩
    rw [readSignificand, List.takeWhile_append_of_pos ha, List.dropWhile_append_of_pos ha, hrest.1, hrest.2,
      List.append_nil]
    have hpoint : ∀ r, e ≠ '.' :: r := by
      rintro r rfl
      exact (he '.' rfl).2 rfl
    split
    rename_i heq
    split at heq
    · exact absurd rfl (hpoint _)
    · cases heq
      exact if_neg (by simpa using hne)
  | @point a b ha hb hne =>
    refine ⟨a, b, ?_, List.forall_mem_append.2 ⟨ha, hb⟩⟩
    have hstop : ¬ isDigit '.' := by decide
    rw [readSignificand, List.append_assoc, List.takeWhile_append_of_pos ha, List.dropWhile_append_of_pos ha,
      List.cons_append, List.takeWhile_cons_of_neg hstop, List.dropWhile_cons_of_neg hstop, List.append_nil]
    simp only [List.takeWhile_append_of_pos hb, List.dropWhile_append_of_pos hb, hrest.1, hrest.2, List.append_nil]
    exact if_neg (by simpa using hne)

theorem IsExponent.stops (h : IsExponent e) : ∀ c ∈ e.head?, ¬ isDigit c ∧ c ≠ '.' := by
  cases h with
  | nothing => nofun
  | power he =>
    rintro c ⟨⟩
    simp only [List.mem_cons, List.not_mem_nil, or_false] at he
    rcases he with rfl | rfl <;> decide

theorem isSome_readUnsigned_iff : (readUnsigned negative s).isSome ↔ IsUnsigned s := by
  constructor
  · intro h
    unfold readUnsigned at h
    extract_lets word at h
    split at h
    · rename_i hword
      exact .word (by rcases hword with hw | hw <;> simp [words, show lower s = _ from hw])
    · split at h
      · rename_i hword
        exact .word (by simp [words, show lower s = _ from hword])
      · obtain ⟨x, hx⟩ := Option.isSome_iff_exists.1 h
        obtain ⟨⟨a, b, e⟩, hsignificand, hx⟩ := Option.bind_eq_some_iff.1 hx
        obtain ⟨i, hi, -⟩ := Option.bind_eq_some_iff.1 hx
        obtain ⟨-, t, ht, rfl⟩ := readSignificand_sound hsignificand
        exact .finite ht (isSome_readExponent_iff.1 (Option.isSome_of_eq_some hi))
  · intro h
    unfold readUnsigned
    extract_lets word
    split
    · rfl
    · rename_i hinf
      split
      · rfl
      · rename_i hnan
        cases h with
        | word h =>
          simp only [words, List.mem_cons, List.not_mem_nil, or_false] at h
          tauto
        | @finite t e ht he =>
          obtain ⟨a, b, hsignificand, hdigits⟩ := readSignificand_append ht he.stops
          obtain ⟨i, hi⟩ := Option.isSome_iff_exists.1 (isSome_readExponent_iff.2 he)
          obtain ⟨k, hk⟩ := exists_denotes hdigits
          obtain ⟨ds, hds, -⟩ := denotes_iff.1 hk
          simp only [hsignificand, hi, hds, bind, Option.bind, pure]
          split
          · rfl
          · split
            · rfl
            · split
              · rfl
              · split <;> rfl

/-- The texts that are read as a float. -/
theorem isSome_read_iff : (read s).isSome ↔ IsLiteral s := by
  unfold read
  split
  · rw [isSome_readUnsigned_iff, isLiteral_minus]
  · rw [isSome_readUnsigned_iff, isLiteral_plus]
  · rename_i hminus hplus
    rw [isSome_readUnsigned_iff, isLiteral_unsigned (fun r h => hminus r h) fun r h => hplus r h]

theorem read_eq_none : read s = none ↔ ¬ IsLiteral s := by
  rw [← isSome_read_iff, Option.not_isSome_iff_eq_none]

/-! ## Printing -/

/-- What a number in digits is printed with: neither a plus sign nor an exponent. -/
def IsMark (c : Char) : Prop := isDigit c ∨ c = '-' ∨ c = '.'

theorem isMark_of_mem_printNat {c : Char} (h : c ∈ printNat k) : IsMark c :=
  Or.inl ((denotes_printNat k).isDigit c h)

theorem isMark_of_mem_printInt {c : Char} (h : c ∈ printInt n) : IsMark c := by
  unfold printInt at h
  split at h
  · rcases List.mem_cons.1 h with rfl | h
    · exact Or.inr (Or.inl rfl)
    · exact isMark_of_mem_printNat h
  · exact isMark_of_mem_printNat h

theorem isMark_of_mem_printPlain {c : Char} {d : Nat} {q : Int} (h : c ∈ printPlain d q) : IsMark c := by
  unfold printPlain at h
  split at h
  · rcases List.mem_append.1 h with h | h
    · exact isMark_of_mem_printNat h
    · obtain ⟨-, rfl⟩ := List.mem_replicate.1 h
      exact Or.inl rfl
  · have hpadded {w : Nat} (h : c ∈ padded w d) : IsMark c := Or.inl ((denotes_padded w d).isDigit c h)
    rcases List.mem_append.1 h with h | h
    · exact hpadded (List.mem_of_mem_take h)
    · rcases List.mem_cons.1 h with rfl | h
      · exact Or.inr (Or.inr rfl)
      · exact hpadded (List.mem_of_mem_drop h)

theorem isMark_of_mem_print {c : Char} {m : Nat} {q : Int} (h : c ∈ (finite negative m q).print) : IsMark c := by
  have hdigits (h : c ∈ if m = 0 then ['0'] else printPlain (shortest m q).1 (shortest m q).2) : IsMark c := by
    split at h
    · rw [List.mem_singleton.1 h]
      exact Or.inl rfl
    · exact isMark_of_mem_printPlain h
  rw [print] at h
  split at h
  · rcases List.mem_cons.1 h with rfl | h
    · exact Or.inr (Or.inl rfl)
    · exact hdigits h
  · exact hdigits h

/-! ## Numerals and words -/

/-- A numeral is a float as well. -/
theorem isLiteral_of_writes (h : Writes s n) : IsLiteral s := by
  have hunsigned {r : List Char} {k : Nat} (h : numeral? r = some k) : IsUnsigned r := by
    obtain ⟨hne, hdigits⟩ := isSome_numeral?_iff.1 (Option.isSome_of_eq_some h)
    exact r.append_nil ▸ .finite (.whole hdigits hne) .nothing
  cases h with
  | @plain s k h => exact ⟨[], by decide, s, rfl, hunsigned h⟩
  | @plus s k h => exact ⟨['+'], by decide, s, rfl, hunsigned h⟩
  | @minus s k h => exact ⟨['-'], by decide, s, rfl, hunsigned h⟩

/-- No float is a word for yes or no. -/
theorem IsLiteral.lower_ne (h : IsLiteral s) (hc : c ∈ ['t', 'f']) (t : List Char) : lower s ≠ c :: t := by
  obtain ⟨sign, hsign, r, rfl, hr⟩ := h
  have hmem : c ∈ ['+', '-', 't', 'f'] := List.mem_cons_of_mem _ (List.mem_cons_of_mem _ hc)
  simp only [List.mem_cons, List.not_mem_nil, or_false] at hc
  rcases mem_signs.1 hsign with rfl | rfl | rfl
  · exact hr.lower_ne hmem t
  · rintro ⟨⟩
    simp at hc
  · rintro ⟨⟩
    simp at hc

end Binary64

end RateDesk
