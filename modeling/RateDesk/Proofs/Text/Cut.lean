import Mathlib.Data.List.DropRight
import RateDesk.Text.Blank
import RateDesk.Text.Cut

/-!
# What cutting a text yields

* `cutAt_eq_some`, `cutAt_eq_none` : the pieces before and after the first mark;
* `afterPrefix?_eq_some` : what follows a given beginning;
* `fields_append`, `getElem?_fields_succ` : the fields of a text, one after the other;
* `trim_append`, `trim_eq_self`, `mem_trim` : trimming drops white space at the ends and nothing else;
* `trim_eq_nil` : nothing is left of white space.
-/

namespace RateDesk.Text

variable {p : Char → Bool} {s a b r : List Char} {c m : Char}

/-! ## First marks -/

theorem cutWhere_eq_some : cutWhere p s = some (a, b) ↔ ∃ c, p c ∧ s = a ++ c :: b ∧ ∀ x ∈ a, ¬ p x := by
  induction s generalizing a with
  | nil => simp [cutWhere]
  | cons d s ih =>
    rw [cutWhere]
    by_cases hd : p d
    · rw [if_pos hd]
      constructor
      · intro h
        cases h
        exact ⟨d, hd, rfl, nofun⟩
      · rintro ⟨c, -, hs, ha⟩
        cases a with
        | nil => cases hs; rfl
        | cons x a =>
          cases hs
          exact absurd hd (ha d List.mem_cons_self)
    · rw [if_neg hd, Option.map_eq_some_iff]
      constructor
      · rintro ⟨⟨a', b'⟩, h, heq⟩
        cases heq
        obtain ⟨c, hc, rfl, ha⟩ := ih.1 h
        exact ⟨c, hc, rfl, List.forall_mem_cons.2 ⟨hd, ha⟩⟩
      · rintro ⟨c, hc, hs, ha⟩
        cases a with
        | nil =>
          cases hs
          exact absurd hc hd
        | cons x a =>
          cases hs
          exact ⟨(a, b), ih.2 ⟨c, hc, rfl, (List.forall_mem_cons.1 ha).2⟩, rfl⟩

theorem cutAt_eq_some : cutAt m s = some (a, b) ↔ s = a ++ m :: b ∧ m ∉ a := by
  rw [cutAt, cutWhere_eq_some]
  constructor
  · rintro ⟨c, hc, hs, ha⟩
    obtain rfl := eq_of_beq hc
    exact ⟨hs, fun hm => ha c hm (beq_self_eq_true c)⟩
  · rintro ⟨hs, ha⟩
    exact ⟨m, beq_self_eq_true m, hs, fun x hx hxm => ha (eq_of_beq hxm ▸ hx)⟩

theorem cutAt_eq_none : cutAt m s = none ↔ m ∉ s := by
  constructor
  · intro h hm
    obtain ⟨a, b, rfl, ha⟩ := List.eq_append_cons_of_mem hm
    rw [cutAt_eq_some.2 ⟨rfl, ha⟩] at h
    cases h
  · intro hm
    cases h : cutAt m s with
    | none => rfl
    | some x =>
      obtain ⟨rfl, -⟩ := cutAt_eq_some.1 h
      simp at hm

theorem afterPrefix?_eq_some {h : List Char} : afterPrefix? h s = some r ↔ s = h ++ r := by
  induction h generalizing s with
  | nil => simp [afterPrefix?]
  | cons x h ih =>
    cases s with
    | nil => simp [afterPrefix?]
    | cons y s =>
      by_cases hxy : x = y
      · simp [afterPrefix?, hxy, ih]
      · simp [afterPrefix?, hxy, Ne.symm hxy]

theorem afterPrefix?_eq_none {h : List Char} : afterPrefix? h s = none ↔ ¬ h <+: s := by
  rw [Option.eq_none_iff_forall_ne_some, List.IsPrefix, not_exists]
  exact forall_congr' fun r => by rw [ne_eq, afterPrefix?_eq_some, eq_comm]

/-- What comes before a mark is all that a text without the mark can be a beginning of. -/
theorem prefix_append_cons (hm : m ∉ s) : s <+: a ++ m :: r ↔ s <+: a := by
  constructor
  · intro h
    by_cases hlen : s.length ≤ a.length
    · exact List.prefix_of_prefix_length_le h (List.prefix_append a _) hlen
    · have ha : a ++ [m] <+: s := by
        refine List.prefix_of_prefix_length_le ⟨r, by simp⟩ h ?_
        simp
        omega
      exact absurd (ha.subset (by simp)) hm
  · exact fun h => h.trans (List.prefix_append a _)

/-! ## Fields -/

theorem fields_of_not_mem (hm : m ∉ s) : fields m s = [s] := by
  induction s with
  | nil => rfl
  | cons c s ih =>
    obtain ⟨hc, hs⟩ := not_or.1 (mt List.mem_cons.2 hm)
    rw [fields, if_neg (Ne.symm hc), ih hs]

theorem fields_append (ha : m ∉ a) (b : List Char) : fields m (a ++ m :: b) = a :: fields m b := by
  induction a with
  | nil => rw [List.nil_append, fields, if_pos rfl]
  | cons c a ih =>
    obtain ⟨hc, ha⟩ := not_or.1 (mt List.mem_cons.2 ha)
    rw [List.cons_append, fields, if_neg (Ne.symm hc), ih ha]

theorem fields_eq (m : Char) (s : List Char) :
    fields m s = match cutAt m s with
      | some (a, b) => a :: fields m b
      | none => [s] := by
  cases h : cutAt m s with
  | none => exact fields_of_not_mem (cutAt_eq_none.1 h)
  | some x =>
    obtain ⟨rfl, ha⟩ := cutAt_eq_some.1 h
    exact fields_append ha x.2

/-- The first field ends at the first mark or at the end. -/
theorem getElem?_fields_zero : (fields m s)[0]? = some a ↔ m ∉ a ∧ (s = a ∨ ∃ b, s = a ++ m :: b) := by
  rw [fields_eq]
  cases h : cutAt m s with
  | none =>
    rw [cutAt_eq_none] at h
    constructor
    · intro ha
      cases ha
      exact ⟨h, Or.inl rfl⟩
    · rintro ⟨-, rfl | ⟨b, rfl⟩⟩
      · rfl
      · simp at h
  | some x =>
    obtain ⟨rfl, hx⟩ := cutAt_eq_some.1 h
    constructor
    · intro ha
      cases ha
      exact ⟨hx, Or.inr ⟨x.2, rfl⟩⟩
    · rintro ⟨ha, hs | ⟨b, hs⟩⟩
      · rw [← hs] at ha
        simp at ha
      · rw [cutAt_eq_some.2 ⟨hs, ha⟩] at h
        cases h
        rfl

/-- The fields after the first one are the fields after the first mark. -/
theorem getElem?_fields_succ {n : Nat} :
    (fields m s)[n + 1]? = some r ↔ ∃ a b, s = a ++ m :: b ∧ m ∉ a ∧ (fields m b)[n]? = some r := by
  rw [fields_eq]
  cases h : cutAt m s with
  | none =>
    rw [cutAt_eq_none] at h
    constructor
    · simp
    · rintro ⟨a, b, rfl, -⟩
      simp at h
  | some x =>
    constructor
    · intro hr
      obtain ⟨hs, hx⟩ := cutAt_eq_some.1 h
      exact ⟨x.1, x.2, hs, hx, by simpa using hr⟩
    · rintro ⟨a, b, hs, ha, hr⟩
      rw [cutAt_eq_some.2 ⟨hs, ha⟩] at h
      cases h
      simpa using hr

/-! ## Ends -/

theorem dropTrailing_eq (p : Char → Bool) (s : List Char) : dropTrailing p s = s.rdropWhile p := rfl

theorem trimStart_append_of_blank (ha : ∀ c ∈ a, isBlank c) (s : List Char) : trimStart (a ++ s) = trimStart s :=
  List.dropWhile_append_of_pos ha

theorem trimEnd_append_of_blank (hb : ∀ c ∈ b, isBlank c) (s : List Char) : trimEnd (s ++ b) = trimEnd s := by
  rw [trimEnd, List.reverse_append, List.dropWhile_append_of_pos fun c hc => hb c (List.mem_reverse.1 hc), trimEnd]

/-- White space around a text is trimmed with it. -/
theorem trim_append (ha : ∀ c ∈ a, isBlank c) (hb : ∀ c ∈ b, isBlank c) (s : List Char) :
    trim (a ++ s ++ b) = trim s := by
  rw [trim, List.append_assoc, trimStart_append_of_blank ha, trimStart, List.dropWhile_append]
  split
  · rename_i hs
    have hblank : b.dropWhile isBlank = [] := List.dropWhile_eq_nil_iff.2 hb
    rw [hblank, trim, trimStart, List.isEmpty_iff.1 hs]
  · rw [trimEnd_append_of_blank hb, trim, trimStart]

/-- Nothing is trimmed from a text with no white space at its ends. -/
theorem trim_eq_self (hhead : ∀ c ∈ s.head?, ¬ isBlank c) (hlast : ∀ c ∈ s.getLast?, ¬ isBlank c) : trim s = s := by
  have hstart : trimStart s = s := by
    cases s with
    | nil => rfl
    | cons c s => exact List.dropWhile_cons_of_neg (hhead c rfl)
  rw [trim, hstart]
  show s.rdropWhile isBlank = s
  rw [List.rdropWhile_eq_self_iff]
  exact fun hne => hlast _ (List.getLast_mem_getLast? hne)

/-- A character other than white space stays when a text is trimmed. -/
theorem mem_trim (hc : ¬ isBlank c) (h : c ∈ s) : c ∈ trim s := by
  have hstart : c ∈ trimStart s := by
    rw [← List.takeWhile_append_dropWhile (p := isBlank) (l := s), List.mem_append] at h
    exact h.resolve_left fun ht => hc (List.mem_takeWhile_imp ht)
  have hrev : c ∈ (trimStart s).reverse := List.mem_reverse.2 hstart
  rw [← List.takeWhile_append_dropWhile (p := isBlank) (l := (trimStart s).reverse), List.mem_append] at hrev
  exact List.mem_reverse.2 (hrev.resolve_left fun ht => hc (List.mem_takeWhile_imp ht))

theorem trim_eq_nil : trim s = [] ↔ ∀ c ∈ s, isBlank c := by
  constructor
  · intro h c hc
    by_contra hblank
    have hkept := mem_trim hblank hc
    rw [h] at hkept
    cases hkept
  · intro h
    have hall := trim_append h (b := []) nofun []
    rwa [List.append_nil, List.append_nil] at hall

end RateDesk.Text
