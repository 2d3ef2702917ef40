/-!
# Lists of keys with what stands under them

* `lookup_filter_ne` : dropping what stands under one key changes no look-up of another;
* `lookup_filter` : dropping what fails a test drops it from the look-ups as well;
* `lookup_eq_some_of_mem` : with pairwise different keys everything is found under its key;
* `lookup_eq_none`, `mem_keys_filter` : which keys there are;
* `filter_ne_eq_erase` : dropping what stands under a key drops one entry.
-/

namespace RateDesk

variable {κ α : Type} [DecidableEq κ] {ps : List (κ × α)} {k k' : κ} {a : α}

theorem lookup_cons_ite (k k' : κ) (a : α) (ps : List (κ × α)) :
    ((k, a) :: ps).lookup k' = if k' = k then some a else ps.lookup k' := by
  rw [List.lookup_cons]
  split
  · rename_i h
    rw [if_pos (by simpa using h)]
  · rename_i h
    rw [if_neg (by simpa using h)]

theorem lookup_eq_none : ps.lookup k = none ↔ k ∉ ps.map Prod.fst := by
  rw [List.lookup_eq_none_iff]
  constructor
  · intro h hk
    obtain ⟨p, hp, rfl⟩ := List.mem_map.1 hk
    simpa using h p hp
  · intro h p hp
    have hkey : p.1 ∈ ps.map Prod.fst := List.mem_map_of_mem hp
    simpa using fun heq : k = p.1 => h (heq ▸ hkey)

/-- Dropping what stands under one key hides nothing that stands under another. -/
theorem lookup_filter_ne (ps : List (κ × α)) (h : k' ≠ k) :
    (ps.filter fun p => p.1 ≠ k).lookup k' = ps.lookup k' := by
  induction ps with
  | nil => rfl
  | cons p ps ih =>
    obtain ⟨k₁, a⟩ := p
    by_cases h₁ : k₁ = k
    · subst h₁
      have hne : (k' == k₁) = false := by simpa using h
      rw [List.filter_cons_of_neg (by simp), ih, List.lookup_cons, hne]
    · rw [List.filter_cons_of_pos (by simpa using h₁), List.lookup_cons, List.lookup_cons, ih]

/-- What stands under a key is found there, if no other entry has the key. -/
theorem lookup_eq_some_of_mem (hn : (ps.map Prod.fst).Nodup) (h : (k, a) ∈ ps) : ps.lookup k = some a := by
  induction ps with
  | nil => cases h
  | cons p ps ih =>
    obtain ⟨k₁, b⟩ := p
    rw [List.map_cons, List.nodup_cons] at hn
    rw [List.lookup_cons]
    rcases List.mem_cons.1 h with heq | hmem
    · cases heq
      simp
    · have hkey : k ∈ ps.map Prod.fst := List.mem_map_of_mem (f := Prod.fst) hmem
      have hne : (k == k₁) = false := by
        rw [beq_eq_false_iff_ne]
        exact fun heq => hn.1 (heq ▸ hkey)
      rw [hne]
      exact ih hn.2 hmem

/-- What is dropped for what it is, not for its key, is no longer found; all else is. -/
theorem lookup_filter (hn : (ps.map Prod.fst).Nodup) (f : α → Bool) (k : κ) :
    (ps.filter fun p => f p.2).lookup k = (ps.lookup k).filter f := by
  induction ps with
  | nil => rfl
  | cons p ps ih =>
    obtain ⟨k₁, b⟩ := p
    rw [List.map_cons, List.nodup_cons] at hn
    have htail := ih hn.2
    rw [List.lookup_cons]
    by_cases hk : k = k₁
    · subst hk
      rw [lookup_eq_none.2 hn.1] at htail
      cases hb : f b with
      | true => simp [hb, Option.filter]
      | false =>
        rw [List.filter_cons_of_neg (by simp [hb]), htail]
        simp [hb, Option.filter]
    · have hne : (k == k₁) = false := by simpa using hk
      rw [hne, ← htail]
      cases hb : f b with
      | true => rw [List.filter_cons_of_pos (by simp [hb]), List.lookup_cons, hne]
      | false => rw [List.filter_cons_of_neg (by simp [hb])]

/-- Dropping what stands under one key drops no other key. -/
theorem mem_keys_filter (hk : k ∈ ps.map Prod.fst) (hne : k ≠ k') :
    k ∈ (ps.filter fun p => p.1 ≠ k').map Prod.fst := by
  obtain ⟨p, hp, rfl⟩ := List.mem_map.1 hk
  exact List.mem_map_of_mem (List.mem_filter.2 ⟨hp, by simpa using hne⟩)

/-- With pairwise different keys nothing else is dropped with an entry. -/
theorem filter_ne_eq_erase [DecidableEq α] (hn : (ps.map Prod.fst).Nodup) (h : (k, a) ∈ ps) :
    (ps.filter fun p => p.1 ≠ k) = ps.erase (k, a) := by
  induction ps with
  | nil => cases h
  | cons p ps ih =>
    rw [List.map_cons, List.nodup_cons] at hn
    by_cases hp : p = (k, a)
    · subst hp
      rw [List.filter_cons_of_neg (by simp), List.erase_cons_head, List.filter_eq_self]
      intro q hq
      have hkey : q.1 ∈ ps.map Prod.fst := List.mem_map_of_mem hq
      simpa using fun heq : q.1 = k => hn.1 (heq ▸ hkey)
    · have hmem := (List.mem_cons.1 h).resolve_left (Ne.symm hp)
      have hkey : k ∈ ps.map Prod.fst := List.mem_map_of_mem (f := Prod.fst) hmem
      have hne : p.1 ≠ k := fun heq => hn.1 (heq ▸ hkey)
      rw [List.filter_cons_of_pos (by simpa using hne), List.erase_cons_tail (by simpa using hp), ih hn.2 hmem]

end RateDesk
