import Mathlib.Data.List.Induction
import Mathlib.Data.List.Nodup
import RateDesk.Proofs.Keyed
import RateDesk.Settings.Environment
import RateDesk.Settings.Path

/-!
# Parts of a configuration

* `at?` : the part at the end of a path;
* `Apart` : paths along which assigning and reading do not meet;
* `at?_assign_self`, `at?_assign_apart` : what assigning along one path does to the part at the end of another;
* `Environment.value?`, `Environment.lookup_entries` : what the variables assign to a key;
* `at?_assignAll_environment`, `at?_assignAll_of_apart` : a part after the environment was laid over it.
-/

namespace RateDesk

namespace Tree

variable {t v : Tree} {old : Option Tree} {o : Option Origin} {x : Scalar} {replace : Bool} {k : String}
  {r s : List Step} {es : List (String × Tree)}

/-! ## Entries and elements -/

theorem lookup_put (k k' : String) (v : Tree) (es : List (String × Tree)) :
    (put k v es).lookup k' = if k' = k then some v else es.lookup k' := by
  induction es with
  | nil => exact lookup_cons_ite k k' v []
  | cons e es ih =>
    obtain ⟨k₁, v₁⟩ := e
    by_cases h₁ : k₁ = k
    · subst h₁
      rw [put, if_pos rfl, lookup_cons_ite, lookup_cons_ite]
      split <;> rfl
    · rw [put, if_neg h₁, lookup_cons_ite, lookup_cons_ite, ih]
      by_cases h : k' = k
      · subst h
        rw [if_neg (Ne.symm h₁), if_pos rfl, if_pos rfl]
      · rw [if_neg h, if_neg h]

theorem keys_put (k : String) (v : Tree) (es : List (String × Tree)) :
    (put k v es).map Prod.fst = if k ∈ es.map Prod.fst then es.map Prod.fst else es.map Prod.fst ++ [k] := by
  induction es with
  | nil => rfl
  | cons e es ih =>
    obtain ⟨k₁, v₁⟩ := e
    by_cases h₁ : k₁ = k
    · subst h₁
      simp [put]
    · rw [put, if_neg h₁, List.map_cons, ih]
      by_cases h : k ∈ es.map Prod.fst
      · simp [h]
      · simp [h, Ne.symm h₁]

theorem nodup_keys_put (k : String) (v : Tree) (h : (es.map Prod.fst).Nodup) : ((put k v es).map Prod.fst).Nodup := by
  rw [keys_put]
  split
  · exact h
  · rename_i hk
    exact List.nodup_append.2 ⟨h, List.nodup_singleton k, fun a ha b hb heq =>
      hk (List.mem_singleton.1 hb ▸ heq ▸ ha)⟩

theorem entry?_withEntry (t v : Tree) (k k' : String) :
    Tree.entry? (t.withEntry k v) k' = if k' = k then some v else t.entry? k' := by
  cases t with
  | table o es => exact lookup_put k k' v es
  | leaf o x => exact lookup_put k k' v []
  | list o ts => exact lookup_put k k' v []

theorem getElem?_withElement (i j : Nat) (v : Tree) (ts : List Tree) :
    (withElement i v ts)[j]? = if j = i then some v else if j < i then some (ts[j]?.getD missing) else ts[j]? := by
  rw [withElement, List.getElem?_set]
  by_cases hij : j = i
  · subst hij
    have hlt : j < ts.length + (j + 1 - ts.length) := by omega
    simp [hlt]
  · rw [if_neg (Ne.symm hij), if_neg hij, List.getElem?_append]
    by_cases hlen : j < ts.length
    · simp [hlen]
    · by_cases hlt : j < i
      · have hfill : j - ts.length < i + 1 - ts.length := by omega
        simp [hlen, hlt, hfill]
      · have hfill : ¬ j - ts.length < i + 1 - ts.length := by omega
        simp [hlen, hlt, hfill]

theorem length_withElement (i : Nat) (v : Tree) (ts : List Tree) :
    (withElement i v ts).length = max ts.length (i + 1) := by
  simp [withElement]
  omega

/-- A place means the same after its element was put into a list. -/
theorem placeIn_grown (n : Nat) (i : Int) : placeIn (max n (placeIn n i + 1)) i = placeIn n i := by
  unfold placeIn
  split <;> omega

/-! ## Parts -/

/-- The scalar that a part without parts holds. -/
def scalar? : Tree → Option Scalar
  | leaf _ x => some x
  | _ => none

theorem scalar?_eq_some : t.scalar? = some x ↔ ∃ o, t = leaf o x := by
  cases t <;> simp [scalar?]

/-- The part of a configuration at the end of a path. -/
def at? : Tree → List Step → Option Tree
  | t, [] => some t
  | t, .entry k :: r => (t.entry? k).bind fun u => at? u r
  | t, .element i :: r => (t.elements[placeIn t.elements.length i]?).bind fun u => at? u r

@[simp] theorem at?_nil (t : Tree) : t.at? [] = some t := rfl

theorem at?_entry (t : Tree) (k : String) (r : List Step) :
    t.at? (.entry k :: r) = (t.entry? k).bind (·.at? r) := rfl

theorem at?_element (t : Tree) (i : Int) (r : List Step) :
    t.at? (.element i :: r) = (t.elements[placeIn t.elements.length i]?).bind (·.at? r) := rfl

@[simp] theorem at?_singleton (t : Tree) (k : String) : t.at? [.entry k] = t.entry? k := Option.bind_fun_some _

theorem at?_append (t : Tree) (r s : List Step) : t.at? (r ++ s) = (t.at? r).bind (·.at? s) := by
  induction r generalizing t with
  | nil => rfl
  | cons step r ih =>
    cases step with
    | entry k => simp only [List.cons_append, at?_entry, ih, Option.bind_assoc]
    | element i => simp only [List.cons_append, at?_element, ih, Option.bind_assoc]

/-- What holds nothing has no parts. -/
theorem at?_missing (h : r ≠ []) : missing.at? r = none := by
  match r, h with
  | .entry _ :: _, _ => rfl
  | .element _ :: _, _ => rfl

/-- What is assigned stands at the end of its path. -/
theorem at?_assign_self (o : Option Origin) (x : Scalar) (replace : Bool) (old : Option Tree) (r : List Step) :
    (assign (leaf o x) replace old r).at? r = some (leaf o x) := by
  induction r generalizing replace old with
  | nil => cases replace <;> rfl
  | cons step r ih =>
    cases step with
    | entry k => rw [assign, at?_entry, entry?_withEntry, if_pos rfl, Option.bind_some, ih]
    | element i =>
      rw [assign, at?_element, elements, length_withElement, placeIn_grown, getElem?_withElement, if_pos rfl,
        Option.bind_some, ih]

/-! ## Paths apart -/

/-- Assigning along the first path stays out of the part at the end of the second. Two elements have to be counted
from the start of a list, and the second path has to go on, because assigning behind the end fills a list up. -/
def Apart : List Step → List Step → Prop
  | .entry k :: r, .entry k' :: s => k ≠ k' ∨ Apart r s
  | .element i :: r, .element j :: s => i = j ∧ Apart r s ∨ 0 ≤ i ∧ 0 ≤ j ∧ i ≠ j ∧ s ≠ []
  | _, _ => False

instance Apart.decide : (r s : List Step) → Decidable (Apart r s)
  | .entry k :: r, .entry k' :: s =>
    have := Apart.decide r s
    inferInstanceAs (Decidable (k ≠ k' ∨ Apart r s))
  | .element i :: r, .element j :: s =>
    have := Apart.decide r s
    inferInstanceAs (Decidable (i = j ∧ Apart r s ∨ 0 ≤ i ∧ 0 ≤ j ∧ i ≠ j ∧ s ≠ []))
  | [], _ => .isFalse (by simp [Apart])
  | _ :: _, [] => .isFalse (by simp [Apart])
  | .entry _ :: _, .element _ :: _ => .isFalse (by simp [Apart])
  | .element _ :: _, .entry _ :: _ => .isFalse (by simp [Apart])

theorem at?_assign_apart (h : Apart r s) : (assign v replace old r).at? s = old.bind (·.at? s) := by
  induction r, s using Apart.induct generalizing replace old with
  | case1 k r k' s ih =>
    rw [assign, at?_entry, entry?_withEntry]
    have hold : old.bind (·.at? (.entry k' :: s)) = (Tree.entry? (old.getD empty) k').bind (·.at? s) := by
      cases old <;> rfl
    rw [hold]
    split
    · rename_i heq
      subst heq
      exact ih (h.resolve_left (· rfl))
    · rfl
  | case2 i r j s ih =>
    rw [assign, at?_element, elements, length_withElement, getElem?_withElement]
    have hold : old.bind (·.at? (.element j :: s)) =
        ((old.getD missing).elements[placeIn (old.getD missing).elements.length j]?).bind (·.at? s) := by
      cases old <;> rfl
    rw [hold]
    generalize (old.getD missing).elements = ts
    rcases h with ⟨rfl, h⟩ | ⟨hi, hj, hij, hs⟩
    · rw [placeIn_grown, if_pos rfl]
      exact ih h
    · have hplace (n : Nat) {i : Int} (hi : 0 ≤ i) : placeIn n i = i.toNat := if_pos hi
      rw [hplace _ hi, hplace _ hj, hplace _ hj, if_neg (by omega)]
      split
      · cases hget : ts[j.toNat]? with
        | none => exact at?_missing hs
        | some u => rfl
      · rfl
  | case3 r s h₁ h₂ => exact absurd h (by simp [Apart])

theorem at?_assignAll_of_apart (h : ∀ e ∈ es, Apart (stepsOf e.1) s) : (t.assignAll es).at? s = t.at? s := by
  induction es generalizing t with
  | nil => rfl
  | cons e es ih =>
    rw [List.forall_mem_cons] at h
    exact (ih h.2).trans (at?_assign_apart h.1)

theorem at?_assignAll_self (hn : (es.map Prod.fst).Nodup) (hmem : (k, leaf o x) ∈ es)
    (h : ∀ e ∈ es, e.1 ≠ k → Apart (stepsOf e.1) (stepsOf k)) :
    (t.assignAll es).at? (stepsOf k) = some (leaf o x) := by
  induction es generalizing t with
  | nil => cases hmem
  | cons e es ih =>
    rw [List.map_cons, List.nodup_cons] at hn
    rw [List.forall_mem_cons] at h
    rcases List.mem_cons.1 hmem with rfl | hmem
    · have hrest : ∀ e ∈ es, Apart (stepsOf e.1) (stepsOf k) := fun e he =>
        have hkey : e.1 ∈ es.map Prod.fst := List.mem_map_of_mem he
        h.2 e he fun heq => hn.1 (heq ▸ hkey)
      exact (at?_assignAll_of_apart hrest).trans (at?_assign_self o x false (some t) (stepsOf k))
    · exact ih hn.2 hmem h.2

end Tree

/-! ## What the environment assigns -/

namespace Environment

open RateDesk.Tree

variable {e : Environment} {t : Tree} {k value : String} {s : List Step}

def value? (e : Environment) (k : String) : Option String :=
  (e.bindings.reverse.find? fun b => keyOf? b.1 = some k).map Prod.snd

/-- The part of a configuration that the environment gives under a key. -/
def leaf? (e : Environment) (k : String) : Option Tree :=
  (e.value? k).map fun value => .leaf (some .environment) (scalarOf value)

theorem entries_concat (bs : List (String × String)) (b : String × String) :
    (⟨bs ++ [b]⟩ : Environment).entries =
      match keyOf? b.1 with
      | some k => put k (.leaf (some .environment) (scalarOf b.2)) (⟨bs⟩ : Environment).entries
      | none => (⟨bs⟩ : Environment).entries :=
  List.foldl_append

theorem value?_concat (bs : List (String × String)) (b : String × String) (k : String) :
    (⟨bs ++ [b]⟩ : Environment).value? k = if keyOf? b.1 = some k then some b.2 else (⟨bs⟩ : Environment).value? k := by
  rw [value?, List.reverse_append, List.reverse_singleton, List.singleton_append, List.find?_cons]
  by_cases h : keyOf? b.1 = some k <;> simp [h, value?]

theorem lookup_entries (e : Environment) (k : String) : e.entries.lookup k = e.leaf? k := by
  obtain ⟨bs⟩ := e
  induction bs using List.reverseRecOn with
  | nil => rfl
  | append_singleton bs b ih =>
    rw [entries_concat, leaf?, value?_concat]
    cases hk : keyOf? b.1 with
    | none => exact ih
    | some k₁ =>
      rw [lookup_put, ih]
      by_cases h : k = k₁
      · simp [h]
      · simp [h, Ne.symm h, leaf?]

theorem nodup_keys_entries (e : Environment) : (e.entries.map Prod.fst).Nodup := by
  obtain ⟨bs⟩ := e
  induction bs using List.reverseRecOn with
  | nil => exact List.nodup_nil
  | append_singleton bs b ih =>
    rw [entries_concat]
    cases hk : keyOf? b.1 with
    | none => exact ih
    | some k₁ => exact nodup_keys_put k₁ _ ih

def Gives (e : Environment) (k : String) : Prop := ∃ b ∈ e.bindings, keyOf? b.1 = some k

theorem gives_of_mem_entries {p : String × Tree} (h : p ∈ e.entries) : e.Gives p.1 := by
  have hlookup := lookup_eq_some_of_mem e.nodup_keys_entries h
  rw [lookup_entries, leaf?, value?, Option.map_map, Option.map_eq_some_iff] at hlookup
  obtain ⟨b, hb, -⟩ := hlookup
  exact ⟨b, List.mem_reverse.1 (List.mem_of_find?_eq_some hb), by simpa using List.find?_some hb⟩

theorem not_gives_of_value? (h : e.value? k = none) : ¬ e.Gives k := by
  rintro ⟨b, hb, hk⟩
  rw [value?, Option.map_eq_none_iff, List.find?_eq_none] at h
  exact h b (List.mem_reverse.2 hb) (by simpa using hk)

/-- What no variable reaches stays what it was. -/
theorem at?_assignAll_apart (h : ∀ k, e.Gives k → Apart (stepsOf k) s) : (t.assignAll e.entries).at? s = t.at? s :=
  at?_assignAll_of_apart fun _ hp => h _ (gives_of_mem_entries hp)

/-- What the environment gives under a key stands at the end of its path. -/
theorem at?_assignAll_leaf (hvalue : e.value? k = some value)
    (h : ∀ k', e.Gives k' → k' ≠ k → Apart (stepsOf k') (stepsOf k)) :
    (t.assignAll e.entries).at? (stepsOf k) = some (.leaf (some .environment) (scalarOf value)) := by
  have hlookup : e.entries.lookup k = some (.leaf (some .environment) (scalarOf value)) := by
    rw [lookup_entries, leaf?, hvalue]
    rfl
  obtain ⟨l, l', heq, -⟩ := List.lookup_eq_some_iff.1 hlookup
  exact at?_assignAll_self e.nodup_keys_entries (heq ▸ List.mem_append_right l List.mem_cons_self) fun p hp =>
    h _ (gives_of_mem_entries hp)

end Environment

end RateDesk
