import RateDesk.Proofs.Desk.Step

/-!
# What a quote leaves alone

Whatever becomes of a quote of a platform for an instrument, a fault included: no other raw rate is
published or stored, nothing is counted about the connections of platforms, and the life span of rates stays.

* `Spares` : what a desk has in common with the one before it;
* `Step.Keeps` : steps that leave every desk so, closed under `bind`;
* `keeps_first`, `keeps_update` : taking a quote is such a step.
-/

namespace RateDesk.Desk

variable {α β : Type} {p i : String} {r : Rate} {d d' d'' : Desk}

/-- The desk `d'` is `d`, up to what a quote of a platform for an instrument can change. -/
structure Spares (p i : String) (r : Rate) (d d' : Desk) : Prop where
  published : ∃ ms, d'.published = d.published ++ ms ∧ ∀ q x, .raw q x ∈ ms → q = p ∧ x = r
  ttl : d'.cache.ttl = d.cache.ttl
  find? : ∀ q j, ¬(q = p ∧ j = i) → d'.cache.find? (.raw q j) = d.cache.find? (.raw q j)
  value : ∀ s : Series, s.family = .state ∨ s.family = .attempts → d'.metrics.value s = d.metrics.value s

theorem Spares.refl (p i : String) (r : Rate) (d : Desk) : d.Spares p i r d :=
  ⟨⟨[], by simp⟩, rfl, fun _ _ _ => rfl, fun _ _ => rfl⟩

theorem Spares.trans (h : d.Spares p i r d') (h' : d'.Spares p i r d'') : d.Spares p i r d'' where
  published := by
    obtain ⟨ms, hms, hraw⟩ := h.published
    obtain ⟨ms', hms', hraw'⟩ := h'.published
    refine ⟨ms ++ ms', by rw [hms', hms, List.append_assoc], ?_⟩
    intro q x hx
    exact (List.mem_append.1 hx).elim (hraw q x) (hraw' q x)
  ttl := h'.ttl.trans h.ttl
  find? q j hne := (h'.find? q j hne).trans (h.find? q j hne)
  value s hs := (h'.value s hs).trans (h.value s hs)

namespace Step

/-- However it ends, the step leaves alone what does not concern a quote. -/
def Keeps (p i : String) (r : Rate) (x : Step α) : Prop := ∀ d : Desk, d.Spares p i r (x.run d).2

theorem keeps_pure (a : α) : Keeps p i r (pure a : Step α) := Spares.refl p i r

theorem keeps_lift (x : Except Fault α) : Keeps p i r (liftM x : Step α) := Spares.refl p i r

theorem Keeps.bind {x : Step α} {f : α → Step β} (hx : Keeps p i r x) (hf : ∀ a, Keeps p i r (f a)) :
    Keeps p i r (x >>= f) := by
  intro d
  have hfirst := hx d
  rcases h : x.run d with ⟨a | a, d₁⟩
  · rw [run_bind_error h]
    rwa [h] at hfirst
  · rw [run_bind_ok h]
    rw [h] at hfirst
    exact hfirst.trans (hf a d₁)

end Step

open Step

/-! ## Single parts -/

variable {der : Derivation} {now : Now} {anchor : String}

theorem keeps_peers (j : String) : Keeps p i r (peers j now) := Spares.refl p i r

theorem keeps_count {s : Series} (hstate : s.family ≠ .state) (hattempts : s.family ≠ .attempts) :
    Keeps p i r (count s) := by
  intro d
  refine ⟨⟨[], by simp [run_count]⟩, rfl, fun _ _ _ => rfl, ?_⟩
  intro s' hs'
  have hne : s' ≠ s := by
    rintro rfl
    exact hs'.elim hstate hattempts
  rw [run_count, Metrics.value_count, if_neg hne, Int.add_zero]

theorem keeps_publish {m : Message} (h : ∀ q x, m = .raw q x → q = p ∧ x = r) : Keeps p i r (publish m) := by
  intro d
  refine ⟨⟨[m], rfl, ?_⟩, rfl, fun _ _ _ => rfl, fun _ _ => rfl⟩
  intro q x hx
  exact h q x (List.mem_singleton.1 hx).symm

/-- Storing under a key that no other raw rate has. -/
theorem keeps_store {k : CacheKey} {x : CachedRate} {ttl : Cache → Nat}
    (h : ∀ q j, k = .raw q j → q = p ∧ j = i) : Keeps p i r (store fun c => c.put k x (ttl c) now.instant) := by
  intro d
  cases hdue : now.instant.after (ttl d.cache) with
  | error e =>
    rw [run_store_error (e := e) (by simp only [Cache.put, hdue]; rfl)]
    exact Spares.refl p i r d
  | ok due =>
    rw [run_store (c := d.cache.insert k ⟨x, due⟩) (by simp only [Cache.put, hdue]; rfl)]
    refine ⟨⟨[], by simp⟩, rfl, ?_, fun _ _ => rfl⟩
    intro q j hother
    exact (Cache.find?_insert _ _ _ _).trans (if_neg fun hk => hother (h q j hk.symm))

/-! ## Quotes -/

theorem keeps_first : Keeps p i r (first now p i r) := by
  unfold first storeRaw
  refine (keeps_publish ?_).bind fun _ => keeps_store ?_
  · simp +contextual
  · simp +contextual

theorem keeps_storeCalculated (x : CalculatedRate) : Keeps p i r (storeCalculated now x) := by
  unfold storeCalculated
  apply (keeps_count (by simp [Series.family]) (by simp [Series.family])).bind
  intro _
  apply (keeps_publish (by simp)).bind
  intro _
  exact keeps_store (by simp)

theorem keeps_refreshAnchor : Keeps p i r (refreshAnchor anchor now) := by
  apply (keeps_peers anchor).bind
  intro sides
  apply (keeps_lift _).bind
  intro q
  cases q with
  | none => exact keeps_pure _
  | some q => exact keeps_storeCalculated _

theorem keeps_anchorMid : Keeps p i r (Desk.anchorMid anchor now) := by
  apply (keeps_peers anchor).bind
  intro sides
  apply (keeps_lift _).bind
  intro q
  cases q with
  | none => exact keeps_pure _
  | some q => exact (keeps_lift _).bind fun _ => keeps_pure _

theorem keeps_refreshDependent (x : Dependent) : Keeps p i r (refreshDependent anchor now x) := by
  apply keeps_anchorMid.bind
  intro mid
  cases mid with
  | none => exact keeps_pure _
  | some mid =>
    apply (keeps_peers x.source).bind
    intro sides
    apply (keeps_lift _).bind
    intro q
    cases q with
    | none => exact keeps_pure _
    | some q => exact keeps_storeCalculated _

theorem keeps_refreshDependents (xs : List Dependent) : Keeps p i r (refreshDependents anchor now xs) := by
  induction xs with
  | nil => exact keeps_pure _
  | cons x xs ih => exact (keeps_refreshDependent x).bind fun _ => ih

theorem keeps_derive (j : String) : Keeps p i r (derive der now j) := by
  unfold derive
  split
  · exact keeps_refreshAnchor.bind fun _ => keeps_refreshDependents _
  · split
    · exact keeps_pure _
    · exact keeps_refreshDependent _

theorem keeps_update : Keeps p i r (update der now p i r) := by
  apply (keeps_peers i).bind
  intro sides
  dsimp only
  split
  · exact keeps_first.bind fun _ => keeps_pure _
  · apply (keeps_lift _).bind
    intro v
    split
    · exact keeps_first.bind fun _ => (keeps_derive i).bind fun _ => keeps_pure _
    · exact (keeps_count (by simp [Series.family]) (by simp [Series.family])).bind fun _ => keeps_pure _

end RateDesk.Desk
