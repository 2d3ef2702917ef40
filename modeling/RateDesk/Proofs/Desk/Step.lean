import RateDesk.Desk
import RateDesk.Proofs.Cache.Entries
import RateDesk.Proofs.Time.Deadline

/-!
# What the steps of a desk do

A step is run on a desk and leaves a result, or a fault, and a desk.

* `run_bind_ok`, `run_bind_error`, `run_bind_eq_ok` : the parts of a step one after the other;
* `run_peers`, `run_publish`, `run_count`, `run_store` : the single parts;
* `stored`, `recorded` : the desk after a raw and after a calculated rate, `run_storeRaw` and
  `run_storeCalculated` reach them whenever the clock can have the deadline;
* `Changed` : all that tells one desk from another, `Changed.trans` puts changes together.
-/

namespace RateDesk

/-! ## Series -/

/-- Setting a series changes its value and no other. -/
theorem Metrics.value_set (m : Metrics) (s s' : Series) (v : Int) :
    (m.set s v).value s' = if s' = s then v else m.value s' := by
  unfold set
  by_cases h : s' = s
  · subst h
    simp [value]
  · have hne : (s' == s) = false := by simpa using h
    rw [if_neg h, value, List.lookup_cons, hne]
    exact congrArg (·.getD 0) (lookup_filter_ne m.samples h)

/-- Counting adds one to its own series and to no other. -/
theorem Metrics.value_count (m : Metrics) (s s' : Series) :
    (m.count s).value s' = m.value s' + if s' = s then 1 else 0 := by
  rw [count, value_set]
  by_cases h : s' = s
  · simp [h]
  · simp [h]

namespace Desk

variable {α β : Type} {d d' : Desk}

/-! ## Parts of a step -/

theorem run_bind_ok {x : Step α} {a : α} (h : x.run d = (.ok a, d')) (f : α → Step β) :
    (x >>= f).run d = (f a).run d' := by
  have h' : x d = (.ok a, d') := h
  show ExceptT.bindCont f (x d).1 (x d).2 = _
  rw [h']
  rfl

theorem run_bind_error {x : Step α} {e : Fault} (h : x.run d = (.error e, d')) (f : α → Step β) :
    (x >>= f).run d = (.error e, d') := by
  have h' : x d = (.error e, d') := h
  show ExceptT.bindCont f (x d).1 (x d).2 = _
  rw [h']
  rfl

/-- A step in two parts ends without a fault when both parts do. -/
theorem run_bind_eq_ok {x : Step α} {f : α → Step β} {b : β} (h : (x >>= f).run d = (.ok b, d')) :
    ∃ a d₁, x.run d = (.ok a, d₁) ∧ (f a).run d₁ = (.ok b, d') := by
  rcases hx : x.run d with ⟨a | a, d₁⟩
  · rw [run_bind_error hx] at h
    cases h
  · exact ⟨a, d₁, rfl, (run_bind_ok hx f).symm.trans h⟩

theorem run_get (d : Desk) : (get : Step Desk).run d = (.ok d, d) := rfl

theorem run_lift (x : Except Fault α) (d : Desk) : (liftM x : Step α).run d = (x, d) := rfl

theorem run_lift_ok {x : Except Fault α} {a : α} (h : x = .ok a) (d : Desk) :
    (liftM x : Step α).run d = (.ok a, d) := by
  rw [h, run_lift]

theorem run_lift_error {x : Except Fault α} {e : Fault} (h : x = .error e) (d : Desk) :
    (liftM x : Step α).run d = (.error e, d) := by
  rw [h, run_lift]

theorem run_publish (m : Message) (d : Desk) :
    (publish m).run d = (.ok (), { d with published := d.published ++ [m] }) := rfl

theorem run_count (s : Series) (d : Desk) : (count s).run d = (.ok (), { d with metrics := d.metrics.count s }) := rfl

theorem run_peers (i : String) (now : Now) (d : Desk) :
    (peers i now).run d = (.ok (d.cache.bids i now.instant, d.cache.asks i now.instant), d) := rfl

theorem run_store {f : Cache → Except Fault Cache} {c : Cache} (h : f d.cache = .ok c) :
    (store f).run d = (.ok (), { d with cache := c }) := by
  unfold store
  rw [run_bind_ok (run_get d), run_bind_ok (run_lift_ok h d)]
  rfl

theorem run_store_error {f : Cache → Except Fault Cache} {e : Fault} (h : f d.cache = .error e) :
    (store f).run d = (.error e, d) := by
  unfold store
  rw [run_bind_ok (run_get d), run_bind_error (run_lift_error h d)]

/-! ## Rates -/

/-- The desk once a raw rate is published and stored up to a deadline. -/
def stored (d : Desk) (due : Instant) (platform instrument : String) (r : Rate) : Desk where
  cache := d.cache.insert (.raw platform instrument) ⟨.raw r, due⟩
  published := d.published ++ [.raw platform r]
  metrics := d.metrics

/-- The desk once a calculated rate is counted, published and stored up to a deadline. -/
def recorded (due : Instant) (d : Desk) (r : CalculatedRate) : Desk where
  cache := d.cache.insert (.calculated r.instrument) ⟨.calculated r, due⟩
  published := d.published ++ [.calculated r]
  metrics := d.metrics.count (.calculated r.instrument)

theorem run_storeRaw {now : Now} {due : Instant} (p i : String) (r : Rate)
    (h : now.instant.after (d.cache.ttl * 1000) = .ok due) :
    (storeRaw now p i r).run d = (.ok (), d.stored due p i r) := by
  unfold storeRaw
  rw [run_bind_ok (run_publish _ d)]
  apply run_store
  simp only [Cache.putRaw, Cache.put, h]
  rfl

/-- A raw rate is published even if the clock cannot have its deadline. -/
theorem run_storeRaw_error {now : Now} {e : Fault} (p i : String) (r : Rate)
    (h : now.instant.after (d.cache.ttl * 1000) = .error e) :
    (storeRaw now p i r).run d = (.error e, { d with published := d.published ++ [.raw p r] }) := by
  unfold storeRaw
  rw [run_bind_ok (run_publish _ d)]
  apply run_store_error
  simp only [Cache.putRaw, Cache.put, h]
  rfl

theorem run_storeCalculated {now : Now} {due : Instant} (r : CalculatedRate)
    (h : now.instant.after (d.cache.ttl * 1000) = .ok due) :
    (storeCalculated now r).run d = (.ok (), d.recorded due r) := by
  unfold storeCalculated
  rw [run_bind_ok (run_count _ d), run_bind_ok (run_publish _ _)]
  apply run_store
  simp only [Cache.putCalculated, Cache.put, h]
  rfl

/-- A calculated rate is counted and published even if the clock cannot have its deadline. -/
theorem run_storeCalculated_error {now : Now} {e : Fault} (r : CalculatedRate)
    (h : now.instant.after (d.cache.ttl * 1000) = .error e) :
    (storeCalculated now r).run d =
      (.error e, ⟨d.cache, d.published ++ [.calculated r], d.metrics.count (.calculated r.instrument)⟩) := by
  unfold storeCalculated
  rw [run_bind_ok (run_count _ d), run_bind_ok (run_publish _ _)]
  apply run_store_error
  simp only [Cache.putCalculated, Cache.put, h]
  rfl

/-- A raw rate that is stored has a deadline that the clock can have. -/
theorem run_storeRaw_eq_ok {now : Now} {p i : String} {r : Rate} {u : Unit}
    (h : (storeRaw now p i r).run d = (.ok u, d')) : ∃ due, d' = d.stored due p i r := by
  cases hdue : now.instant.after (d.cache.ttl * 1000) with
  | error e =>
    rw [run_storeRaw_error p i r hdue] at h
    cases h
  | ok due =>
    rw [run_storeRaw p i r hdue] at h
    cases h
    exact ⟨due, rfl⟩

theorem run_storeCalculated_eq_ok {now : Now} {x : CalculatedRate} {u : Unit}
    (h : (storeCalculated now x).run d = (.ok u, d')) : ∃ due, d' = d.recorded due x := by
  cases hdue : now.instant.after (d.cache.ttl * 1000) with
  | error e =>
    rw [run_storeCalculated_error x hdue] at h
    cases h
  | ok due =>
    rw [run_storeCalculated x hdue] at h
    cases h
    exact ⟨due, rfl⟩

/-! ## Changes -/

/-- The desk `d'` is `d` with some messages published, some rates stored up to a deadline and some
series counted, each in order, and nothing else. -/
structure Changed (d d' : Desk) (due : Instant) (messages : List Message) (rates : List (CacheKey × CachedRate))
    (series : List Series) : Prop where
  published : d'.published = d.published ++ messages
  cache : d'.cache = rates.foldl (fun c p => c.insert p.1 ⟨p.2, due⟩) d.cache
  counted : ∀ s, d'.metrics.value s = d.metrics.value s + series.count s

theorem Changed.refl (d : Desk) (due : Instant) : d.Changed d due [] [] [] :=
  ⟨(List.append_nil _).symm, rfl, fun _ => (Int.add_zero _).symm⟩

theorem Changed.trans {d d₁ d₂ : Desk} {due : Instant} {m₁ m₂ : List Message}
    {rs₁ rs₂ : List (CacheKey × CachedRate)} {ss₁ ss₂ : List Series} (h₁ : d.Changed d₁ due m₁ rs₁ ss₁)
    (h₂ : d₁.Changed d₂ due m₂ rs₂ ss₂) : d.Changed d₂ due (m₁ ++ m₂) (rs₁ ++ rs₂) (ss₁ ++ ss₂) where
  published := by rw [h₂.published, h₁.published, List.append_assoc]
  cache := by rw [h₂.cache, h₁.cache, List.foldl_append]
  counted s := by
    rw [h₂.counted s, h₁.counted s, List.count_append]
    omega

theorem changed_stored (d : Desk) (due : Instant) (p i : String) (r : Rate) :
    d.Changed (d.stored due p i r) due [.raw p r] [(.raw p i, .raw r)] [] :=
  ⟨rfl, rfl, fun _ => (Int.add_zero _).symm⟩

theorem changed_count (d : Desk) (due : Instant) (s : Series) :
    d.Changed { d with metrics := d.metrics.count s } due [] [] [s] where
  published := (List.append_nil _).symm
  cache := rfl
  counted s' := by
    rw [Metrics.value_count, List.count_singleton]
    by_cases h : s' = s
    · simp [h]
    · simp [h, Ne.symm h]

theorem changed_recorded (d : Desk) (due : Instant) (r : CalculatedRate) :
    d.Changed (d.recorded due r) due [.calculated r] [(.calculated r.instrument, .calculated r)]
      [.calculated r.instrument] :=
  ⟨rfl, rfl, (changed_count d due (.calculated r.instrument)).counted⟩

end Desk

end RateDesk
