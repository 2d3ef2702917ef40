import RateDesk.Cache.Basic
import RateDesk.Proofs.Keyed

/-!
# Reading a cache after a write

* `find?_insert` : an insertion changes what is found under its own key and under no other;
* `find?_evict` : an eviction leaves the entries that are live;
* `mem_scan_insert_raw` : a raw rate that is live is among those scanned for its instrument;
* `scan_insert_calculated`, `scan_insert_raw_of_ne` : a calculated rate, under whatever name, changes no scan, and a
  raw rate none for another instrument;
* `bids`, `asks` : the two sides of the live raw rates for an instrument.
-/

namespace RateDesk

namespace Cache

/-! ## Single entries -/

/-- An insertion is seen under its own key and under no other. -/
theorem find?_insert (c : Cache) (k k' : CacheKey) (e : CacheEntry) :
    (c.insert k e).find? k' = if k' = k then some e else c.find? k' := by
  unfold find? insert
  by_cases h : k' = k
  · subst h
    simp
  · have hne : (k' == k) = false := by simpa using h
    rw [if_neg h, List.lookup_cons, hne]
    exact lookup_filter_ne c.entries h

/-- An eviction leaves the entries that are live. -/
theorem find?_evict (c : Cache) (k : CacheKey) (t : Instant) :
    (c.evict t).find? k = (c.find? k).filter fun e => e.isLive t :=
  lookup_filter c.nodup (fun e => e.isLive t) k

/-! ## Scans -/

def bids (c : Cache) (instrument : String) (now : Instant) : List Decimal := (c.scan instrument now).map Rate.bid

def asks (c : Cache) (instrument : String) (now : Instant) : List Decimal := (c.scan instrument now).map Rate.ask

@[simp] theorem bids_eq_nil {c : Cache} {i : String} {t : Instant} : c.bids i t = [] ↔ c.scan i t = [] :=
  List.map_eq_nil_iff

@[simp] theorem asks_eq_nil {c : Cache} {i : String} {t : Instant} : c.asks i t = [] ↔ c.scan i t = [] :=
  List.map_eq_nil_iff

/-- A live raw rate is scanned for its instrument once it is stored. -/
theorem mem_scan_insert_raw (c : Cache) (p i : String) (r : Rate) {t due : Instant} (h : t < due) :
    r ∈ (c.insert (.raw p i) ⟨.raw r, due⟩).scan i t := by
  unfold scan insert
  rw [List.filterMap_cons_some (b := r) (by simp [scanned?, h])]
  exact List.mem_cons_self

theorem scanned?_calculated (o i : String) (t : Instant) (e : CacheEntry) : scanned? i t (.calculated o, e) = none := by
  obtain ⟨r, due⟩ := e
  cases r <;> rfl

theorem scanned?_raw_of_ne {i j : String} (h : j ≠ i) (p : String) (t : Instant) (e : CacheEntry) :
    scanned? i t (.raw p j, e) = none := by
  obtain ⟨r, due⟩ := e
  cases r <;> simp [scanned?, h]

theorem filterMap_scanned?_filter {k : CacheKey} {i : String} {t : Instant} (hk : ∀ e, scanned? i t (k, e) = none)
    (es : List (CacheKey × CacheEntry)) :
    (es.filter fun p => p.1 ≠ k).filterMap (scanned? i t) = es.filterMap (scanned? i t) := by
  induction es with
  | nil => rfl
  | cons p es ih =>
    obtain ⟨k', e⟩ := p
    by_cases h : k' = k
    · subst h
      rw [List.filter_cons_of_neg (by simp), List.filterMap_cons_none (hk e), ih]
    · rw [List.filter_cons_of_pos (by simpa using h), List.filterMap_cons, List.filterMap_cons, ih]

/-- An entry that a scan takes no notice of leaves the scan as it is. -/
theorem scan_insert_of_unseen {k : CacheKey} {i : String} {t : Instant} (hk : ∀ e, scanned? i t (k, e) = none)
    (c : Cache) (e : CacheEntry) : (c.insert k e).scan i t = c.scan i t := by
  unfold scan insert
  rw [List.filterMap_cons_none (hk e)]
  exact filterMap_scanned?_filter hk c.entries

/-- Calculated rates are never scanned. -/
@[simp] theorem scan_insert_calculated (c : Cache) (o i : String) (e : CacheEntry) (t : Instant) :
    (c.insert (.calculated o) e).scan i t = c.scan i t :=
  scan_insert_of_unseen (scanned?_calculated o i t) c e

/-- A raw rate is scanned for its own instrument only. -/
theorem scan_insert_raw_of_ne {i j : String} (h : j ≠ i) (c : Cache) (p : String) (e : CacheEntry) (t : Instant) :
    (c.insert (.raw p j) e).scan i t = c.scan i t :=
  scan_insert_of_unseen (scanned?_raw_of_ne h p t) c e

end Cache

end RateDesk
