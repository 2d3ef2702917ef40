import RateDesk.Proofs.Desk.Update
import Mathlib.Data.List.Nodup

/-!
# Dependents after an update

* `refreshed` : what stands for an output once its rate was computed again;
* `find?_recordedAll_rebased` : re-basing some dependents in a row refreshes each of them and nothing else;
* `rebased_of_source_eq` : the rates of two dependents with one source differ in their names only;
* `update_refreshes_dependents` : a quote for the anchor refreshes every dependent, one for a source only the
  first dependent with that source;
* `update_leaves_dependent_stale` : so the second one keeps a value of old quotes.
-/

namespace RateDesk

open Cache

namespace Desk

variable {d d' : Desk} {c : Cache} {der : Derivation} {now : Now} {due : Instant} {anchor : String} {x y : Dependent}
  {o : Option CalculatedRate}

/-! ## Single rates -/

theorem recordedAll_append (due : Instant) (d : Desk) (rs rs' : List CalculatedRate) :
    d.recordedAll due (rs ++ rs') = (d.recordedAll due rs).recordedAll due rs' := List.foldl_append

/-- What is recorded is found under its own names only. -/
theorem find?_recordedAll_of_not_mem {rs : List CalculatedRate} {k : CacheKey}
    (h : ∀ r ∈ rs, k ≠ .calculated r.instrument) : (d.recordedAll due rs).cache.find? k = d.cache.find? k := by
  induction rs generalizing d with
  | nil => rfl
  | cons r rs ih =>
    have hr := h r List.mem_cons_self
    rw [recordedAll, List.foldl_cons, ← recordedAll, ih fun r' hr' => h r' (List.mem_cons_of_mem _ hr'), recorded,
      find?_insert, if_neg hr]

/-- The consensus is recorded under the name of the anchor. -/
theorem consensus_name {r : CalculatedRate} (h : c.consensus anchor now = .ok (some r)) : r.instrument = anchor := by
  obtain ⟨q, -, ho⟩ := bind_eq_ok.1 h
  cases q with
  | none => cases ho
  | some q =>
    cases ho
    rfl

/-- A dependent is recorded under its output. -/
theorem rebased_output {r : CalculatedRate} (h : c.rebased anchor now x = .ok (some r)) : r.instrument = x.output := by
  have hname := rebased_instrument h
  split at hname
  · cases hname
  · exact Option.some.inj hname

theorem ne_of_rebased {k : CacheKey} (h : c.rebased anchor now x = .ok o) (hk : k ≠ .calculated x.output) :
    ∀ r ∈ o.toList, k ≠ .calculated r.instrument := by
  intro r hr
  obtain rfl := Option.mem_toList.1 hr
  rw [rebased_output h]
  exact hk

/-- The rates of two dependents with one source differ in their names only. -/
theorem rebased_of_source_eq (hsource : y.source = x.source) (h : c.rebased anchor now x = .ok o) :
    c.rebased anchor now y = .ok (o.map fun r => { r with instrument := y.output }) := by
  obtain ⟨mid, hmid, ho⟩ := bind_eq_ok.1 h
  refine bind_eq_ok.2 ⟨mid, hmid, ?_⟩
  cases mid with
  | none =>
    cases ho
    rfl
  | some mid =>
    obtain ⟨q, hq, ho⟩ := bind_eq_ok.1 ho
    cases ho
    dsimp only
    rw [hsource, hq]
    cases q <;> rfl

/-! ## All dependents -/

/-- What stands for an output once its rate was computed again; if there is none now, what stood before. -/
def refreshed (c : Cache) (due : Instant) (output : String) (o : Option CalculatedRate) : Option CacheEntry :=
  (o.map fun r => ⟨.calculated r, due⟩).or (c.find? (.calculated output))

theorem find?_recordedAll_toList (h : c.rebased anchor now x = .ok o) :
    (d.recordedAll due o.toList).cache.find? (.calculated x.output) = refreshed d.cache due x.output o := by
  cases o with
  | none => rfl
  | some r =>
    show (d.recorded due r).cache.find? (.calculated x.output) = some ⟨.calculated r, due⟩
    rw [recorded, find?_insert, if_pos (by rw [rebased_output h])]

theorem rebased_outputs {xs : List Dependent} {os : List (Option CalculatedRate)}
    (h : List.Forall₂ (fun x o => c.rebased anchor now x = .ok o) xs os) :
    ∀ r ∈ os.filterMap id, r.instrument ∈ xs.map Dependent.output := by
  induction h with
  | nil => nofun
  | cons ho _ ih =>
    intro r hr
    obtain ⟨o, hmem, rfl⟩ := List.mem_filterMap.1 hr
    rcases List.mem_cons.1 hmem with rfl | hmem
    · exact List.mem_cons.2 (Or.inl (rebased_output ho))
    · exact List.mem_cons.2 (Or.inr (ih r (List.mem_filterMap.2 ⟨_, hmem, rfl⟩)))

/-- Re-basing some dependents in a row, under different names, refreshes each of them. -/
theorem find?_recordedAll_rebased (d : Desk) (due : Instant) {xs : List Dependent} {os : List (Option CalculatedRate)}
    (hn : (xs.map Dependent.output).Nodup) (h : List.Forall₂ (fun x o => c.rebased anchor now x = .ok o) xs os)
    (hx : x ∈ xs) :
    ∃ o, c.rebased anchor now x = .ok o ∧
      (d.recordedAll due (os.filterMap id)).cache.find? (.calculated x.output) = refreshed d.cache due x.output o := by
  induction h generalizing d with
  | nil => cases hx
  | @cons y o ys os ho hos ih =>
    rw [List.map_cons, List.nodup_cons] at hn
    have hsplit : (o :: os).filterMap id = o.toList ++ os.filterMap id := by cases o <;> rfl
    rw [hsplit, recordedAll_append]
    rcases List.mem_cons.1 hx with rfl | hx
    · have hothers : ∀ r ∈ os.filterMap id, CacheKey.calculated x.output ≠ .calculated r.instrument := by
        intro r hr hkey
        injection hkey with hname
        exact hn.1 (hname ▸ rebased_outputs hos r hr)
      exact ⟨o, ho, (find?_recordedAll_of_not_mem hothers).trans (find?_recordedAll_toList ho)⟩
    · have hne : x.output ≠ y.output := fun heq => hn.1 (heq ▸ List.mem_map_of_mem hx)
      obtain ⟨o', ho', hfind⟩ := ih (d.recordedAll due o.toList) hn.2 hx
      refine ⟨o', ho', hfind.trans ?_⟩
      unfold refreshed
      rw [find?_recordedAll_of_not_mem (ne_of_rebased ho (by simpa using hne))]

/-! ## What follows from a quote -/

/-- What follows from a quote for the anchor refreshes every dependent. -/
theorem find?_recordedAll_anchor (d : Desk) (due : Instant) {rs : List CalculatedRate} {i : String}
    (hn : (der.dependents.map Dependent.output).Nodup) (hanchor : der.anchor ∉ der.dependents.map Dependent.output)
    (hi : i = der.anchor) (h : c.derived der now i = .ok rs) (hx : x ∈ der.dependents) :
    ∃ o, c.rebased der.anchor now x = .ok o ∧
      (d.recordedAll due rs).cache.find? (.calculated x.output) = refreshed d.cache due x.output o := by
  rw [derived, if_pos hi] at h
  obtain ⟨r, hr, h⟩ := bind_eq_ok.1 h
  obtain ⟨os, hos, h⟩ := bind_eq_ok.1 h
  cases h
  have hne : ∀ q ∈ r.toList, CacheKey.calculated x.output ≠ .calculated q.instrument := by
    intro q hq hkey
    obtain rfl := Option.mem_toList.1 hq
    injection hkey with hname
    exact hanchor (consensus_name hr ▸ hname ▸ List.mem_map_of_mem hx)
  have hsplit : (r :: os).filterMap id = r.toList ++ os.filterMap id := by cases r <;> rfl
  obtain ⟨o, ho, hfind⟩ := find?_recordedAll_rebased (d.recordedAll due r.toList) due hn (forall₂_of_mapM hos) hx
  refine ⟨o, ho, ?_⟩
  rw [hsplit, recordedAll_append, hfind, refreshed, refreshed, find?_recordedAll_of_not_mem hne]

/-- What follows from a quote for a source refreshes the first dependent with that source and no other. -/
theorem find?_recordedAll_source (d : Desk) (due : Instant) {rs : List CalculatedRate} {i : String}
    (hn : (der.dependents.map Dependent.output).Nodup) (hi : i ≠ der.anchor) (h : c.derived der now i = .ok rs)
    (hx : x ∈ der.dependents) (hsource : x.source = i) :
    ∃ o, c.rebased der.anchor now x = .ok o ∧
      (d.recordedAll due rs).cache.find? (.calculated x.output) =
        if der.dependent? i = some x then refreshed d.cache due x.output o
        else d.cache.find? (.calculated x.output) := by
  rw [derived, if_neg hi] at h
  cases hy : der.dependent? i with
  | none =>
    have hnone := List.find?_eq_none.1 hy x hx
    exact absurd hsource (by simpa using hnone)
  | some y =>
    rw [hy] at h
    obtain ⟨o, ho, h⟩ := bind_eq_ok.1 h
    cases h
    by_cases heq : y = x
    · subst heq
      exact ⟨o, ho, (find?_recordedAll_toList ho).trans (if_pos rfl).symm⟩
    · have hysource : y.source = i := by simpa using List.find?_some hy
      have hkey : CacheKey.calculated x.output ≠ .calculated y.output := by
        intro hkey
        injection hkey with hname
        exact heq (List.inj_on_of_nodup_map hn (List.mem_of_find?_eq_some hy) hx hname.symm)
      refine ⟨_, rebased_of_source_eq (hsource.trans hysource.symm) ho, ?_⟩
      rw [find?_recordedAll_of_not_mem (ne_of_rebased ho hkey), if_neg (by simpa using heq)]

/-- A dependent has a rate once the anchor and its source have live quotes. -/
theorem isSome_rebased (h : c.rebased anchor now x = .ok o) (hlive : c.scan anchor now.instant ≠ [])
    (hsource : c.scan x.source now.instant ≠ []) : o.isSome := by
  have hname := rebased_instrument h
  rw [if_neg (by simp [hlive, hsource])] at hname
  obtain ⟨r, rfl, -⟩ := Option.map_eq_some_iff.1 hname
  rfl

/-! ## Updates -/

variable {p i : String} {r : Rate}

theorem derived_of_run_derive (hdue : now.instant.after (d.cache.ttl * 1000) = .ok due)
    (h : (derive der now i).run d = (.ok (), d')) :
    ∃ rs, d.cache.derived der now i = .ok rs ∧ d' = d.recordedAll due rs := by
  cases hrs : d.cache.derived der now i with
  | error e =>
    obtain ⟨d₁, herror⟩ := run_derive_error hdue hrs
    rw [herror] at h
    cases h
  | ok rs =>
    rw [run_derive hdue hrs] at h
    cases h
    exact ⟨rs, rfl, rfl⟩

/-- A quote that is accepted is stored, and what follows from it is recorded. -/
theorem derived_of_accepted (hrun : (update der now p i r).run d = (.ok .accepted, d')) :
    now.instant.after (d.cache.ttl * 1000) = .ok (d.expiry now) ∧
      ∃ rs, (d.stored (d.expiry now) p i r).cache.derived der now i = .ok rs ∧
        d' = (d.stored (d.expiry now) p i r).recordedAll (d.expiry now) rs := by
  obtain ⟨ho, -⟩ | ⟨ho, -⟩ | ⟨-, hdue, hderived⟩ := run_update_cases hrun
  · cases ho
  · cases ho
  · exact ⟨hdue, hderived⟩

theorem scan_stored_ne_nil {j : String} (hlive : d.cache.scan j now.instant ≠ []) (hlt : now.instant < due) :
    (d.stored due p i r).cache.scan j now.instant ≠ [] := by
  by_cases hij : i = j
  · subst hij
    exact List.ne_nil_of_mem (mem_scan_insert_raw d.cache p i r hlt)
  · exact (scan_insert_raw_of_ne hij d.cache p _ now.instant).symm ▸ hlive

theorem find?_stored_calculated (due : Instant) (output : String) :
    (d.stored due p i r).cache.find? (.calculated output) = d.cache.find? (.calculated output) :=
  (find?_insert d.cache _ _ _).trans (if_neg nofun)

theorem refreshed_stored (due due' : Instant) (output : String) (o : Option CalculatedRate) :
    refreshed (d.stored due' p i r).cache due output o = refreshed d.cache due output o := by
  rw [refreshed, refreshed, find?_stored_calculated]

/-- **Which dependents an accepted quote refreshes.** Outputs have different names, none of them that of
the anchor, which has live quotes. Once a quote for `i` is accepted, every dependent with the source `i`
has a rate by the quotes of the cache, and that is what a refresh of the anchor would store. The update
stores it too if `i` is the anchor; otherwise only for the first dependent with this source, and what stands
for the others stays as it was. -/
theorem update_refreshes_dependents (hn : (der.dependents.map Dependent.output).Nodup)
    (hanchor : der.anchor ∉ der.dependents.map Dependent.output)
    (hlive : d.cache.scan der.anchor now.instant ≠ [])
    (hrun : (update der now p i r).run d = (.ok .accepted, d')) :
    let held := d.stored (d.expiry now) p i r
    ∀ x ∈ der.dependents, x.source = i → ∃ o, held.cache.rebased der.anchor now x = .ok o ∧
      (0 < d.cache.ttl → o.isSome) ∧
      (∀ d'', (derive der now der.anchor).run held = (.ok (), d'') →
        d''.cache.find? (.calculated x.output) = refreshed d.cache (d.expiry now) x.output o) ∧
      d'.cache.find? (.calculated x.output) =
        if i = der.anchor ∨ der.dependent? i = some x then refreshed d.cache (d.expiry now) x.output o
        else d.cache.find? (.calculated x.output) := by
  intro held x hx hsource
  obtain ⟨hdue, rs, hrs, rfl⟩ := derived_of_accepted hrun
  have hupdate : ∃ o, held.cache.rebased der.anchor now x = .ok o ∧
      (held.recordedAll (d.expiry now) rs).cache.find? (.calculated x.output) =
        if i = der.anchor ∨ der.dependent? i = some x then refreshed d.cache (d.expiry now) x.output o
        else d.cache.find? (.calculated x.output) := by
    by_cases hi : i = der.anchor
    · obtain ⟨o, ho, hfind⟩ := find?_recordedAll_anchor held (d.expiry now) hn hanchor hi hrs hx
      exact ⟨o, ho, hfind.trans ((refreshed_stored _ _ _ o).trans (if_pos (Or.inl hi)).symm)⟩
    · obtain ⟨o, ho, hfind⟩ := find?_recordedAll_source held (d.expiry now) hn hi hrs hx hsource
      refine ⟨o, ho, hfind.trans ?_⟩
      rw [refreshed_stored, find?_stored_calculated]
      simp only [hi, false_or]
  obtain ⟨o, ho, hfind⟩ := hupdate
  refine ⟨o, ho, fun httl => ?_, fun d'' hd'' => ?_, hfind⟩
  · have hlt : now.instant < d.expiry now := Nat.lt_add_of_pos_right (by omega)
    have hsources : held.cache.scan x.source now.instant ≠ [] :=
      hsource ▸ List.ne_nil_of_mem (mem_scan_insert_raw d.cache p i r hlt)
    exact isSome_rebased ho (scan_stored_ne_nil hlive hlt) hsources
  · obtain ⟨rs', hrs', rfl⟩ := derived_of_run_derive (d := held) hdue hd''
    obtain ⟨o', ho', hfind'⟩ := find?_recordedAll_anchor held (d.expiry now) hn hanchor rfl hrs' hx
    rw [ho] at ho'
    cases ho'
    exact hfind'.trans (refreshed_stored _ _ _ o)

def twoNames : Derivation := ⟨"USDTRY", [⟨"XAUUSD", "XAUTRY"⟩, ⟨"XAUUSD", "GOLDTRY"⟩]⟩

def rebasedGold (output : String) (bid ask : Int) : CalculatedRate :=
  ⟨output, (Decimal.of? bid 2).getD .zero, (Decimal.of? ask 2).getD .zero, ⟨0, 0⟩⟩

def opened : Desk :=
  ((empty 1800).stored 1800000 "TCP" "USDTRY" (tenths "USDTRY" 320 324)).stored 1800000 "TCP" "XAUUSD"
    (tenths "XAUUSD" 23000 23010)

/-- That desk once the quote for the anchor came again: gold stands under both names. -/
def doubled : Desk :=
  (opened.stored 1800000 "TCP" "USDTRY" (tenths "USDTRY" 320 324)).recordedAll 1800000
    [⟨"USDTRY", (tenths "USDTRY" 320 324).bid, (tenths "USDTRY" 320 324).ask, ⟨0, 0⟩⟩,
      rebasedGold "XAUTRY" 7406000 7409220, rebasedGold "GOLDTRY" 7406000 7409220]

def risen : Rate := tenths "XAUUSD" 23020 23030

theorem run_update_opened :
    (update twoNames ⟨0, ⟨0, 0⟩⟩ "TCP" "USDTRY" (tenths "USDTRY" 320 324)).run opened = (.ok .accepted, doubled) := by
  have hv : opened.verdict ⟨0, ⟨0, 0⟩⟩ "USDTRY" (tenths "USDTRY" 320 324) = .ok (some true) := by rfl
  have hdue : Instant.after 0 (opened.cache.ttl * 1000) = .ok 1800000 := Instant.after_eq_ok.2 ⟨by decide, rfl⟩
  exact run_update_accepted (scan_ne_nil_of_verdict hv) hv hdue rfl

theorem run_update_doubled :
    (update twoNames ⟨5, ⟨0, 0⟩⟩ "TCP" "XAUUSD" risen).run doubled =
      (.ok .accepted, (doubled.stored 1800005 "TCP" "XAUUSD" risen).recordedAll 1800005
        [rebasedGold "XAUTRY" 7412440 7415660]) := by
  have hv : doubled.verdict ⟨5, ⟨0, 0⟩⟩ "XAUUSD" risen = .ok (some true) := by rfl
  have hdue : Instant.after 5 (doubled.cache.ttl * 1000) = .ok 1800005 := Instant.after_eq_ok.2 ⟨by decide, rfl⟩
  exact run_update_accepted (scan_ne_nil_of_verdict hv) hv hdue rfl

/-- Gold stands under both names when a later quote for it is accepted. The first name follows; the second is left
at the old quotes, although a refresh of the anchor would have it follow as well. -/
theorem update_leaves_dependent_stale :
    (twoNames.dependents.map Dependent.output).Nodup ∧ twoNames.anchor ∉ twoNames.dependents.map Dependent.output ∧
    (update twoNames ⟨0, ⟨0, 0⟩⟩ "TCP" "USDTRY" (tenths "USDTRY" 320 324)).run opened = (.ok .accepted, doubled) ∧
    doubled.cache.scan twoNames.anchor 5 ≠ [] ∧
    ∃ d' d'', (update twoNames ⟨5, ⟨0, 0⟩⟩ "TCP" "XAUUSD" risen).run doubled = (.ok .accepted, d') ∧
      (derive twoNames ⟨5, ⟨0, 0⟩⟩ "USDTRY").run (doubled.stored 1800005 "TCP" "XAUUSD" risen) = (.ok (), d'') ∧
      d'.cache.getCalculated? "XAUTRY" 5 = some (rebasedGold "XAUTRY" 7412440 7415660) ∧
      d'.cache.getCalculated? "GOLDTRY" 5 = some (rebasedGold "GOLDTRY" 7406000 7409220) ∧
      d''.cache.getCalculated? "GOLDTRY" 5 = some (rebasedGold "GOLDTRY" 7412440 7415660) ∧
      rebasedGold "GOLDTRY" 7406000 7409220 ≠ rebasedGold "GOLDTRY" 7412440 7415660 := by
  have hdue : Instant.after 5 (doubled.cache.ttl * 1000) = .ok 1800005 := Instant.after_eq_ok.2 ⟨by decide, rfl⟩
  exact ⟨by decide, by decide, run_update_opened, by decide, _, _, run_update_doubled,
    run_derive (d := doubled.stored 1800005 "TCP" "XAUUSD" risen) hdue rfl, rfl, rfl, rfl, by decide⟩

theorem update_refreshes_dependents_doubled :
    ∃ d', (update twoNames ⟨5, ⟨0, 0⟩⟩ "TCP" "XAUUSD" risen).run doubled = (.ok .accepted, d') ∧
      (∃ o : Option CalculatedRate, o.isSome ∧
        d'.cache.find? (.calculated "XAUTRY") = refreshed doubled.cache 1800005 "XAUTRY" o) ∧
      d'.cache.find? (.calculated "GOLDTRY") = doubled.cache.find? (.calculated "GOLDTRY") := by
  have hanchor : doubled.cache.scan "USDTRY" 5 ≠ [] := by decide
  have hdependents := update_refreshes_dependents (by decide) (by decide) hanchor run_update_doubled
  obtain ⟨o, -, hsome, -, hfirst⟩ := hdependents ⟨"XAUUSD", "XAUTRY"⟩ (by decide) rfl
  obtain ⟨o', -, -, -, hsecond⟩ := hdependents ⟨"XAUUSD", "GOLDTRY"⟩ (by decide) rfl
  exact ⟨_, run_update_doubled, ⟨o, hsome (by decide), hfirst.trans (if_pos (by decide))⟩,
    hsecond.trans (if_neg (by decide))⟩

end Desk

end RateDesk
