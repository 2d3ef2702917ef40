import RateDesk.Proofs.Desk.Dependents
import RateDesk.Proofs.Desk.Unread

/-!
# The consensus rests on quotes

* `Cache.Backed` : the invariant, some quote for the anchor is stored at least as long as its consensus;
* `name_of_derivations` : only a quote for the anchor leads to a rate of the anchor's name, unless an output has it;
* `cache_call` : what any call leaves in the cache, however it ends;
* `Cache.Backed.call`, `backed_serve` : one call keeps the invariant, and so does a run;
* `consensus_backed` : so a consensus is never seen without a live quote for the anchor.
-/

namespace RateDesk

/-! ## What is found after rates were recorded -/

namespace Desk

open Cache

variable {d : Desk} {c : Cache} {der : Derivation} {now : Now} {due clock t : Instant} {anchor i p : String} {r : Rate}
  {rs : List CalculatedRate} {e : CacheEntry}

theorem ttl_recordedAll (due : Instant) (d : Desk) (rs : List CalculatedRate) :
    (d.recordedAll due rs).cache.ttl = d.cache.ttl := by
  have hagrees : d.cache.Agrees (d.recordedAll due rs).cache due :=
    @agrees_recordedAll d d.cache ⟨due, ⟨0, 0⟩⟩ due rs (Agrees.refl d.cache due)
  exact hagrees.ttl

/-- What is found was recorded now under that name, or it was there before. -/
theorem find?_recordedAll_cases {k : CacheKey} (h : (d.recordedAll due rs).cache.find? k = some e) :
    (∃ x ∈ rs, k = .calculated x.instrument ∧ e.expiresAt = due) ∨ d.cache.find? k = some e := by
  induction rs generalizing d with
  | nil => exact Or.inr h
  | cons x rs ih =>
    rcases ih h with ⟨y, hy, hk, he⟩ | h
    · exact Or.inl ⟨y, List.mem_cons_of_mem x hy, hk, he⟩
    · rw [recorded, find?_insert] at h
      split at h
      · rename_i hk
        cases h
        exact Or.inl ⟨x, List.mem_cons_self, hk, rfl⟩
      · exact Or.inr h

/-- Recorded rates replace no quote. -/
theorem find?_recordedAll_raw (d : Desk) (due : Instant) (rs : List CalculatedRate) (p i : String) :
    (d.recordedAll due rs).cache.find? (.raw p i) = d.cache.find? (.raw p i) :=
  find?_recordedAll_of_not_mem nofun

/-! ## What a call leaves in the cache -/

/-- A rate that follows from a quote has the name of an output; if the quote is one for the anchor it may also be
the consensus. -/
theorem name_of_derivations {x : CalculatedRate} (h : .ok (some x) ∈ c.derivations der now i) :
    (i = der.anchor ∧ x.instrument = der.anchor) ∨ x.instrument ∈ der.dependents.map Dependent.output := by
  unfold derivations at h
  split at h
  · rename_i hi
    rcases List.mem_cons.1 h with h | h
    · exact Or.inl ⟨hi, consensus_name h.symm⟩
    · obtain ⟨y, hy, hx⟩ := List.mem_map.1 h
      exact Or.inr (rebased_output hx ▸ List.mem_map_of_mem hy)
  · obtain ⟨y, hy, hx⟩ := List.mem_map.1 h
    have hmem : y ∈ der.dependents := List.mem_of_find?_eq_some (Option.mem_toList.1 hy)
    exact Or.inr (rebased_output hx ▸ List.mem_map_of_mem hmem)

/-- The quote and the rates that a call left in the cache: all that follow from it, or those before the first
fault. -/
structure Took (d : Desk) (der : Derivation) (now : Now) (p i : String) (r : Rate) (rs : List CalculatedRate)
    (d' : Desk) : Prop where
  cache : d'.cache = ((d.stored (d.expiry now) p i r).recordedAll (d.expiry now) rs).cache
  follow : ∀ x ∈ rs, .ok (some x) ∈ (d.stored (d.expiry now) p i r).cache.derivations der now i

theorem took_stored (d : Desk) (der : Derivation) (now : Now) (p i : String) (r : Rate) :
    d.Took der now p i r [] (d.stored (d.expiry now) p i r) := ⟨rfl, nofun⟩

theorem took_derived {os : List (Option CalculatedRate)} {rest : List (Except Fault (Option CalculatedRate))}
    (h : (d.stored (d.expiry now) p i r).cache.derivations der now i = os.map .ok ++ rest) :
    d.Took der now p i r (os.filterMap id)
      ((d.stored (d.expiry now) p i r).recordedAll (d.expiry now) (os.filterMap id)) := by
  refine ⟨rfl, fun x hx => ?_⟩
  obtain ⟨o, ho, rfl⟩ := List.mem_filterMap.1 hx
  rw [h]
  exact List.mem_append_left rest (List.mem_map_of_mem ho)

/-- However an update ends, it takes the quote or leaves the cache alone. -/
theorem cache_update (d : Desk) (der : Derivation) (now : Now) (p i : String) (r : Rate) :
    ((update der now p i r).run d).2.cache = d.cache ∨
      ∃ rs, d.Took der now p i r rs ((update der now p i r).run d).2 := by
  by_cases hstores : d.cache.scan i now.instant = [] ∨ d.verdict now i r = .ok (some true)
  · cases hdue : now.instant.after (d.cache.ttl * 1000) with
    | error f =>
      rw [run_update_unstored hstores hdue]
      exact Or.inl rfl
    | ok due =>
      obtain rfl : due = d.expiry now := (Instant.after_eq_ok.1 hdue).2
      rcases hstores with hlive | hv
      · rw [run_update_seeded hlive hdue]
        exact Or.inr ⟨[], took_stored d der now p i r⟩
      · rcases forall_ok_or_first_error ((d.stored (d.expiry now) p i r).cache.derivations der now i) with
          ⟨os, hos⟩ | ⟨os, f, rest, hos⟩
        · rw [run_update_accepted (scan_ne_nil_of_verdict hv) hv hdue (derived_of_derivations hos)]
          exact Or.inr ⟨_, took_derived (hos.trans (List.append_nil _).symm)⟩
        · rw [run_update_stopped hv hdue hos]
          exact Or.inr ⟨_, took_derived hos⟩
  · obtain ⟨hlive, hne⟩ := not_or.1 hstores
    cases hv : d.verdict now i r with
    | error f =>
      rw [run_update_verdict_error hv]
      exact Or.inl rfl
    | ok v =>
      rw [run_update_rejected hlive hv fun htrue => hne (htrue ▸ hv)]
      exact Or.inl rfl

/-- What any call leaves in the cache, a fault included. -/
theorem cache_call (d : Desk) (der : Derivation) (now : Now) (c : DeskCall) :
    let d' := ((c.run der now).run d).2
    d'.cache = d.cache ∨ d'.cache = d.cache.evict now.instant ∨ ∃ p i r rs, d.Took der now p i r rs d' := by
  have hsame {α β : Type} (x : Step α) (f : α → β) :
      ((do return f (← x) : Step β).run d).2 = (x.run d).2 := by
    rcases hx : x.run d with ⟨a | a, d₁⟩
    · rw [run_bind_error hx]
    · rw [run_bind_ok hx]
      rfl
  cases c with
  | first p i r =>
    dsimp only [DeskCall.run]
    rw [hsame (first now p i r) fun _ => none, first]
    cases hdue : now.instant.after (d.cache.ttl * 1000) with
    | error f =>
      rw [run_storeRaw_error p i r hdue]
      exact Or.inl rfl
    | ok due =>
      obtain rfl : due = d.expiry now := (Instant.after_eq_ok.1 hdue).2
      rw [run_storeRaw p i r hdue]
      exact Or.inr (Or.inr ⟨p, i, r, [], took_stored d der now p i r⟩)
  | update p i r =>
    dsimp only [DeskCall.run]
    rw [hsame (update der now p i r) some]
    rcases cache_update d der now p i r with hcache | ⟨rs, htook⟩
    · exact Or.inl hcache
    · exact Or.inr (Or.inr ⟨p, i, r, rs, htook⟩)
  | evict =>
    rw [DeskCall.run, run_bind_ok (run_evict d now)]
    exact Or.inr (Or.inl rfl)

end Desk

/-! ## The invariant -/

namespace Cache

open Desk

variable {d : Desk} {c : Cache} {der : Derivation} {now : Now} {clock t : Instant} {anchor i p : String} {r : Rate}
  {rs : List CalculatedRate} {d' : Desk}

/-- A consensus of the anchor, live or not, was stored by now, and some quote for the anchor is stored at least as
long. -/
def Backed (c : Cache) (anchor : String) (clock : Instant) : Prop :=
  ∀ e, c.find? (.calculated anchor) = some e → e.expiresAt ≤ clock + c.ttl * 1000 ∧
    ∃ p r due, c.find? (.raw p anchor) = some ⟨.raw r, due⟩ ∧ e.expiresAt ≤ due

theorem Backed.later (h : c.Backed anchor clock) (hle : clock ≤ t) : c.Backed anchor t := by
  intro e he
  obtain ⟨hdue, hquote⟩ := h e he
  exact ⟨Nat.le_trans hdue (Nat.add_le_add_right hle _), hquote⟩

theorem Backed.evict (h : c.Backed anchor clock) (t : Instant) : (c.evict t).Backed anchor clock := by
  intro e he
  rw [find?_evict, Option.filter_eq_some_iff] at he
  obtain ⟨hdue, p, r, due, hquote, hle⟩ := h e he.1
  have hlive : t < e.expiresAt := of_decide_eq_true he.2
  refine ⟨hdue, p, r, due, ?_, hle⟩
  rw [find?_evict, Option.filter_eq_some_iff]
  exact ⟨hquote, decide_eq_true (Nat.lt_of_lt_of_le hlive hle)⟩

/-- A quote is stored for as long as anything that was stored before. -/
theorem Backed.stored (h : d.cache.Backed anchor now.instant) (p i : String) (r : Rate) :
    (d.stored (d.expiry now) p i r).cache.Backed anchor now.instant := by
  intro e he
  rw [Desk.stored, find?_insert, if_neg nofun] at he
  obtain ⟨hdue, q, x, due, hquote, hle⟩ := h e he
  refine ⟨hdue, ?_⟩
  by_cases hkey : CacheKey.raw q anchor = .raw p i
  · exact ⟨q, r, d.expiry now, (find?_insert ..).trans (if_pos hkey), hdue⟩
  · exact ⟨q, x, due, (find?_insert ..).trans ((if_neg hkey).trans hquote), hle⟩

theorem Backed.took (h : d.cache.Backed der.anchor now.instant)
    (hout : der.anchor ∉ der.dependents.map Dependent.output) (htook : d.Took der now p i r rs d') :
    d'.cache.Backed der.anchor now.instant := by
  have httl : d'.cache.ttl = d.cache.ttl := by rw [htook.cache, ttl_recordedAll]; rfl
  intro e he
  rw [httl]
  rw [htook.cache] at he ⊢
  simp only [find?_recordedAll_raw]
  rcases find?_recordedAll_cases he with ⟨x, hx, hname, hdue⟩ | he
  · injection hname with hname
    obtain ⟨rfl, -⟩ : i = der.anchor ∧ x.instrument = der.anchor :=
      (name_of_derivations (htook.follow x hx)).resolve_right fun hmem => hout (hname ▸ hmem)
    exact ⟨Nat.le_of_eq hdue, p, r, d.expiry now, (find?_insert ..).trans (if_pos rfl), Nat.le_of_eq hdue⟩
  · exact h.stored p i r e he

theorem Backed.call (h : d.cache.Backed der.anchor clock) (hout : der.anchor ∉ der.dependents.map Dependent.output)
    (hle : clock ≤ now.instant) (call : DeskCall) :
    ((call.run der now).run d).2.cache.Backed der.anchor now.instant := by
  have hnow := h.later hle
  rcases cache_call d der now call with hsame | hevict | ⟨p, i, r, rs, htook⟩
  · rwa [hsame]
  · rw [hevict]
    exact hnow.evict now.instant
  · exact hnow.took hout htook

end Cache

/-! ## Runs -/

namespace Desk

variable {d : Desk} {der : Derivation} {clock t : Instant} {calls : List (Now × DeskCall)}

/-- A run at times that never go back keeps the invariant, whatever faults its calls end in. -/
theorem backed_serve (hout : der.anchor ∉ der.dependents.map Dependent.output) (hd : d.cache.Backed der.anchor clock)
    (hclock : (clock :: calls.map fun x => x.1.instant).Pairwise (· ≤ ·)) (ht : clock ≤ t)
    (hlast : ∀ x ∈ calls, x.1.instant ≤ t) :
    (serve (fun now c => c.run der now) calls d).2.cache.Backed der.anchor t := by
  induction calls generalizing d clock with
  | nil => exact hd.later ht
  | cons x calls ih =>
    obtain ⟨now, call⟩ := x
    rw [List.map_cons, List.pairwise_cons] at hclock
    exact ih (hd.call hout (hclock.1 _ List.mem_cons_self) call) hclock.2 (hlast _ List.mem_cons_self)
      fun y hy => hlast y (List.mem_cons_of_mem _ hy)

/-- **The consensus never outlives the quotes.** Where no dependent goes by the name of the anchor: after any first
quotes, updates and evictions at times that never go back, whatever of it was rejected, overwritten or cut short by
a fault, whoever sees a calculated rate of the anchor, at any time from then on, also sees a live quote for it. -/
theorem consensus_backed (ttl : Nat) (der : Derivation) (calls : List (Now × DeskCall)) (t : Instant)
    (hout : ∀ x ∈ der.dependents, x.output ≠ der.anchor)
    (hclock : (calls.map fun x => x.1.instant).Pairwise (· ≤ ·)) (ht : ∀ x ∈ calls, x.1.instant ≤ t) :
    let d := (serve (fun now c => c.run der now) calls (empty ttl)).2
    (d.cache.getCalculated? der.anchor t).isSome → ∃ p r, d.cache.getRaw? p der.anchor t = some r := by
  intro d hseen
  have hanchor : der.anchor ∉ der.dependents.map Dependent.output := by
    intro hmem
    obtain ⟨x, hx, heq⟩ := List.mem_map.1 hmem
    exact hout x hx heq
  have hempty : (empty ttl).cache.Backed der.anchor 0 := nofun
  have hbacked : d.cache.Backed der.anchor t :=
    backed_serve hanchor hempty (List.pairwise_cons.2 ⟨fun _ _ => Nat.zero_le _, hclock⟩) (Nat.zero_le t) ht
  unfold Cache.getCalculated? Cache.get? at hseen
  cases he : d.cache.find? (.calculated der.anchor) with
  | none =>
    rw [he] at hseen
    cases hseen
  | some e =>
    obtain ⟨-, p, r, due, hquote, hle⟩ := hbacked e he
    have hlive : t < e.expiresAt := by
      by_contra hdead
      simp [he, CacheEntry.isLive, hdead] at hseen
    refine ⟨p, r, ?_⟩
    have hdue : (⟨.raw r, due⟩ : CacheEntry).isLive t = true := decide_eq_true (Nat.lt_of_lt_of_le hlive hle)
    simp [Cache.getRaw?, Cache.get?, hquote, hdue]

/-- A first quote, an update of the same platform, a quote of another one that deviates, and an eviction. -/
def renewing : List (Now × DeskCall) :=
  [(⟨0, ⟨0, 0⟩⟩, .first "TCP" "USDTRY" (tenths "USDTRY" 320 324)),
    (⟨5, ⟨0, 0⟩⟩, .update "TCP" "USDTRY" (tenths "USDTRY" 319 325)),
    (⟨9, ⟨0, 0⟩⟩, .update "REST" "USDTRY" (tenths "USDTRY" 400 404)), (⟨1800000, ⟨0, 0⟩⟩, .evict)]

theorem consensus_backed_renewed :
    let d := (serve (fun now c => c.run .standard now) renewing (empty 1800)).2
    (∀ x ∈ Derivation.standard.dependents, x.output ≠ Derivation.standard.anchor) ∧
    (serve (fun now c => c.run .standard now) renewing (empty 1800)).1 =
      [.ok none, .ok (some .accepted), .ok (some .rejected), .ok none] ∧
    (d.cache.getCalculated? "USDTRY" 1800004).isSome ∧ d.cache.getCalculated? "USDTRY" 1800005 = none ∧
    ∃ p r, d.cache.getRaw? p "USDTRY" 1800004 = some r := by
  have hout : ∀ x ∈ Derivation.standard.dependents, x.output ≠ Derivation.standard.anchor := by decide
  have hseen : ((serve (fun now c => c.run .standard now) renewing (empty 1800)).2.cache.getCalculated? "USDTRY"
      1800004).isSome := by decide +kernel
  refine ⟨hout, by decide +kernel, hseen, by decide +kernel, ?_⟩
  exact consensus_backed 1800 .standard renewing 1800004 hout (by decide) (by decide) hseen

end Desk

end RateDesk
