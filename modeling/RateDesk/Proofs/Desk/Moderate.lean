import RateDesk.Proofs.Cache.History
import RateDesk.Proofs.Consensus.Moderate
import RateDesk.Proofs.Desk.Interruption

/-!
# A desk that gets moderate quotes

First quotes, updates and evictions come in any order, at any times, for any platforms and instruments.

* `DeskCall`, `Desk.Admits` : the calls, and when a desk is asked no more than it can do;
* `Cache.HoldsModerate` : the invariant, all raw rates that are stored are moderate;
* `Cache.derived_ok` : so whatever follows from an accepted quote has a representation;
* `run_admitted` : one call ends without a fault and keeps the invariant;
* `reachable_calls_return` : no call of a run ends in a fault, and what is rejected deviates.
-/

namespace RateDesk

structure Rate.Moderate (r : Rate) : Prop where
  bid : r.bid.Moderate
  ask : r.ask.Moderate

inductive DeskCall where
  | first (platform instrument : String) (r : Rate)
  | update (platform instrument : String) (r : Rate)
  | evict

namespace DeskCall

def rate? : DeskCall → Option Rate
  | first _ _ r => some r
  | update _ _ r => some r
  | evict => none

/-- What a desk does at a call; an update has an outcome. -/
def run (der : Derivation) (now : Now) : DeskCall → Desk.Step (Option UpdateOutcome)
  | first p i r => do
    Desk.first now p i r
    return none
  | update p i r => do return some (← Desk.update der now p i r)
  | evict => do
    let _ ← Desk.evict now
    return none

end DeskCall

/-! ## Stored rates -/

namespace Cache

open Consensus (Moderates)

variable {c : Cache} {der : Derivation} {now : Now} {t : Instant} {anchor i : String}

def HoldsModerate (c : Cache) : Prop := ∀ p ∈ c.entries, ∀ r, p.2.rate = .raw r → r.Moderate

theorem HoldsModerate.insert (h : c.HoldsModerate) {k : CacheKey} {e : CacheEntry}
    (he : ∀ r, e.rate = .raw r → r.Moderate) : (c.insert k e).HoldsModerate := by
  intro p hp
  rcases List.mem_cons.1 hp with rfl | hp
  · exact he
  · exact h p (List.mem_filter.1 hp).1

theorem HoldsModerate.evict (h : c.HoldsModerate) (t : Instant) : (c.evict t).HoldsModerate :=
  fun p hp => h p (List.mem_filter.1 hp).1

theorem HoldsModerate.scan (h : c.HoldsModerate) {r : Rate} (hr : r ∈ c.scan i t) : r.Moderate := by
  obtain ⟨⟨k, e, due⟩, hp, hscanned⟩ := List.mem_filterMap.1 hr
  cases k with
  | calculated o => rw [scanned?_calculated] at hscanned; cases hscanned
  | raw p j =>
    cases e with
    | calculated x => cases hscanned
    | raw x =>
      simp only [scanned?, Option.ite_none_right_eq_some, Option.some.injEq] at hscanned
      obtain ⟨-, rfl⟩ := hscanned
      exact h _ hp x rfl

theorem length_scan_insert_le (c : Cache) (k : CacheKey) (e : CacheEntry) (i : String) (t : Instant) :
    ((c.insert k e).scan i t).length ≤ (c.scan i t).length + 1 := by
  have hrest : ((c.entries.filter fun p => p.1 ≠ k).filterMap (scanned? i t)).length ≤ (c.scan i t).length :=
    (List.filter_sublist.filterMap _).length_le
  unfold scan insert
  rw [List.filterMap_cons]
  split
  · exact hrest.trans (Nat.le_succ _)
  · exact Nat.succ_le_succ hrest

/-- The live quotes for every instrument are moderate, and there are not too many of them. -/
structure HasModerates (c : Cache) (t : Instant) : Prop where
  bids : ∀ i, Moderates (c.bids i t)
  asks : ∀ i, Moderates (c.asks i t)

theorem HoldsModerate.hasModerates (h : c.HoldsModerate) (hfew : ∀ i, (c.scan i t).length ≤ twoPow 64) :
    c.HasModerates t where
  bids i := by
    refine ⟨fun x hx => ?_, by rw [Cache.bids, List.length_map]; exact hfew i⟩
    obtain ⟨r, hr, rfl⟩ := List.mem_map.1 hx
    exact (h.scan hr).bid
  asks i := by
    refine ⟨fun x hx => ?_, by rw [Cache.asks, List.length_map]; exact hfew i⟩
    obtain ⟨r, hr, rfl⟩ := List.mem_map.1 hx
    exact (h.scan hr).ask

/-! ## What follows from them -/

theorem aggregate_ok (h : c.HasModerates now.instant) (i : String) :
    ∃ o, Consensus.aggregate (c.bids i now.instant) (c.asks i now.instant) = .ok o ∧
      ∀ q ∈ o, q.bid.Moderate ∧ q.ask.Moderate := by
  by_cases hlive : c.scan i now.instant = []
  · exact ⟨none, by rw [bids_eq_nil.2 hlive, Consensus.aggregate_nil], nofun⟩
  · obtain ⟨q, hq, hmod⟩ := Consensus.aggregate_moderate (h.bids i) (h.asks i) (by simpa using hlive)
      (by simpa using hlive)
    exact ⟨some q, hq, by simpa using hmod⟩

theorem consensus_ok (h : c.HasModerates now.instant) (anchor : String) : ∃ o, c.consensus anchor now = .ok o := by
  obtain ⟨o, ho, -⟩ := aggregate_ok h anchor
  exact ⟨o.map (Desk.stamp now anchor), by rw [consensus, ho]; rfl⟩

theorem anchorMid_ok (h : c.HasModerates now.instant) (anchor : String) :
    ∃ o, c.anchorMid anchor now = .ok o ∧ ∀ m ∈ o, m.Moderate := by
  obtain ⟨o, ho, hmod⟩ := aggregate_ok h anchor
  unfold anchorMid
  rw [ho]
  cases o with
  | none => exact ⟨none, rfl, nofun⟩
  | some q =>
    obtain ⟨m, hm, hmid⟩ := Consensus.midOf_moderate (hmod q rfl).1 (hmod q rfl).2
    refine ⟨some m, ?_, by simpa using hmid⟩
    show (q.mid >>= fun m => pure (some m)) = _
    rw [Quote.mid, hm]
    rfl

theorem rebased_ok (h : c.HasModerates now.instant) (anchor : String) (x : Dependent) :
    ∃ o, c.rebased anchor now x = .ok o := by
  obtain ⟨o, ho, hmod⟩ := anchorMid_ok h anchor
  unfold rebased
  rw [ho]
  cases o with
  | none => exact ⟨none, rfl⟩
  | some mid =>
    by_cases hlive : c.scan x.source now.instant = []
    · rw [bids_eq_nil.2 hlive]
      exact ⟨none, rfl⟩
    · obtain ⟨q, hq⟩ := Consensus.dependentRate_ok (h.bids x.source) (h.asks x.source) (by simpa using hlive)
        (by simpa using hlive) (hmod mid rfl)
      refine ⟨some (Desk.stamp now x.output q), ?_⟩
      show (Consensus.dependentRate _ _ mid >>= fun q => pure (q.map (Desk.stamp now x.output))) = _
      rw [hq]
      rfl

theorem derived_ok (h : c.HasModerates now.instant) (der : Derivation) (i : String) :
    ∃ rs, c.derived der now i = .ok rs := by
  have hall : ∀ e, .error e ∉ c.derivations der now i := by
    intro e he
    unfold derivations at he
    split at he
    · rcases List.mem_cons.1 he with he | he
      · obtain ⟨o, ho⟩ := consensus_ok h der.anchor
        rw [ho] at he
        cases he
      · obtain ⟨x, -, hx⟩ := List.mem_map.1 he
        obtain ⟨o, ho⟩ := rebased_ok h der.anchor x
        rw [ho] at hx
        cases hx
    · obtain ⟨x, -, hx⟩ := List.mem_map.1 he
      obtain ⟨o, ho⟩ := rebased_ok h der.anchor x
      rw [ho] at hx
      cases hx
  rcases forall_ok_or_first_error (c.derivations der now i) with ⟨os, hos⟩ | ⟨os, e, rest, hos⟩
  · exact ⟨_, derived_of_derivations hos⟩
  · exact absurd (by simp [hos]) (hall e)

end Cache

/-! ## Single calls -/

namespace Desk

open Consensus (midOf referenceMid)

variable {d : Desk} {der : Derivation} {now : Now} {due : Instant} {ttl : Nat} {i p : String} {r : Rate} {c : DeskCall}

/-- What a call comes with is moderate, the clock can have the deadline of what is stored now, and each
instrument has fewer live quotes than there are counts of 64 bits. -/
structure Admits (d : Desk) (now : Now) (c : DeskCall) : Prop where
  moderate : ∀ r ∈ c.rate?, r.Moderate
  deadline : (now.instant + d.cache.ttl * 1000) / 1000 < Instant.secondsBound
  few : ∀ i, (d.cache.scan i now.instant).length < twoPow 64

theorem Admits.after_eq (h : d.Admits now c) : now.instant.after (d.cache.ttl * 1000) = .ok (d.expiry now) :=
  Instant.after_eq_ok.2 ⟨h.deadline, rfl⟩

theorem Admits.hasModerates (h : d.Admits now c) (hd : d.cache.HoldsModerate) : d.cache.HasModerates now.instant :=
  hd.hasModerates fun i => (h.few i).le

theorem holds_stored (due : Instant) (p i : String) (hd : d.cache.HoldsModerate) (hr : r.Moderate) :
    (d.stored due p i r).cache.HoldsModerate :=
  hd.insert fun x hx => by
    cases hx
    exact hr

theorem holds_recordedAll (rs : List CalculatedRate) (hd : d.cache.HoldsModerate) :
    (d.recordedAll due rs).cache.HoldsModerate := by
  induction rs generalizing d with
  | nil => exact hd
  | cons x rs ih => exact ih (hd.insert nofun)

/-- With moderate peers the comparison is decided, and what it turns away deviates. -/
theorem verdict_decided (h : d.cache.HasModerates now.instant) (hr : r.Moderate)
    (hlive : d.cache.scan i now.instant ≠ []) :
    ∃ (mid reference : Decimal) (accepted : Bool), midOf r.bid r.ask = .ok mid ∧
      referenceMid (d.cache.bids i now.instant) (d.cache.asks i now.instant) = .ok (some reference) ∧
      0 < reference.value ∧ d.verdict now i r = .ok (some accepted) ∧
      (accepted = false → reference.value / 100 < |mid.value - reference.value|) :=
  Consensus.isValid_decided hr.bid hr.ask (h.bids i) (h.asks i) (by simpa using hlive) (by simpa using hlive)

theorem run_update_moderate (hd : d.cache.HoldsModerate) (ha : d.Admits now (.update p i r)) (der : Derivation) :
    ∃ o d', (update der now p i r).run d = (.ok o, d') ∧ d'.cache.HoldsModerate ∧
      (o = .rejected → d.cache.scan i now.instant ≠ [] ∧ d.verdict now i r ≠ .ok (some true)) := by
  have hr : r.Moderate := ha.moderate r rfl
  by_cases hlive : d.cache.scan i now.instant = []
  · exact ⟨_, _, run_update_seeded hlive ha.after_eq, holds_stored _ p i hd hr, nofun⟩
  · obtain ⟨-, -, accepted, -, -, -, hv, -⟩ := verdict_decided (ha.hasModerates hd) hr hlive
    cases accepted with
    | false =>
      refine ⟨_, _, run_update_rejected hlive hv (by simp), hd, fun _ => ⟨hlive, ?_⟩⟩
      rw [hv]
      simp
    | true =>
      have hstored := holds_stored (d.expiry now) p i hd hr
      have hfew : ∀ j, ((d.stored (d.expiry now) p i r).cache.scan j now.instant).length ≤ twoPow 64 :=
        fun j => (Cache.length_scan_insert_le d.cache _ _ j _).trans (ha.few j)
      obtain ⟨rs, hrs⟩ := Cache.derived_ok (hstored.hasModerates hfew) der i
      exact ⟨_, _, run_update_accepted hlive hv ha.after_eq hrs, holds_recordedAll rs hstored, nofun⟩

/-- A call that a desk admits ends without a fault, and the stored rates stay moderate. -/
theorem run_admitted (hd : d.cache.HoldsModerate) (ha : d.Admits now c) (der : Derivation) :
    ∃ o d', (c.run der now).run d = (.ok o, d') ∧ d'.cache.HoldsModerate := by
  cases c with
  | first p i r =>
    refine ⟨none, d.stored (d.expiry now) p i r, ?_, holds_stored _ p i hd (ha.moderate r rfl)⟩
    rw [DeskCall.run, first, run_bind_ok (run_storeRaw p i r ha.after_eq)]
    rfl
  | update p i r =>
    obtain ⟨o, d', hrun, hd', -⟩ := run_update_moderate hd ha der
    refine ⟨some o, d', ?_, hd'⟩
    rw [DeskCall.run, run_bind_ok hrun]
    rfl
  | evict =>
    refine ⟨none, { d with cache := d.cache.evict now.instant }, ?_, hd.evict now.instant⟩
    rw [DeskCall.run, run_bind_ok (Cache.run_evict d now)]
    rfl

/-! ## Runs -/

/-- The desks that a new one becomes through calls that it admits, each with its readings of the clocks. -/
inductive Reachable (ttl : Nat) (der : Derivation) : Desk → Prop
  | empty : Reachable ttl der (Desk.empty ttl)
  | call {d : Desk} (h : Reachable ttl der d) (now : Now) (c : DeskCall) (ha : d.Admits now c) :
    Reachable ttl der ((c.run der now).run d).2

theorem Reachable.holdsModerate (h : Reachable ttl der d) : d.cache.HoldsModerate := by
  induction h with
  | empty => exact fun p hp => absurd hp List.not_mem_nil
  | call h now c ha ih =>
    obtain ⟨o, d', hrun, hd'⟩ := run_admitted ih ha der
    rw [hrun]
    exact hd'

/-- **Moderate quotes never stop the desk.** Whatever the derivation, and after any first quotes, updates
and evictions at any times, with bids and asks between a billionth and a billion: the next such call ends
without a fault; a quote for an instrument with live quotes is compared with a reference that is positive,
and the comparison is decided; and an update that is rejected was decided so because the distance of its
mid to the reference is more than a hundredth of the reference, in the numbers themselves and not only as
they are rounded. -/
theorem reachable_calls_return (ttl : Nat) (der : Derivation) (d : Desk) (now : Now) (c : DeskCall)
    (hd : Reachable ttl der d) (ha : d.Admits now c) :
    (∃ o d', (c.run der now).run d = (.ok o, d')) ∧
    (∀ i r, r.Moderate → d.cache.scan i now.instant ≠ [] → ∃ accepted, d.verdict now i r = .ok (some accepted)) ∧
    ∀ p i r, c = .update p i r → ((c.run der now).run d).1 = .ok (some .rejected) →
      d.cache.scan i now.instant ≠ [] ∧ d.verdict now i r = .ok (some false) ∧
      ∃ mid reference : Decimal, midOf r.bid r.ask = .ok mid ∧
        referenceMid (d.cache.bids i now.instant) (d.cache.asks i now.instant) = .ok (some reference) ∧
        0 < reference.value ∧ reference.value / 100 < |mid.value - reference.value| := by
  have hmod := hd.holdsModerate
  have hpeers := ha.hasModerates hmod
  refine ⟨?_, fun i r hr hlive => ?_, ?_⟩
  · obtain ⟨o, d', hrun, -⟩ := run_admitted hmod ha der
    exact ⟨o, d', hrun⟩
  · obtain ⟨-, -, accepted, -, -, -, hv, -⟩ := verdict_decided hpeers hr hlive
    exact ⟨accepted, hv⟩
  · rintro p i r rfl hrejected
    obtain ⟨o, d', hrun, -, hwhy⟩ := run_update_moderate hmod ha der
    rw [DeskCall.run, run_bind_ok hrun] at hrejected
    cases hrejected
    obtain ⟨hlive, hnot⟩ := hwhy rfl
    obtain ⟨mid, reference, accepted, hmid, href, hpos, hv, hfar⟩ :=
      verdict_decided hpeers (ha.moderate r rfl) hlive
    cases accepted with
    | true => exact absurd hv hnot
    | false => exact ⟨hlive, hv, mid, reference, hmid, href, hpos, hfar rfl⟩

theorem moderate_tenths {bid ask : ℤ} (i : String) (hbid : 1 ≤ bid) (hask : 1 ≤ ask) (hbid' : bid ≤ 10 ^ 9)
    (hask' : ask ≤ 10 ^ 9) : (tenths i bid ask).Moderate := by
  have hmod : ∀ n : ℤ, 1 ≤ n → n ≤ 10 ^ 9 → ((Decimal.of? n 1).getD .zero).Moderate := by
    intro n hlow hhigh
    have hcoeff : n.natAbs < twoPow 96 ∧ 1 ≤ 28 := ⟨by norm_num; omega, by norm_num⟩
    have hof : Decimal.of? n 1 = some ⟨n, 1, hcoeff.1, hcoeff.2⟩ := dif_pos hcoeff
    have hlow : (1 : ℚ) ≤ n := by exact_mod_cast hlow
    have hhigh : (n : ℚ) ≤ 10 ^ 9 := by exact_mod_cast hhigh
    rw [hof]
    constructor <;> rw [Option.getD_some, Decimal.value_eq] <;> norm_num at hhigh ⊢ <;> linarith
  exact ⟨hmod bid hbid hbid', hmod ask hask hask'⟩

def quotedOnce : Desk :=
  ((DeskCall.first "TCP" "USDTRY" (tenths "USDTRY" 320 324)).run .standard ⟨0, ⟨0, 0⟩⟩ |>.run (empty 1800)).2

theorem reachable_calls_return_deviating :
    let call := DeskCall.update "REST" "USDTRY" (tenths "USDTRY" 400 404)
    Reachable 1800 .standard quotedOnce ∧ quotedOnce.Admits ⟨5, ⟨0, 0⟩⟩ call ∧
      ((call.run .standard ⟨5, ⟨0, 0⟩⟩).run quotedOnce).1 = .ok (some .rejected) ∧
      quotedOnce.verdict ⟨5, ⟨0, 0⟩⟩ "USDTRY" (tenths "USDTRY" 400 404) = .ok (some false) := by
  intro call
  have hfirst : (empty 1800).Admits ⟨0, ⟨0, 0⟩⟩ (.first "TCP" "USDTRY" (tenths "USDTRY" 320 324)) := by
    refine ⟨fun r hr => ?_, by decide, fun i => Nat.pow_pos (by norm_num)⟩
    cases hr
    exact moderate_tenths _ (by norm_num) (by norm_num) (by norm_num) (by norm_num)
  have hd : Reachable 1800 .standard quotedOnce := Reachable.empty.call _ _ hfirst
  have hcall : quotedOnce.Admits ⟨5, ⟨0, 0⟩⟩ call := by
    refine ⟨fun r hr => ?_, by decide, fun i => ?_⟩
    · cases hr
      exact moderate_tenths _ (by norm_num) (by norm_num) (by norm_num) (by norm_num)
    · have hone : (quotedOnce.cache.scan i 5).length ≤ 1 := List.length_filterMap_le _ _
      exact hone.trans_lt (by norm_num)
  have hrejected : ((call.run .standard ⟨5, ⟨0, 0⟩⟩).run quotedOnce).1 = .ok (some .rejected) := by rfl
  have hreal := (reachable_calls_return 1800 .standard quotedOnce ⟨5, ⟨0, 0⟩⟩ call hd hcall).2.2 _ _ _ rfl hrejected
  exact ⟨hd, hcall, hrejected, hreal.2.1⟩

end Desk

end RateDesk
