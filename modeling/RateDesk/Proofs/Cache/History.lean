import Mathlib.Data.List.Induction
import Mathlib.Data.List.Nodup
import Mathlib.Tactic.ByContra
import RateDesk.Desk
import RateDesk.Proofs.Cache.Entries
import RateDesk.Proofs.Time.Deadline

/-!
# What a cache shows after a history of calls

* `CacheCall`, `Cache.run` : histories of puts and evictions, each call with its reading of the clock;
* `Cache.shown` : what was put last under a key, until its deadline;
* `get?_run` : a cache shows exactly that, however often it was evicted;
* `scan_eq`, `mem_platforms`, `nodup_platforms` : a scan has one rate for each platform that shows one;
* `run_shows_last_puts` : all of it for one history, and that evictions leave no trace.
-/

namespace RateDesk

inductive CacheCall where
  | put (key : CacheKey) (rate : CachedRate) (ttl : Nat)
  | putRaw (platform instrument : String) (r : Rate)
  | putCalculated (r : CalculatedRate)
  | evict
deriving DecidableEq

/-- What a call puts under which key and for how long, where `ttl` is the usual life span. -/
def CacheCall.put? (ttl : Nat) : CacheCall → Option (CacheKey × CachedRate × Nat)
  | put k r span => some (k, r, span)
  | putRaw p i r => some (.raw p i, .raw r, ttl * 1000)
  | putCalculated r => some (.calculated r.instrument, .calculated r, ttl * 1000)
  | evict => none

namespace Cache

variable {c : Cache} {k : CacheKey} {t now : Instant} {ttl : Nat} {h h' : List (Instant × CacheCall)} {i p : String}

/-! ## Histories -/

def call (c : Cache) (now : Instant) : CacheCall → Except Fault Cache
  | .put k r span => c.put k r span now
  | .putRaw p i r => c.putRaw p i r now
  | .putCalculated r => c.putCalculated r now
  | .evict => .ok (c.evict now)

/-- The cache after a call, which is the cache before it if the call ends in a fault. -/
def after (c : Cache) (e : Instant × CacheCall) : Cache :=
  match c.call e.1 e.2 with
  | .ok c' => c'
  | .error _ => c

def run (c : Cache) (h : List (Instant × CacheCall)) : Cache := h.foldl after c

/-- A history without its evictions. -/
def puts (h : List (Instant × CacheCall)) : List (Instant × CacheCall) := h.filter fun e => e.2 ≠ .evict

/-- What a call leaves under a key, and its deadline. A put whose deadline the clock cannot have leaves
nothing. -/
def write? (ttl : Nat) (k : CacheKey) (e : Instant × CacheCall) : Option (CachedRate × Instant) := do
  let (key, r, span) ← e.2.put? ttl
  if key = k ∧ (e.1 + span) / 1000 < Instant.secondsBound then some (r, e.1 + span) else none

/-- What was put last under a key, unless its deadline is over. -/
def shown (ttl : Nat) (h : List (Instant × CacheCall)) (k : CacheKey) (t : Instant) : Option CachedRate := do
  let (r, due) ← (h.filterMap (write? ttl k)).getLast?
  if t < due then some r else none

/-! ## Single calls -/

theorem get?_insert (c : Cache) (k k' : CacheKey) (e : CacheEntry) (t : Instant) :
    (c.insert k' e).get? k t = if k' = k then if t < e.expiresAt then some e.rate else none else c.get? k t := by
  unfold get?
  rw [find?_insert]
  by_cases hk : k' = k
  · rw [if_pos hk.symm, if_pos hk]
    simp [CacheEntry.isLive]
  · rw [if_neg (Ne.symm hk), if_neg hk]

/-- An entry that is evicted is not live at any later time either. -/
theorem get?_evict (c : Cache) (k : CacheKey) (ht : now ≤ t) : (c.evict now).get? k t = c.get? k t := by
  unfold get?
  rw [find?_evict]
  cases c.find? k with
  | none => rfl
  | some e =>
    by_cases hlive : now < e.expiresAt
    · simp [Option.filter, CacheEntry.isLive, hlive]
    · have hdead : ¬ t < e.expiresAt := fun hlt => hlive (Nat.lt_of_le_of_lt ht hlt)
      simp [Option.filter, CacheEntry.isLive, hlive, hdead]

theorem put_eq (c : Cache) (k : CacheKey) (r : CachedRate) (span : Nat) (now : Instant) :
    c.put k r span now = (now.after span).map fun due => c.insert k ⟨r, due⟩ := by
  unfold put
  cases now.after span <;> rfl

/-- A call that puts something is a put under its key for its life span. -/
theorem call_eq_put {call : CacheCall} {r : CachedRate} {span : Nat} (hput : call.put? c.ttl = some (k, r, span))
    (now : Instant) : c.call now call = c.put k r span now := by
  cases call with
  | evict => cases hput
  | put _ _ _ => cases hput; rfl
  | putRaw _ _ _ => cases hput; rfl
  | putCalculated _ => cases hput; rfl

theorem ttl_after (c : Cache) (e : Instant × CacheCall) : (c.after e).ttl = c.ttl := by
  obtain ⟨now, call⟩ := e
  unfold after
  cases hput : call.put? c.ttl with
  | none =>
    cases call with
    | evict => rfl
    | put _ _ _ => cases hput
    | putRaw _ _ _ => cases hput
    | putCalculated _ => cases hput
  | some x =>
    obtain ⟨key, r, span⟩ := x
    rw [call_eq_put hput, put_eq]
    cases now.after span <;> rfl

/-- A call changes what is shown under the key that it puts something under, and nothing else. -/
theorem get?_after (c : Cache) (e : Instant × CacheCall) (k : CacheKey) (ht : e.1 ≤ t) :
    (c.after e).get? k t =
      match write? c.ttl k e with
      | some (r, due) => if t < due then some r else none
      | none => c.get? k t := by
  obtain ⟨now, call⟩ := e
  unfold after write?
  dsimp only
  cases hput : call.put? c.ttl with
  | none =>
    cases call with
    | evict => exact get?_evict c k ht
    | put _ _ _ => cases hput
    | putRaw _ _ _ => cases hput
    | putCalculated _ => cases hput
  | some x =>
    obtain ⟨key, r, span⟩ := x
    rw [call_eq_put hput, put_eq]
    cases hdue : now.after span with
    | error f =>
      have hover := (Instant.after_eq_error.1 hdue).1
      simp [Except.map, Nat.not_lt.2 hover]
    | ok due =>
      obtain ⟨hlt, rfl⟩ := Instant.after_eq_ok.1 hdue
      by_cases hkey : key = k
      · simp [Except.map, get?_insert, hkey, hlt]
      · simp [Except.map, get?_insert, hkey]

/-! ## Whole histories -/

theorem run_append (c : Cache) (h : List (Instant × CacheCall)) (e : Instant × CacheCall) :
    c.run (h ++ [e]) = (c.run h).after e := List.foldl_append

theorem ttl_run (c : Cache) (h : List (Instant × CacheCall)) : (c.run h).ttl = c.ttl := by
  induction h using List.reverseRecOn with
  | nil => rfl
  | append_singleton h e ih => rw [run_append, ttl_after, ih]

/-- A cache shows what was put last under a key, until its deadline. -/
theorem get?_run (k : CacheKey) (ht : ∀ e ∈ h, e.1 ≤ t) : ((empty ttl).run h).get? k t = shown ttl h k t := by
  induction h using List.reverseRecOn with
  | nil => rfl
  | append_singleton h e ih =>
    have hlast := ht e (List.mem_append_right h List.mem_cons_self)
    rw [run_append, get?_after _ _ _ hlast, ttl_run, ih fun x hx => ht x (List.mem_append_left [e] hx)]
    unfold shown
    rw [List.filterMap_append, List.filterMap_cons, List.filterMap_nil]
    show (match write? ttl k e with
      | some (r, due) => if t < due then some r else none
      | none => _) = _
    cases write? ttl k e with
    | none => rw [List.append_nil]
    | some w => rw [List.getLast?_concat]; rfl

theorem shown_puts (ttl : Nat) (h : List (Instant × CacheCall)) : shown ttl (puts h) = shown ttl h := by
  have hwrites : ∀ k, (puts h).filterMap (write? ttl k) = h.filterMap (write? ttl k) := by
    intro k
    rw [puts, List.filterMap_filter]
    congr 1
    funext e
    obtain ⟨now, call⟩ := e
    cases call <;> simp [write?, CacheCall.put?]
  funext k t
  unfold shown
  rw [hwrites k]

/-! ## Scans -/

def platforms (c : Cache) (i : String) (t : Instant) : List String :=
  (c.entries.map Prod.fst).filterMap fun
    | .raw p j => if j = i ∧ (c.getRaw? p i t).isSome then some p else none
    | .calculated _ => none

theorem nodup_platforms (c : Cache) (i : String) (t : Instant) : (c.platforms i t).Nodup := by
  refine c.nodup.filterMap fun k k' p hk hk' => ?_
  cases k with
  | calculated j => cases hk
  | raw q j =>
    cases k' with
    | calculated j' => cases hk'
    | raw q' j' =>
      simp only [Option.mem_def, Option.ite_none_right_eq_some, Option.some.injEq] at hk hk'
      obtain ⟨⟨rfl, -⟩, rfl⟩ := hk
      obtain ⟨⟨rfl, -⟩, rfl⟩ := hk'
      rfl

theorem mem_keys_of_getRaw? {r : Rate} (hr : c.getRaw? p i t = some r) : .raw p i ∈ c.entries.map Prod.fst := by
  by_contra hn
  unfold getRaw? get? find? at hr
  rw [lookup_eq_none.2 hn] at hr
  cases hr

theorem mem_platforms : p ∈ c.platforms i t ↔ (c.getRaw? p i t).isSome := by
  unfold platforms
  rw [List.mem_filterMap]
  constructor
  · rintro ⟨k, -, hk⟩
    cases k with
    | calculated j => cases hk
    | raw q j =>
      simp only [Option.ite_none_right_eq_some, Option.some.injEq] at hk
      obtain ⟨⟨-, hsome⟩, rfl⟩ := hk
      exact hsome
  · intro hsome
    obtain ⟨r, hr⟩ := Option.isSome_iff_exists.1 hsome
    exact ⟨.raw p i, mem_keys_of_getRaw? hr, by simp [hr]⟩

/-- A scan has the rate of each platform that shows one for the instrument. -/
theorem scan_eq (c : Cache) (i : String) (t : Instant) :
    c.scan i t = (c.platforms i t).filterMap fun p => c.getRaw? p i t := by
  unfold scan platforms
  rw [List.filterMap_filterMap, List.filterMap_map]
  refine List.filterMap_congr fun x hx => ?_
  obtain ⟨k, r, due⟩ := x
  cases k with
  | calculated j => exact scanned?_calculated j i t _
  | raw p j =>
    have hfind : c.find? (.raw p j) = some ⟨r, due⟩ := lookup_eq_some_of_mem c.nodup hx
    by_cases hj : j = i
    · subst hj
      have hget : c.getRaw? p j t = scanned? j t (.raw p j, ⟨r, due⟩) := by
        unfold getRaw? get?
        rw [hfind]
        cases r <;> by_cases hlive : t < due <;> simp [scanned?, CacheEntry.isLive, hlive]
      rw [← hget]
      cases hraw : c.getRaw? p j t <;> simp [hraw]
    · cases r <;> simp [scanned?, hj]

theorem scan_perm {c' : Cache} (hraw : ∀ p, c'.getRaw? p i t = c.getRaw? p i t) :
    (c'.scan i t).Perm (c.scan i t) := by
  have hplatforms : (c'.platforms i t).Perm (c.platforms i t) := by
    rw [List.perm_ext_iff_of_nodup (c'.nodup_platforms i t) (c.nodup_platforms i t)]
    intro p
    rw [mem_platforms, mem_platforms, hraw p]
  rw [scan_eq, scan_eq, funext hraw]
  exact hplatforms.filterMap _

/-! ## Evictions -/

theorem run_evict (d : Desk) (now : Now) :
    (Desk.evict now).run d =
      (.ok (d.cache.entries.filter fun e => ¬ e.2.isLive now.instant).length,
        { d with cache := d.cache.evict now.instant }) := by
  have hcount := List.length_eq_countP_add_countP (l := d.cache.entries) fun e => e.2.isLive now.instant
  rw [List.countP_eq_length_filter, List.countP_eq_length_filter] at hcount
  show (Except.ok (d.cache.entries.length - (d.cache.entries.filter fun e => e.2.isLive now.instant).length), _) = _
  rw [hcount, Nat.add_sub_cancel_left]

/-- **A cache shows what was put last, until its deadline.** After any history of puts, with any life
spans, and of evictions, at any time from then on: under each key the cache shows what was put there
last if its deadline is not reached, and nothing else; a scan has, in some order, the rate of every
platform that shows one for the instrument, once each; the same history with evictions made at other
times, or with none, shows the same; and an eviction tells how many entries were dead, and leaves the
others. A put whose deadline the clock cannot have stores nothing and counts as no put. -/
theorem run_shows_last_puts (ttl : Nat) (h : List (Instant × CacheCall)) (t : Instant) (ht : ∀ e ∈ h, e.1 ≤ t) :
    let c := (empty ttl).run h
    (∀ k, c.get? k t = shown ttl h k t) ∧
    (∀ i, ∃ ps : List String, ps.Nodup ∧ (∀ p, p ∈ ps ↔ (c.getRaw? p i t).isSome) ∧
      (c.scan i t).Perm (ps.filterMap fun p => c.getRaw? p i t)) ∧
    (∀ h', (∀ e ∈ h', e.1 ≤ t) → puts h' = puts h →
      (∀ k, ((empty ttl).run h').get? k t = c.get? k t) ∧
      (∀ p i, ((empty ttl).run h').getRaw? p i t = c.getRaw? p i t) ∧
      (∀ i, ((empty ttl).run h').getCalculated? i t = c.getCalculated? i t) ∧
      ∀ i, (((empty ttl).run h').scan i t).Perm (c.scan i t)) ∧
    ∀ (d : Desk) (now : Now), d.cache = c → ∃ n d', (Desk.evict now).run d = (.ok n, d') ∧
      n = (c.entries.filter fun e => ¬ now.instant < e.2.expiresAt).length ∧
      d'.cache.entries = c.entries.filter fun e => now.instant < e.2.expiresAt := by
  intro c
  refine ⟨fun k => get?_run k ht, fun i => ?_, fun h' ht' hputs => ?_, fun d now hd => ?_⟩
  · exact ⟨c.platforms i t, c.nodup_platforms i t, fun p => mem_platforms, List.Perm.of_eq (scan_eq c i t)⟩
  · have hget : ∀ k, ((empty ttl).run h').get? k t = c.get? k t := by
      intro k
      rw [get?_run k ht', get?_run k ht, ← shown_puts ttl h', hputs, shown_puts]
    have hraw : ∀ p i, ((empty ttl).run h').getRaw? p i t = c.getRaw? p i t := by
      intro p i
      rw [getRaw?, hget]
      rfl
    refine ⟨hget, hraw, fun i => ?_, fun i => scan_perm fun p => hraw p i⟩
    rw [getCalculated?, hget]
    rfl
  · refine ⟨_, _, run_evict d now, ?_, ?_⟩
    · rw [hd]
      simp only [CacheEntry.isLive, decide_eq_true_eq]
    · rw [hd]
      rfl

/-- A put for long, then one for less in its place, and an eviction between their deadlines. -/
def overwritten : List (Instant × CacheCall) :=
  [(0, .put (.calculated "USDTRY") (.calculated ⟨"USDTRY", .two, .two, ⟨0, 0⟩⟩) 100),
    (10, .put (.calculated "USDTRY") (.calculated ⟨"USDTRY", .zero, .two, ⟨0, 0⟩⟩) 5), (20, .evict)]

theorem run_shows_last_puts_overwritten :
    (∀ e ∈ overwritten, e.1 ≤ 20) ∧ shown 1800 (overwritten.take 1) (.calculated "USDTRY") 20 ≠ none ∧
      ((empty 1800).run overwritten).get? (.calculated "USDTRY") 20 = none := by
  have ht : ∀ e ∈ overwritten, e.1 ≤ 20 := by decide
  exact ⟨ht, by decide, ((run_shows_last_puts 1800 overwritten 20 ht).1 _).trans rfl⟩

end Cache

end RateDesk
