import Mathlib.Data.List.Induction
import RateDesk.Proofs.Desk.Moderate
import RateDesk.Proofs.Desk.Quote

/-!
# What a desk shows is what it published last

* `Message.key`, `Message.stored` : where a published rate is stored, and as what;
* `Issued`, `lastIssued` : messages with the times at which they were published, and the last one for a key;
* `Desk.Runs` : a desk that gets calls, with what it has published so far;
* `get?_foldl_insert` : what a cache shows after several rates are stored at once;
* `run_shows_last_message` : each key shows the last message for it until its time to live is over.
-/

namespace RateDesk

namespace Message

def key : Message → CacheKey
  | raw p r => .raw p r.instrument
  | calculated x => .calculated x.instrument

def stored : Message → CachedRate
  | raw _ r => .raw r
  | calculated x => .calculated x

end Message

/-- A message, and the reading of the clock at which it was published. -/
structure Issued where
  time : Instant
  message : Message

/-- The last message for a key. -/
def lastIssued (log : List Issued) (k : CacheKey) : Option Issued := (log.filter fun x => x.message.key = k).getLast?

/-- What a message lets a reader see, `ttl` seconds long. -/
def Issued.shown (ttl : Nat) (t : Instant) (x : Issued) : Option CachedRate :=
  if t < x.time + ttl * 1000 then some x.message.stored else none

/-- Whether the rate of a call is a rate for the instrument of the call. -/
def DeskCall.Matches : DeskCall → Prop
  | first _ i r => r.instrument = i
  | update _ i r => r.instrument = i
  | evict => True

/-! ## Several rates at once -/

/-- A cache shows the last of several rates under its key; the other keys show what they did. -/
theorem Cache.get?_foldl_insert (c : Cache) (due : Instant) (rates : List (CacheKey × CachedRate)) (k : CacheKey)
    (t : Instant) :
    (rates.foldl (fun c p => c.insert p.1 ⟨p.2, due⟩) c).get? k t =
      match (rates.filter fun p => p.1 = k).getLast? with
      | some p => if t < due then some p.2 else none
      | none => c.get? k t := by
  induction rates using List.reverseRecOn with
  | nil => rfl
  | append_singleton rates p ih =>
    rw [List.foldl_append, List.foldl_cons, List.foldl_nil, Cache.get?_insert, ih]
    by_cases hk : p.1 = k
    · simp [List.filter_append, hk]
    · simp [List.filter_append, hk]

namespace Desk

variable {d d' : Desk} {der : Derivation} {now : Now} {ttl : Nat} {clock t : Instant} {log : List Issued}
  {c : DeskCall} {o : Option UpdateOutcome} {k : CacheKey}

/-! ## Single calls -/

/-- Whatever a desk publishes it stores as well. -/
theorem Dealt.changed {due : Instant} {p i : String} {r : Rate} (h : d.Dealt due p i r d') (hr : r.instrument = i) :
    ∃ ms ss, d.Changed d' due ms (ms.map fun m => (m.key, m.stored)) ss := by
  cases h with
  | taken rs h =>
    refine ⟨.raw p r :: rs.map .calculated, rs.map fun x => .calculated x.instrument, ?_⟩
    rw [List.map_cons, List.map_map, Message.key, hr]
    exact h
  | rejected h => exact ⟨[], _, h⟩

theorem changed_or_evicted (hc : c.Matches) (hrun : (c.run der now).run d = (.ok o, d')) :
    (∃ ms ss, d.Changed d' (d.expiry now) ms (ms.map fun m => (m.key, m.stored)) ss) ∨
      d' = { d with cache := d.cache.evict now.instant } := by
  cases c with
  | first p i r =>
    obtain ⟨_, d₁, hfirst, hrest⟩ := run_bind_eq_ok hrun
    cases hrest
    exact Or.inl ((dealt_first hfirst).changed hc)
  | update p i r =>
    obtain ⟨_, d₁, hupdate, hrest⟩ := run_bind_eq_ok hrun
    cases hrest
    exact Or.inl ((dealt_update hupdate).changed hc)
  | evict =>
    rw [DeskCall.run, run_bind_ok (Cache.run_evict d now)] at hrun
    cases hrun
    exact Or.inr rfl

/-! ## Runs -/

/-- A desk that began with nothing and got calls at times that never go back, none of which ended in a
fault; and what it has published so far, oldest first. -/
inductive Runs (ttl : Nat) (der : Derivation) : Instant → List Issued → Desk → Prop where
  | start (clock : Instant) : Runs ttl der clock [] (Desk.empty ttl)
  | call {clock : Instant} {log : List Issued} {d d' : Desk} {o : Option UpdateOutcome} (now : Now) (c : DeskCall)
    (ms : List Message) : Runs ttl der clock log d → clock ≤ now.instant → c.Matches →
    (c.run der now).run d = (.ok o, d') → d'.published = d.published ++ ms →
    Runs ttl der now.instant (log ++ ms.map fun m => ⟨now.instant, m⟩) d'

theorem ttl_foldl_insert (due : Instant) (rates : List (CacheKey × CachedRate)) (c : Cache) :
    (rates.foldl (fun c p => c.insert p.1 ⟨p.2, due⟩) c).ttl = c.ttl := by
  induction rates generalizing c with
  | nil => rfl
  | cons p rates ih => exact ih _

/-- What holds of a desk and its messages between two calls. -/
structure Shows (ttl : Nat) (clock : Instant) (log : List Issued) (d : Desk) : Prop where
  ttl_eq : d.cache.ttl = ttl
  published : log.map Issued.message = d.published
  get? : ∀ k t, clock ≤ t → d.cache.get? k t = (lastIssued log k).bind (Issued.shown ttl t)

theorem shows_empty (ttl : Nat) (clock : Instant) : Shows ttl clock [] (Desk.empty ttl) :=
  ⟨rfl, rfl, fun _ _ _ => rfl⟩

theorem lastIssued_append (log : List Issued) (now : Instant) (ms : List Message) (k : CacheKey) :
    lastIssued (log ++ ms.map fun m => ⟨now, m⟩) k =
      (((ms.filter fun m => m.key = k).getLast?).map fun m => (⟨now, m⟩ : Issued)).or (lastIssued log k) := by
  unfold lastIssued
  rw [List.filter_append, List.getLast?_append, List.filter_map, List.getLast?_map]
  rfl

theorem Shows.changed {ms : List Message} {ss : List Series} (h : Shows ttl clock log d) (hle : clock ≤ now.instant)
    (hd : d.Changed d' (d.expiry now) ms (ms.map fun m => (m.key, m.stored)) ss) :
    Shows ttl now.instant (log ++ ms.map fun m => ⟨now.instant, m⟩) d' where
  ttl_eq := by rw [hd.cache, ttl_foldl_insert, h.ttl_eq]
  published := by
    rw [hd.published, List.map_append, h.published, List.map_map]
    exact congrArg _ (List.map_id' ms)
  get? k t ht := by
    rw [hd.cache, Cache.get?_foldl_insert, h.get? k t (hle.trans ht), lastIssued_append, List.filter_map,
      List.getLast?_map, expiry, h.ttl_eq]
    show (match ((ms.filter fun m => m.key = k).getLast?).map fun m => (m.key, m.stored) with
      | some p => _
      | none => _) = _
    cases (ms.filter fun m => m.key = k).getLast? with
    | none => rfl
    | some m => rfl

theorem Shows.evict (h : Shows ttl clock log d) (hle : clock ≤ now.instant) :
    Shows ttl now.instant log { d with cache := d.cache.evict now.instant } where
  ttl_eq := h.ttl_eq
  published := h.published
  get? k t ht := (Cache.get?_evict d.cache k ht).trans (h.get? k t (hle.trans ht))

theorem Runs.shows (h : Runs ttl der clock log d) : Shows ttl clock log d := by
  induction h with
  | start clock => exact shows_empty ttl clock
  | call now c ms _ hle hc hrun hms ih =>
    rcases changed_or_evicted hc hrun with ⟨ms', ss, hd⟩ | rfl
    · obtain rfl : ms' = ms := List.append_cancel_left (hd.published.symm.trans hms)
      exact ih.changed hle hd
    · obtain rfl : [] = ms := List.append_cancel_left ((List.append_nil _).trans hms)
      rw [List.map_nil, List.append_nil]
      exact ih.evict hle

/-! ## The last message -/

theorem key_of_lastIssued {x : Issued} (h : lastIssued log k = some x) : x.message.key = k := by
  simpa using (List.mem_filter.1 (List.mem_of_getLast? h)).2

theorem raw_of_lastIssued {x : Issued} {p i : String} (h : lastIssued log (.raw p i) = some x) :
    ∃ r : Rate, x.message = .raw p r := by
  have hkey := key_of_lastIssued h
  cases hm : x.message with
  | raw q r =>
    rw [hm] at hkey
    cases hkey
    exact ⟨r, rfl⟩
  | calculated y =>
    rw [hm] at hkey
    cases hkey

theorem calculated_of_lastIssued {x : Issued} {i : String} (h : lastIssued log (.calculated i) = some x) :
    ∃ y : CalculatedRate, x.message = .calculated y := by
  have hkey := key_of_lastIssued h
  cases hm : x.message with
  | raw q r =>
    rw [hm] at hkey
    cases hkey
  | calculated y => exact ⟨y, rfl⟩

/-- A live entry has the rate of the last message for its key. -/
theorem Shows.rate_eq (h : Shows ttl clock log d) (ht : clock ≤ t) {e : CacheEntry} (he : (k, e) ∈ d.cache.entries)
    (hlive : e.isLive t = true) : ∃ x, lastIssued log k = some x ∧ e.rate = x.message.stored := by
  have hget : d.cache.get? k t = some e.rate := by
    have hfind : d.cache.find? k = some e := lookup_eq_some_of_mem d.cache.nodup he
    unfold Cache.get?
    rw [hfind]
    exact if_pos hlive
  rw [h.get? k t ht, Option.bind_eq_some_iff] at hget
  obtain ⟨x, hx, hshown⟩ := hget
  unfold Issued.shown at hshown
  split at hshown
  · exact ⟨x, hx, (Option.some.inj hshown).symm⟩
  · cases hshown

/-- **A desk shows what it published last.** After any first quotes, updates and evictions, at any times
that never go back, whatever was derived, rejected or overwritten: a live entry has the rate of the last
message for its platform and instrument, or for its calculated rate; and whoever reads such a rate gets
the one of that message until its time to live is over, and nothing from then on. -/
theorem runs_show_last_message (h : Runs ttl der clock log d) (ht : clock ≤ t) :
    log.map Issued.message = d.published ∧
    (∀ p i e, (.raw p i, e) ∈ d.cache.entries → e.isLive t = true →
      ∃ x r, lastIssued log (.raw p i) = some x ∧ x.message = .raw p r ∧ e.rate = .raw r) ∧
    (∀ i e, (.calculated i, e) ∈ d.cache.entries → e.isLive t = true →
      ∃ x y, lastIssued log (.calculated i) = some x ∧ x.message = .calculated y ∧ e.rate = .calculated y) ∧
    (∀ p i x r, lastIssued log (.raw p i) = some x → x.message = .raw p r →
      d.cache.getRaw? p i t = if t < x.time + ttl * 1000 then some r else none) ∧
    ∀ i x y, lastIssued log (.calculated i) = some x → x.message = .calculated y →
      d.cache.getCalculated? i t = if t < x.time + ttl * 1000 then some y else none := by
  have hshows := h.shows
  refine ⟨hshows.published, fun p i e he hlive => ?_, fun i e he hlive => ?_, fun p i x r hx hm => ?_,
    fun i x y hx hm => ?_⟩
  · obtain ⟨x, hx, hrate⟩ := hshows.rate_eq ht he hlive
    obtain ⟨r, hm⟩ := raw_of_lastIssued hx
    exact ⟨x, r, hx, hm, hrate.trans (congrArg Message.stored hm)⟩
  · obtain ⟨x, hx, hrate⟩ := hshows.rate_eq ht he hlive
    obtain ⟨y, hm⟩ := calculated_of_lastIssued hx
    exact ⟨x, y, hx, hm, hrate.trans (congrArg Message.stored hm)⟩
  · unfold Cache.getRaw?
    rw [hshows.get? _ t ht, hx, Option.bind_some, Issued.shown, hm]
    by_cases hlt : t < x.time + ttl * 1000
    · rw [if_pos hlt, if_pos hlt]
      rfl
    · rw [if_neg hlt, if_neg hlt]
  · unfold Cache.getCalculated?
    rw [hshows.get? _ t ht, hx, Option.bind_some, Issued.shown, hm]
    by_cases hlt : t < x.time + ttl * 1000
    · rw [if_pos hlt, if_pos hlt]
      rfl
    · rw [if_neg hlt, if_neg hlt]

def heldOnce : Desk := (empty 1800).stored 1800000 "TCP" "USDTRY" (tenths "USDTRY" 320 324)

def wider : Rate := tenths "USDTRY" 319 325

theorem runs_show_last_message_overwritten :
    ∃ log d, Runs 1800 .standard 5 log d ∧ d.published.length = 3 ∧
      d.cache.getRaw? "TCP" "USDTRY" 1800004 = some wider ∧ d.cache.getRaw? "TCP" "USDTRY" 1800005 = none ∧
      d.cache.getCalculated? "USDTRY" 1800004 = some ⟨"USDTRY", wider.bid, wider.ask, ⟨0, 0⟩⟩ := by
  have hdue : Instant.after 0 1800000 = .ok 1800000 := Instant.after_eq_ok.2 ⟨by decide, rfl⟩
  have hdue' : Instant.after 5 1800000 = .ok 1800005 := Instant.after_eq_ok.2 ⟨by decide, rfl⟩
  have hfirst : ((DeskCall.first "TCP" "USDTRY" (tenths "USDTRY" 320 324)).run .standard ⟨0, ⟨0, 0⟩⟩).run
      (Desk.empty 1800) = (.ok none, heldOnce) := by
    rw [DeskCall.run, first, run_bind_ok (run_storeRaw "TCP" "USDTRY" _ hdue)]
    rfl
  have hv : heldOnce.verdict ⟨5, ⟨0, 0⟩⟩ "USDTRY" wider = .ok (some true) := by rfl
  have hrs : (heldOnce.stored 1800005 "TCP" "USDTRY" wider).cache.derived .standard ⟨5, ⟨0, 0⟩⟩ "USDTRY" =
      .ok [⟨"USDTRY", wider.bid, wider.ask, ⟨0, 0⟩⟩] := by rfl
  have hupdate : ((DeskCall.update "TCP" "USDTRY" wider).run .standard ⟨5, ⟨0, 0⟩⟩).run heldOnce =
      (.ok (some .accepted), (heldOnce.stored 1800005 "TCP" "USDTRY" wider).recordedAll 1800005
        [⟨"USDTRY", wider.bid, wider.ask, ⟨0, 0⟩⟩]) := by
    rw [DeskCall.run, run_bind_ok (run_update_accepted (scan_ne_nil_of_verdict hv) hv hdue' hrs)]
    rfl
  have hruns := ((Runs.start 0).call _ (.first "TCP" "USDTRY" (tenths "USDTRY" 320 324)) [.raw "TCP" _]
    (Nat.le_refl 0) rfl hfirst rfl).call ⟨5, ⟨0, 0⟩⟩ (.update "TCP" "USDTRY" wider)
    [.raw "TCP" wider, .calculated ⟨"USDTRY", wider.bid, wider.ask, ⟨0, 0⟩⟩] (by decide) rfl hupdate rfl
  have hread := fun t ht => (runs_show_last_message (t := t) hruns ht).2.2.2.1 "TCP" "USDTRY" _ _ rfl rfl
  have hshown := (runs_show_last_message (t := 1800004) hruns (by decide)).2.2.2.2 "USDTRY" _ _ rfl rfl
  exact ⟨_, _, hruns, rfl, (hread 1800004 (by decide)).trans (if_pos (by decide)),
    (hread 1800005 (by decide)).trans (if_neg (by decide)), hshown.trans (if_pos (by decide))⟩

end Desk

end RateDesk
