import RateDesk.Proofs.Coordinator.Run
import RateDesk.Proofs.Desk.Interruption
import RateDesk.Proofs.Settings.Validation

/-!
# Deadlines that the clock cannot have

A rate is stored up to a deadline, and a lost connection is tried again at one. Validation asks of the two
delays that they are not zero, and sets no bound to them.

* `Desk.Stores`, `Post.handQuote_deadline` : a desk that has to store a quote stops there if its deadline overruns;
* `Worker.Puts`, `Worker.Arms`, `Post.deed_deadline` : the worker ends with this fault when a quote has to be
  stored or the retry timer has to be armed, and at no other time;
* `Settings.validate_withDelays` : any delays but zero are accepted;
* `Coordinator.ttl_run`, `Coordinator.delaySecs_run` : workers keep the delays of the settings all along;
* `Coordinator.run_deadlines`, `Coordinator.run_overruns` : so accepted settings may end workers, and when they do.
-/

namespace RateDesk

/-! ## Desks -/

namespace Desk

variable {d : Desk} {der : Derivation} {now : Now} {due : Instant} {p i : String} {r : Rate} {e : Fault}

/-- A quote has to be stored: it is the first of its platform, or it has no peers, or it agrees with them. -/
def Stores (d : Desk) (now : Now) (isFirst : Bool) (i : String) (r : Rate) : Prop :=
  isFirst = true ∨ d.cache.scan i now.instant = [] ∨ d.verdict now i r = .ok (some true)

theorem run_first_deadline (d : Desk) (now : Now) (p i : String) (r : Rate) :
    ((first now p i r).run d).1 = .error .deadline ↔ now.instant.Overruns d.cache.ttl := by
  unfold first
  cases hdue : now.instant.after (d.cache.ttl * 1000) with
  | ok due =>
    rw [run_storeRaw p i r hdue]
    exact ⟨nofun, fun hover => absurd hover (Instant.not_overruns hdue)⟩
  | error f =>
    obtain ⟨hover, rfl⟩ := Instant.after_seconds_eq_error.1 hdue
    rw [run_storeRaw_error p i r hdue]
    exact ⟨fun _ => hover, fun _ => rfl⟩

/-- Deriving has no faults but those of decimals, once the clock has the deadline. -/
theorem run_derive_isOverflow (hdue : now.instant.after (d.cache.ttl * 1000) = .ok due)
    (h : ((derive der now i).run d).1 = .error e) : e.IsOverflow := by
  rcases forall_ok_or_first_error (d.cache.derivations der now i) with ⟨os, hos⟩ | ⟨os, f, rest, hos⟩
  · rw [run_derive hdue (Cache.derived_of_derivations hos)] at h
    cases h
  · rw [run_derive_stopped hdue hos] at h
    cases h
    exact Cache.derivations_error (by rw [hos]; simp)

/-- Once the clock has the deadline of what is stored, an update has no faults but those of decimals. -/
theorem run_update_isOverflow (hdue : now.instant.after (d.cache.ttl * 1000) = .ok due)
    (h : ((update der now p i r).run d).1 = .error e) : e.IsOverflow := by
  cases hv : d.verdict now i r with
  | error f =>
    rw [run_update_verdict_error hv] at h
    cases h
    exact Consensus.isValid_error hv
  | ok v =>
    by_cases hlive : d.cache.scan i now.instant = []
    · rw [run_update_seeded hlive hdue] at h
      cases h
    · by_cases htrue : v = some true
      · subst htrue
        rw [run_update_accepting hlive hv, run_bind_ok (run_storeRaw p i r hdue)] at h
        rcases hderive : (derive der now i).run (d.stored due p i r) with ⟨f | _, d₁⟩
        · rw [run_bind_error hderive] at h
          cases h
          exact run_derive_isOverflow (d := d.stored due p i r) hdue (congrArg Prod.fst hderive)
        · rw [run_bind_ok hderive] at h
          cases h
      · rw [run_update_rejected hlive hv htrue] at h
        cases h

theorem run_update_deadline (d : Desk) (der : Derivation) (now : Now) (p i : String) (r : Rate) :
    ((update der now p i r).run d).1 = .error .deadline ↔
      d.Stores now false i r ∧ now.instant.Overruns d.cache.ttl := by
  cases hdue : now.instant.after (d.cache.ttl * 1000) with
  | ok due =>
    exact ⟨fun h => absurd rfl (run_update_isOverflow hdue h), fun h => absurd h.2 (Instant.not_overruns hdue)⟩
  | error f =>
    obtain ⟨hover, rfl⟩ := Instant.after_seconds_eq_error.1 hdue
    simp only [Stores, Bool.false_eq_true, false_or, hover, and_true]
    refine ⟨fun h => ?_, fun hstores => congrArg Prod.fst (run_update_unstored hstores hdue)⟩
    by_contra hstores
    rw [not_or] at hstores
    cases hv : d.verdict now i r with
    | error f =>
      rw [run_update_verdict_error hv] at h
      cases h
      exact Consensus.isValid_error hv rfl
    | ok v =>
      rw [run_update_rejected hstores.1 hv fun htrue => hstores.2 (htrue ▸ hv)] at h
      cases h

end Desk

/-! ## Posts -/

/-- An effect that cannot end in a fault. -/
def Effect.isSafe : Effect → Bool
  | .quote _ _ _ => false
  | .halt _ => false
  | _ => true

/-- An event has a quote stored: it brings one, in a state that takes quotes, and the desk does not turn it away. -/
def Worker.Puts (w : Worker) (d : Desk) (now : Now) (e : VenueEvent) : Prop :=
  w.state.acceptsRates = true ∧ ∃ first i r, e.quote? = some (first, i, r) ∧ d.Stores now first i r

/-- An event has the retry timer armed: it is a loss that the worker did not count yet, and an attempt is left. -/
def Worker.Arms (w : Worker) (e : VenueEvent) : Prop :=
  e.isLoss = true ∧ ¬ (w.state = .disconnected ∨ w.state = .failed) ∧ w.retry.exhausted = false

namespace Post

variable {σ : Type} {d : Derivation} {now : Now} {p : Post σ} {s : Shared} {a : Deed σ} {name i : String} {r : Rate}
  {isFirst : Bool} {w : Worker} {e : VenueEvent}

/-- The fault of a quote is that of the desk, once the quote is counted. -/
theorem handQuote_deadline :
    (handQuote d now name isFirst i r s).2 = some .deadline ↔
      s.desk.Stores now isFirst i r ∧ now.instant.Overruns s.desk.cache.ttl := by
  let counted : Desk := { s.desk with metrics := s.desk.metrics.count (.received name isFirst) }
  unfold handQuote
  simp only [Desk.run_bind_ok (Desk.run_count _ _)]
  cases isFirst with
  | true =>
    have hfirst := Desk.run_first_deadline counted now name i r
    simp only [if_true]
    rw [Desk.Stores, eq_self, true_or, true_and, ← hfirst]
    split
    · rename_i hrun
      simp [counted, hrun]
    · rename_i hrun
      simp [counted, hrun]
  | false =>
    have hupdate := Desk.run_update_deadline counted d now name i r
    simp only [Bool.false_eq_true, if_false]
    refine Iff.trans ?_ hupdate
    rcases hrun : (Desk.update d now name i r).run counted with ⟨f | o, d₁⟩
    · rw [Desk.run_bind_error hrun]
      simp
    · rw [Desk.run_bind_ok hrun]
      exact ⟨nofun, nofun⟩

variable [Venue σ]

theorem performAll_of_safe {es : List Effect} (h : ∀ x ∈ es, x.isSafe = true) :
    (performAll d now p s es).fault = none := by
  induction es generalizing p s with
  | nil => rfl
  | cons x es ih =>
    have hfirst : (perform d now p s x).fault = none := by
      cases x with
      | quote first i r => cases h _ List.mem_cons_self
      | halt f => cases h _ List.mem_cons_self
      | _ => rfl
    unfold performAll
    dsimp only
    rw [hfirst]
    exact ih fun y hy => h y (List.mem_cons_of_mem _ hy)

theorem deed_fault_of_none (hdec : p.decision? now.instant a = none) : (p.deed d now s a).fault = none := by
  rw [deed_eq, hdec]
  rfl

theorem deed_fault_of_some {decision : Worker × List Effect} (hdec : p.decision? now.instant a = some decision) :
    (p.deed d now s a).fault = (performAll d now { p.made a with worker := decision.1 } s decision.2).fault := by
  rw [deed_eq, hdec]
  unfold apply
  dsimp only
  split <;> rfl

theorem performAll_single (x : Effect) : (performAll d now p s [x]).fault = (perform d now p s x).fault := by
  unfold performAll
  dsimp only
  split
  · rfl
  · rename_i hnone
    exact hnone.symm

theorem fault_begin : (performAll d now p s w.begin.2).fault = none :=
  performAll_of_safe (by simp [Worker.begin, Effect.isSafe])

theorem fault_onConnected (d : Derivation) (now : Now) (p : Post σ) (s : Shared) (w : Worker) :
    (performAll d now p s w.onConnected.2).fault = none := by
  refine performAll_of_safe fun x hx => ?_
  unfold Worker.onConnected at hx
  split at hx
  · cases hx
  · simp only [List.cons_append, List.mem_cons, List.mem_append, List.mem_map, List.not_mem_nil, or_false] at hx
    rcases hx with rfl | ⟨i, -, rfl⟩ | rfl
    · rfl
    · rfl
    · rfl

theorem fault_onLost (he : e.isLoss = true) :
    (performAll d now p s (w.onLost now.instant).2).fault = some .deadline ↔
      w.Arms e ∧ now.instant.Overruns w.retry.delaySecs := by
  unfold Worker.onLost Worker.Arms
  by_cases hstate : w.state = .disconnected ∨ w.state = .failed
  · rw [if_pos hstate]
    exact ⟨nofun, fun h => absurd hstate h.1.2.1⟩
  · rw [if_neg hstate]
    cases hlimit : w.retry.exhausted with
    | true => exact ⟨nofun, fun h => by cases h.1.2.2⟩
    | false =>
      simp only [Bool.false_eq_true, if_false, he, hstate, not_false_eq_true, and_true, true_and]
      rw [RetryState.delay]
      cases hdue : now.instant.after (w.retry.delaySecs * 1000) with
      | ok due => exact ⟨nofun, fun hover => absurd hover (Instant.not_overruns hdue)⟩
      | error f =>
        obtain ⟨hover, rfl⟩ := Instant.after_seconds_eq_error.1 hdue
        exact ⟨fun _ => hover, fun _ => rfl⟩

theorem fault_onQuote {first : Bool} (he : e.quote? = some (first, i, r)) :
    (performAll d now p s (w.onQuote first i r).2).fault = some .deadline ↔
      w.Puts s.desk now e ∧ now.instant.Overruns s.desk.cache.ttl := by
  unfold Worker.onQuote Worker.Puts
  cases hstate : w.state.acceptsRates with
  | false => exact ⟨nofun, fun h => by cases h.1.1⟩
  | true =>
    rw [if_pos rfl, performAll_single]
    refine handQuote_deadline.trans (and_congr_left fun _ => ⟨fun h => ⟨rfl, first, i, r, he, h⟩, fun h => ?_⟩)
    obtain ⟨-, first', i', r', he', h⟩ := h
    rw [he] at he'
    cases he'
    exact h

/-- An event ends the worker for a deadline when it needs one that the clock cannot have. -/
theorem fault_onEvent (d : Derivation) (now : Now) (p : Post σ) (s : Shared) (w : Worker) (e : VenueEvent) :
    (performAll d now p s (w.onEvent now.instant e).2).fault = some .deadline ↔
      (w.Puts s.desk now e ∧ now.instant.Overruns s.desk.cache.ttl) ∨
        (w.Arms e ∧ now.instant.Overruns w.retry.delaySecs) := by
  have hputs (hnone : e.quote? = none) : ¬ w.Puts s.desk now e := by
    rintro ⟨-, first, i, r, hquote, -⟩
    rw [hnone] at hquote
    cases hquote
  have harms (hkept : e.isLoss = false) : ¬ w.Arms e := by
    rintro ⟨hloss, -⟩
    rw [hkept] at hloss
    cases hloss
  cases e with
  | connected ok =>
    cases ok with
    | true =>
      simp [Worker.onEvent, fault_onConnected, hputs rfl, harms rfl]
    | false => exact (fault_onLost (e := .connected false) rfl).trans (by simp [hputs rfl])
  | disconnected => exact (fault_onLost (e := .disconnected) rfl).trans (by simp [hputs rfl])
  | available i r => exact (fault_onQuote (e := .available i r) rfl).trans (by simp [harms rfl])
  | update i r => exact (fault_onQuote (e := .update i r) rfl).trans (by simp [harms rfl])

/-- Only an event can end a worker. -/
theorem deed_fault_of_ne (ha : a ≠ .handle) : (p.deed d now s a).fault = none := by
  cases hdec : p.decision? now.instant a with
  | none => exact deed_fault_of_none hdec
  | some decision =>
    rw [deed_fault_of_some hdec]
    obtain ⟨-, -, rfl⟩ | ⟨-, i, hi, rfl⟩ := decision?_cases hdec
    · exact fault_begin
    · cases a with
      | handle => exact absurd rfl ha
      | unsubscribe j =>
        cases hi
        exact performAll_of_safe (by simp [Worker.step, Worker.onUnsubscribe, Effect.isSafe])
      | retry =>
        simp only [input?, Option.ite_none_right_eq_some, Option.some.injEq] at hi
        obtain ⟨-, rfl⟩ := hi
        exact fault_begin
      | begin => cases hi
      | dial => cases hi
      | report e => cases hi
      | change f => cases hi
      | stop => cases hi

/-- When a worker ends for a deadline that the clock cannot have. -/
theorem deed_deadline (d : Derivation) (now : Now) (p : Post σ) (s : Shared) (a : Deed σ) :
    (p.deed d now s a).fault = some .deadline ↔
      p.phase = .running ∧ a = .handle ∧ ∃ e, p.inbox.head? = some e ∧
        ((p.worker.Puts s.desk now e ∧ now.instant.Overruns s.desk.cache.ttl) ∨
          (p.worker.Arms e ∧ now.instant.Overruns p.worker.retry.delaySecs)) := by
  by_cases ha : a = .handle
  · subst ha
    by_cases hphase : p.phase = .running
    · cases hq : p.inbox.head? with
      | none =>
        have hdec : p.decision? now.instant .handle = none := by simp [decision?, input?, hq]
        rw [deed_fault_of_none hdec]
        simp
      | some e =>
        have hdec : p.decision? now.instant .handle = some (p.worker.onEvent now.instant e) := by
          simp [decision?, input?, hphase, hq, Worker.step]
        rw [deed_fault_of_some hdec, fault_onEvent]
        simp [hphase]
    · have hdec : p.decision? now.instant .handle = none := by simp [decision?, hphase]
      rw [deed_fault_of_none hdec]
      simp [hphase]
  · rw [deed_fault_of_ne ha]
    simp [ha]

theorem deed_ttl (d : Derivation) (now : Now) (p : Post σ) (s : Shared) (a : Deed σ) :
    (p.deed d now s a).shared.desk.cache.ttl = s.desk.cache.ttl := by
  apply deed_shared (I := fun s' _ => s'.desk.cache.ttl = s.desk.cache.ttl) d now p a ?_ rfl
  intro q s' e _ _ hs'
  cases e with
  | quote first i r => exact (spares_handQuote d now q.worker.platform first i r s').ttl.trans hs'
  | _ => exact hs'

theorem deed_delaySecs (d : Derivation) (now : Now) (p : Post σ) (s : Shared) (a : Deed σ) :
    (p.deed d now s a).post.worker.retry.delaySecs = p.worker.retry.delaySecs := by
  rw [deed_worker]
  cases hdec : p.decision? now.instant a with
  | none => rfl
  | some decision =>
    obtain ⟨-, -, rfl⟩ | ⟨-, i, -, rfl⟩ := decision?_cases hdec
    · rfl
    · have hretry := (Worker.move_step p.worker now.instant i).retry_eq
      show (p.worker.step now.instant i).1.retry.delaySecs = _
      rw [hretry]

end Post

/-! ## Settings -/

namespace Settings

variable {s : Settings}

def withDelays (s : Settings) (ttlSecs delaySecs : UInt64) : Settings :=
  { s with cache := { s.cache with ttlSecs := ttlSecs }, retry := { s.retry with delaySecs := delaySecs } }

/-- Validation asks of the delays that they are not zero, and nothing else. -/
theorem validate_withDelays (hs : s.validate = .ok ()) {ttlSecs delaySecs : UInt64} (httl : ttlSecs ≠ 0)
    (hdelay : delaySecs ≠ 0) : (s.withDelays ttlSecs delaySecs).validate = .ok () := by
  obtain ⟨hsome, hnamed, hdistinct, hmark, hread, hpoll, hwatched, -, -, hinterval⟩ := validate_eq_ok.1 hs
  exact validate_eq_ok.2 ⟨hsome, hnamed, hdistinct, hmark, hread, hpoll, hwatched, UInt64.pos_iff_ne_zero.2 hdelay,
    UInt64.pos_iff_ne_zero.2 httl, hinterval⟩

end Settings

/-! ## Runs -/

namespace Coordinator

variable {σ : Type} [Venue σ] {c : Coordinator σ} {s : Settings} {build : PlatformSettings → Except Failure σ}
  {time : Timestamp} {n : Nat} {p : Post σ}

theorem ttl_run (as : List (Action σ)) : (c.run as).shared.desk.cache.ttl = c.shared.desk.cache.ttl := by
  induction as generalizing c with
  | nil => rfl
  | cons x as ih =>
    refine (ih (c := c.after x)).trans ?_
    cases x with
    | sweep now => rfl
    | post n now a =>
      cases hp : c.posts[n]? with
      | none => rw [after_post_none hp]
      | some p =>
        rw [after_post hp]
        exact Post.deed_ttl c.derivation now p c.shared a

theorem delaySecs_run (hc : ofSettings s build time = .ok c) (as : List (Action σ)) :
    ∀ p ∈ (c.run as).posts, p.worker.retry.delaySecs = s.retry.delaySecs.toNat := by
  apply forall_posts_run (Q := fun p => p.worker.retry.delaySecs = s.retry.delaySecs.toNat)
  · intro d now p s' a hp
    exact (Post.deed_delaySecs d now p s' a).trans hp
  · exact forall_posts_ofSettings (fun x v => rfl) hc

/-- **What validated settings leave open.** Validation lets any delays pass that are not zero. In every run of the
workers that such settings give, a worker ends for a deadline exactly when it handles an event that has a quote
stored or the retry timer armed, and the clock has no reading that many seconds from now. -/
theorem run_deadlines (hs : s.validate = .ok ()) (hc : ofSettings s build time = .ok c) (as : List (Action σ))
    (hp : (c.run as).posts[n]? = some p) (now : Now) (a : Deed σ) :
    (∀ ttlSecs delaySecs, ttlSecs ≠ 0 → delaySecs ≠ 0 → (s.withDelays ttlSecs delaySecs).validate = .ok ()) ∧
    ((p.deed (c.run as).derivation now (c.run as).shared a).fault = some .deadline ↔
      p.phase = .running ∧ a = .handle ∧ ∃ e, p.inbox.head? = some e ∧
        ((p.worker.Puts (c.run as).shared.desk now e ∧ now.instant.Overruns s.cache.ttlSecs.toNat) ∨
          (p.worker.Arms e ∧ now.instant.Overruns s.retry.delaySecs.toNat))) := by
  have httl : (c.run as).shared.desk.cache.ttl = s.cache.ttlSecs.toNat := by
    rw [ttl_run, (ofSettings_eq_ok hc).2.2]
    rfl
  have hdelay := delaySecs_run hc as p (List.mem_of_getElem? hp)
  refine ⟨fun ttlSecs delaySecs => Settings.validate_withDelays hs, ?_⟩
  rw [← httl, ← hdelay]
  exact Post.deed_deadline _ now p _ a

def endless : Settings := (watching [Worker.solo]).withDelays 18446744073709551615 18446744073709551615

/-- A platform that is connected, and reports something. -/
def reporting (e : VenueEvent) : List (Action ScriptedVenue) := opening 0 ++ [.post 0 ⟨3, ⟨0, 0⟩⟩ (.report e)]

/-- Validation accepts the longest delays, and with them the first quote ends the worker, and so does the first
loss. -/
theorem run_overruns :
    endless.validate = .ok () ∧
    ∃ c, ofSettings endless (fun _ => .ok (ScriptedVenue.start [] [])) ⟨0, 0⟩ = .ok c ∧
      (((c.run (reporting (.available "USDTRY" (Desk.tenths "USDTRY" 320 324)))).outcome?
        (.post 0 ⟨4, ⟨0, 0⟩⟩ .handle)).bind Post.Outcome.fault) = some .deadline ∧
      (((c.run (reporting .disconnected)).outcome? (.post 0 ⟨4, ⟨0, 0⟩⟩ .handle)).bind Post.Outcome.fault) =
        some .deadline := by
  refine ⟨by decide, _, rfl, by rfl, by rfl⟩

theorem run_deadlines_endless :
    ∃ c p, ofSettings endless (fun _ => .ok (ScriptedVenue.start [] [])) ⟨0, 0⟩ = .ok c ∧
      (c.run (reporting .disconnected)).posts[0]? = some p ∧ p.worker.state = .subscribed ∧
      (p.deed (c.run (reporting .disconnected)).derivation ⟨4, ⟨0, 0⟩⟩ (c.run (reporting .disconnected)).shared
        .handle).fault = some .deadline := by
  have hs : endless.validate = .ok () := by decide
  have hover : Instant.Overruns 4 endless.retry.delaySecs.toNat := by
    unfold Instant.Overruns
    decide
  have hc : ofSettings endless (fun _ => .ok (ScriptedVenue.start [] [])) ⟨0, 0⟩ = .ok _ := rfl
  refine ⟨_, _, hc, rfl, rfl, (run_deadlines hs hc (reporting .disconnected) (n := 0) rfl ⟨4, ⟨0, 0⟩⟩ .handle).2.2 ?_⟩
  exact ⟨rfl, rfl, .disconnected, rfl, Or.inr ⟨⟨rfl, by decide, rfl⟩, hover⟩⟩

end Coordinator

end RateDesk
