import RateDesk.Proofs.Keyed
import RateDesk.Proofs.Worker.Move
import RateDesk.Venue.Polling

/-!
# The jobs of a polled venue

* `PollingVenue.Sound` : what ties token, jobs, marks of quotes and the flag of an outage together;
* `PollingVenue.Owns` : the job of a task is in the table, or the task was cancelled;
* `sound_reset`, `Sound.loggedIn`, `Sound.subscribe`, `Sound.unsubscribe`, `Sound.settle` and the lemmas
  beside them : every call and every result of a poll keeps both;
* `settle_quote`, `settle_down`, … : what a task that was not cancelled makes of a result.
-/

namespace RateDesk.PollingVenue

variable {v : PollingVenue} {t u : PollTask}

/-- What holds of a polled venue between any two calls and results. -/
structure Sound (v : PollingVenue) : Prop where
  nodup : (v.jobs.map Prod.fst).Nodup
  /-- Without a token there are no jobs. -/
  idle : v.token = none → v.jobs = []
  /-- Only the quotes of subscribed instruments are marked. -/
  seen : ∀ i ∈ v.seen, i ∈ v.jobs.map Prod.fst
  /-- The platform is down only while there is no token. -/
  down : v.disconnecting = true → v.token = none

/-- A task was cancelled, or its job is in the table. -/
def Owns (v : PollingVenue) (t : PollTask) : Prop := t.mark ∈ v.cancelled ∨ (t.instrument, t.mark) ∈ v.jobs

theorem Owns.job (h : v.Owns t) (ht : t.mark ∉ v.cancelled) : (t.instrument, t.mark) ∈ v.jobs :=
  h.resolve_left ht

theorem Sound.lookup (h : v.Sound) (ht : v.Owns t) (hc : t.mark ∉ v.cancelled) :
    v.jobs.lookup t.instrument = some t.mark :=
  lookup_eq_some_of_mem h.nodup (ht.job hc)

/-- A task that was not cancelled runs only while there is a token, so the platform is not down. -/
theorem Sound.up (h : v.Sound) (ht : v.Owns t) (hc : t.mark ∉ v.cancelled) :
    v.token ≠ none ∧ v.disconnecting = false := by
  have htoken : v.token ≠ none := by
    intro hnone
    have hjob := ht.job hc
    rw [h.idle hnone] at hjob
    cases hjob
  exact ⟨htoken, Bool.eq_false_iff.2 fun hd => htoken (h.down hd)⟩

/-! ## Calls -/

/-- What is reported, and the venue, once it is known what comes of a login. -/
def loggedIn (v : PollingVenue) : Except LoginFailure String → List VenueEvent × PollingVenue
  | .ok token => ([.connected true], { v with token := some token, disconnecting := false })
  | .error _ => ([.connected false], v)

/-- A connect that nothing interrupts forgets the session before, and then logs in. -/
theorem connect_eq (v : PollingVenue) (login : Except LoginFailure String) :
    v.connect login = (login.map fun _ => (), v.reset.loggedIn login) := by
  cases login <;> rfl

theorem sound_reset (v : PollingVenue) (down : Bool) : Sound { v.reset with disconnecting := down } where
  nodup := List.nodup_nil
  idle _ := rfl
  seen := nofun
  down _ := rfl

theorem Owns.reset (h : v.Owns t) (down : Bool) : Owns { v.reset with disconnecting := down } t := by
  refine Or.inl (List.mem_append.2 ?_)
  rcases h with hc | hjob
  · exact Or.inr hc
  · exact Or.inl (List.mem_map_of_mem (f := Prod.snd) hjob)

theorem Sound.loggedIn (h : v.Sound) (login : Except LoginFailure String) : (v.loggedIn login).2.Sound := by
  cases login with
  | ok token => exact ⟨h.nodup, nofun, h.seen, nofun⟩
  | error f => exact h

theorem Owns.loggedIn (h : v.Owns t) (login : Except LoginFailure String) : (v.loggedIn login).2.Owns t := by
  cases login <;> exact h

theorem Sound.subscribe (h : v.Sound) (i : String) : (v.subscribe i).2.Sound := by
  unfold PollingVenue.subscribe
  split
  · exact h
  · rename_i token htoken
    split
    · exact h
    · rename_i hnew
      refine ⟨?_, fun hnone => ?_, fun j hj => List.mem_cons_of_mem _ (h.seen j hj), h.down⟩
      · exact List.nodup_cons.2 ⟨lookup_eq_none.1 (Option.not_isSome_iff_eq_none.1 hnew), h.nodup⟩
      · cases htoken.symm.trans hnone

theorem Owns.subscribe (h : v.Owns t) (i : String) : (v.subscribe i).2.Owns t := by
  unfold PollingVenue.subscribe
  split
  · exact h
  · split
    · exact h
    · exact h.imp_right (List.mem_cons_of_mem _)

theorem owns_subscribed {i : String} (h : (v.subscribe i).1 = .ok (some t)) : (v.subscribe i).2.Owns t := by
  unfold PollingVenue.subscribe at h ⊢
  split at h
  · cases h
  · rename_i token htoken
    split at h
    · cases h
    · rename_i hnew
      cases h
      rw [if_neg hnew]
      exact Or.inr List.mem_cons_self

theorem token_subscribe (v : PollingVenue) (i : String) : (v.subscribe i).2.token = v.token := by
  unfold PollingVenue.subscribe
  split
  · rfl
  · split <;> rfl

theorem platform_subscribe (v : PollingVenue) (i : String) : (v.subscribe i).2.platform = v.platform := by
  unfold PollingVenue.subscribe
  split
  · rfl
  · split <;> rfl

theorem subscribe_refused (h : v.token = none) (i : String) :
    v.subscribe i = (.error (.notConnected v.platform), v) := by
  unfold PollingVenue.subscribe
  rw [h]

theorem Sound.unsubscribe (h : v.Sound) (i : String) : (v.unsubscribe i).Sound := by
  unfold PollingVenue.unsubscribe
  split
  · exact h
  · refine ⟨h.nodup.sublist (List.filter_sublist.map _), fun hnone => ?_, fun j hj => ?_, h.down⟩
    · exact congrArg (List.filter _) (h.idle hnone)
    · obtain ⟨hmem, hne⟩ := List.mem_filter.1 hj
      exact mem_keys_filter (h.seen j hmem) (by simpa using hne)

theorem token_unsubscribe (v : PollingVenue) (i : String) : (v.unsubscribe i).token = v.token := by
  unfold PollingVenue.unsubscribe
  split <;> rfl

theorem platform_unsubscribe (v : PollingVenue) (i : String) : (v.unsubscribe i).platform = v.platform := by
  unfold PollingVenue.unsubscribe
  split <;> rfl

theorem Sound.owns_unsubscribe (h : v.Sound) (ht : v.Owns t) (i : String) : (v.unsubscribe i).Owns t := by
  unfold PollingVenue.unsubscribe
  split
  · exact ht
  · rename_i mark hmark
    rcases ht with hc | hjob
    · exact Or.inl (List.mem_cons_of_mem _ hc)
    · by_cases hi : t.instrument = i
      · rw [← hi, lookup_eq_some_of_mem h.nodup hjob] at hmark
        cases hmark
        exact Or.inl List.mem_cons_self
      · exact Or.inr (List.mem_filter.2 ⟨hjob, by simpa using hi⟩)

/-! ## Results of polls -/

theorem settle_cancelled (hc : t.mark ∈ v.cancelled) (r : PollResult) : v.settle t r = ([], none, v) := if_pos hc

theorem settle_quote (hc : t.mark ∉ v.cancelled) (r : Rate) :
    v.settle t (.quote r) =
      ((v.report t.instrument r).1, some { t with failures := 0 }, (v.report t.instrument r).2) := if_neg hc

theorem settle_notOffered (hc : t.mark ∉ v.cancelled) : v.settle t .notOffered = ([], none, v.retire t) := if_neg hc

theorem settle_malformed (hc : t.mark ∉ v.cancelled) : v.settle t .malformed = ([], some t, v) := if_neg hc

theorem settle_failed (hc : t.mark ∉ v.cancelled) (hlimit : ¬ v.maxFailures ≤ t.failures + 1) :
    v.settle t .failed = ([], some { t with failures := t.failures + 1 }, v) := by
  unfold settle
  rw [if_neg hc]
  exact if_neg hlimit

theorem settle_takeDown (hc : t.mark ∉ v.cancelled) (hlimit : v.maxFailures ≤ t.failures + 1) :
    v.settle t .failed = (v.takeDown.1, none, v.takeDown.2) := by
  unfold settle
  rw [if_neg hc]
  exact if_pos hlimit

/-- A task that reaches its limit takes the platform down. -/
theorem Sound.settle_down (h : v.Sound) (ht : v.Owns t) (hc : t.mark ∉ v.cancelled)
    (hlimit : v.maxFailures ≤ t.failures + 1) :
    v.settle t .failed = ([.disconnected], none, { v.reset with disconnecting := true }) := by
  rw [settle_takeDown hc hlimit, takeDown, if_neg (Bool.eq_false_iff.1 (h.up ht hc).2)]

/-- A report is one quote, and nothing but its mark changes. -/
theorem report_eq (v : PollingVenue) (i : String) (r : Rate) :
    ∃ e seen, v.report i r = ([e], { v with seen := seen }) ∧ e.quote? ≠ none ∧ ∀ j ∈ seen, j = i ∨ j ∈ v.seen := by
  unfold report
  split
  · exact ⟨_, v.seen, rfl, nofun, fun _ hj => Or.inr hj⟩
  · exact ⟨_, _, rfl, nofun, fun _ hj => List.mem_cons.1 hj⟩

/-- Whichever task retires, it takes an entry away only if it is its own. -/
theorem Sound.retire (h : v.Sound) (t : PollTask) : (v.retire t).Sound := by
  have hsublist : (v.retire t).jobs.Sublist v.jobs := by
    unfold PollingVenue.retire
    dsimp only
    split
    · exact List.filter_sublist
    · exact List.Sublist.refl _
  refine ⟨h.nodup.sublist (hsublist.map _), fun hnone => ?_, fun j hj => ?_, h.down⟩
  · exact List.sublist_nil.1 (h.idle hnone ▸ hsublist)
  · obtain ⟨hmem, hne⟩ := List.mem_filter.1 hj
    unfold PollingVenue.retire
    dsimp only
    split
    · exact mem_keys_filter (h.seen j hmem) (by simpa using hne)
    · exact h.seen j hmem

theorem Sound.owns_retire (h : v.Sound) (hu : v.Owns u) (t : PollTask) : (v.retire t).Owns u := by
  rcases hu with hcu | hjob
  · exact Or.inl (List.mem_cons_of_mem _ hcu)
  · by_cases hlookup : v.jobs.lookup t.instrument = some t.mark
    · by_cases hi : u.instrument = t.instrument
      · have hmark : u.mark = t.mark := by
          rw [← hi, lookup_eq_some_of_mem h.nodup hjob] at hlookup
          exact Option.some.inj hlookup
        exact Or.inl (hmark ▸ List.mem_cons_self)
      · refine Or.inr ?_
        rw [PollingVenue.retire, if_pos hlookup]
        exact List.mem_filter.2 ⟨hjob, by simpa using hi⟩
    · refine Or.inr ?_
      rw [PollingVenue.retire, if_neg hlookup]
      exact hjob

/-- What a task makes of a result: it may report a quote while there is a token, or it takes the
platform down, and with it the token; and it owns its job as long as it goes on. -/
structure Settled (v : PollingVenue) (es : List VenueEvent) (next : Option PollTask) (v' : PollingVenue) : Prop where
  sound : v'.Sound
  owns : ∀ u, v.Owns u → v'.Owns u
  next_owns : ∀ u ∈ next, v'.Owns u
  platform : v'.platform = v.platform
  events : es = [] ∧ (v'.token ≠ none → v.token ≠ none) ∨
    (∃ e, es = [e] ∧ e.quote? ≠ none ∧ v.token ≠ none) ∨ es = [.disconnected] ∧ v.token ≠ none ∧ v'.token = none

theorem Sound.settle (h : v.Sound) (ht : v.Owns t) (r : PollResult) :
    v.Settled (v.settle t r).1 (v.settle t r).2.1 (v.settle t r).2.2 := by
  by_cases hc : t.mark ∈ v.cancelled
  · rw [settle_cancelled hc]
    exact ⟨h, fun _ hu => hu, nofun, rfl, Or.inl ⟨rfl, id⟩⟩
  · have hup := (h.up ht hc).1
    cases r with
    | quote r =>
      rw [settle_quote hc]
      obtain ⟨e, seen, hreport, hquote, hseen⟩ := v.report_eq t.instrument r
      rw [hreport]
      refine ⟨⟨h.nodup, h.idle, fun j hj => ?_, h.down⟩, fun _ hu => hu, fun u hu => ?_, rfl,
        Or.inr (Or.inl ⟨e, rfl, hquote, hup⟩)⟩
      · rcases hseen j hj with rfl | hj
        · exact List.mem_map_of_mem (f := Prod.fst) (ht.job hc)
        · exact h.seen j hj
      · cases hu
        exact ht
    | notOffered =>
      rw [settle_notOffered hc]
      exact ⟨h.retire t, fun _ hu => h.owns_retire hu t, nofun, rfl, Or.inl ⟨rfl, id⟩⟩
    | malformed =>
      rw [settle_malformed hc]
      exact ⟨h, fun _ hu => hu, fun u hu => by cases hu; exact ht, rfl, Or.inl ⟨rfl, id⟩⟩
    | failed =>
      by_cases hlimit : v.maxFailures ≤ t.failures + 1
      · rw [h.settle_down ht hc hlimit]
        exact ⟨sound_reset v true, fun _ hu => hu.reset true, nofun, rfl, Or.inr (Or.inr ⟨rfl, hup, rfl⟩)⟩
      · rw [settle_failed hc hlimit]
        exact ⟨h, fun _ hu => hu, fun u hu => by cases hu; exact ht, rfl, Or.inl ⟨rfl, id⟩⟩

end RateDesk.PollingVenue
