import RateDesk.Proofs.Venue.Outage

/-!
# The polls of one job

A job is started by a subscribe and polls until it ends; meanwhile anything else may come, as long as it
does not cancel the job. The test of the mark and what a job makes of a result are one step.

* `PollResult.failures`, `PollResult.reports`, `PollResult.Final` : what a job should make of its results;
* `PollingVenue.Framed`, `PollingVenue.Onward` : what a result leaves alone, and what no step takes back, so that
  no mark is given twice;
* `PollingRun.Move`, `step_iff` : the steps of a run, by name;
* `PollingRun.Course` : the results of one job and its events, and how it goes on;
* `Polling`, `Over` : the invariants of a job that goes on and of one that ended;
* `reachable_polls` : what a job makes of its results is what it should.
-/

namespace RateDesk

/-! ## Results -/

namespace PollResult

def rate? : PollResult → Option Rate
  | quote r => some r
  | _ => none

def rates (rs : List PollResult) : List Rate := rs.filterMap rate?

/-- The failures since the last rate. -/
def failures (rs : List PollResult) : ℕ := (rs.reverse.takeWhile fun r => r.rate?.isNone).count .failed

def reports (i : String) : List Rate → List VenueEvent
  | [] => []
  | r :: rs => .available i r :: rs.map (.update i)

/-- Whether a result is the last one of a job, given the results before. -/
def Final (limit : ℕ) (rs : List PollResult) (r : PollResult) : Prop :=
  r = notOffered ∨ r = failed ∧ limit ≤ failures rs + 1

/-- Results none of which is the last one of a job. -/
def Ongoing (limit : ℕ) (rs : List PollResult) : Prop := ∀ xs r, xs ++ [r] <+: rs → ¬ Final limit xs r

variable {limit : ℕ} {rs : List PollResult} {r : PollResult} {i : String}

theorem failures_quote (rs : List PollResult) (r : Rate) : failures (rs ++ [quote r]) = 0 := by
  simp [failures, rate?]

theorem failures_malformed (rs : List PollResult) : failures (rs ++ [malformed]) = failures rs := by
  simp [failures, rate?]

theorem failures_failed (rs : List PollResult) : failures (rs ++ [failed]) = failures rs + 1 := by
  simp [failures, rate?]

theorem reports_append (i : String) (rs : List Rate) (r : Rate) :
    reports i (rs ++ [r]) = reports i rs ++ [if rs = [] then .available i r else .update i r] := by
  cases rs with
  | nil => rfl
  | cons r' rs => simp [reports]

theorem Ongoing.append (h : Ongoing limit rs) (hr : ¬ Final limit rs r) : Ongoing limit (rs ++ [r]) := by
  intro xs x hx
  rcases List.prefix_concat_iff.1 hx with heq | hx
  · obtain ⟨rfl, hlast⟩ := List.append_inj' heq rfl
    cases hlast
    exact hr
  · exact h xs x hx

end PollResult

/-! ## Marks -/

namespace PollingVenue

variable {v v' : PollingVenue} {t u : PollTask}

def marks (v : PollingVenue) : List ℕ := v.jobs.map Prod.snd ++ v.cancelled

/-- What no step takes back: the limit is kept, marks are counted on, and each mark was counted. -/
structure Onward (v v' : PollingVenue) : Prop where
  maxFailures : v'.maxFailures = v.maxFailures
  lastMark : v.lastMark ≤ v'.lastMark
  marks : (∀ m ∈ v.marks, m ≤ v.lastMark) → ∀ m ∈ v'.marks, m ≤ v'.lastMark

theorem Owns.mark_mem (h : v.Owns t) : t.mark ∈ v.marks := by
  rcases h with hc | hjob
  · exact List.mem_append_right _ hc
  · exact List.mem_append_left _ (List.mem_map_of_mem (f := Prod.snd) hjob)

theorem onward_of_subset (hm : v'.maxFailures = v.maxFailures) (hl : v'.lastMark = v.lastMark)
    (hs : v'.marks ⊆ v.marks) : v.Onward v' :=
  ⟨hm, Nat.le_of_eq hl.symm, fun h m hmem => hl ▸ h m (hs hmem)⟩

theorem onward_reset (v : PollingVenue) (down : Bool) : v.Onward { v.reset with disconnecting := down } :=
  onward_of_subset rfl rfl (List.Subset.refl _)

theorem onward_loggedIn (v : PollingVenue) (login : Except LoginFailure String) : v.Onward (v.loggedIn login).2 := by
  cases login <;> exact onward_of_subset rfl rfl (List.Subset.refl _)

theorem onward_subscribe (v : PollingVenue) (i : String) : v.Onward (v.subscribe i).2 := by
  unfold PollingVenue.subscribe
  split
  · exact onward_of_subset rfl rfl (List.Subset.refl _)
  · split
    · exact onward_of_subset rfl rfl (List.Subset.refl _)
    · refine ⟨rfl, Nat.le_succ _, fun h m hm => ?_⟩
      rcases List.mem_cons.1 hm with rfl | hm
      · exact Nat.le_refl _
      · exact Nat.le_succ_of_le (h m hm)

theorem onward_unsubscribe (v : PollingVenue) (i : String) : v.Onward (v.unsubscribe i) := by
  unfold PollingVenue.unsubscribe
  split
  · exact onward_of_subset rfl rfl (List.Subset.refl _)
  · rename_i mark hmark
    obtain ⟨xs, ys, heq, -⟩ := List.lookup_eq_some_iff.1 hmark
    have hjob : mark ∈ v.jobs.map Prod.snd := by simp [heq]
    refine onward_of_subset rfl rfl fun m hm => ?_
    rcases List.mem_append.1 hm with hm | hm
    · exact List.mem_append_left _ ((List.filter_sublist.map Prod.snd).subset hm)
    · rcases List.mem_cons.1 hm with rfl | hm
      · exact List.mem_append_left _ hjob
      · exact List.mem_append_right _ hm

/-- What a task leaves alone, whatever it makes of a result, and that it goes on as itself. -/
structure Framed (v : PollingVenue) (t : PollTask) (next : Option PollTask) (v' : PollingVenue) : Prop where
  maxFailures : v'.maxFailures = v.maxFailures
  lastMark : v'.lastMark = v.lastMark
  marks : v'.marks ⊆ t.mark :: v.marks
  next_eq : ∀ u ∈ next, u.mark = t.mark ∧ u.instrument = t.instrument

theorem framed_retire (v : PollingVenue) (t : PollTask) : v.Framed t none (v.retire t) := by
  refine ⟨rfl, rfl, fun m hm => ?_, nofun⟩
  rcases List.mem_append.1 hm with hm | hm
  · refine List.mem_cons_of_mem _ (List.mem_append_left _ ?_)
    unfold retire at hm
    dsimp only at hm
    split at hm
    · exact (List.filter_sublist.map Prod.snd).subset hm
    · exact hm
  · rcases List.mem_cons.1 hm with rfl | hm
    · exact List.mem_cons_self
    · exact List.mem_cons_of_mem _ (List.mem_append_right _ hm)

theorem framed_settle (v : PollingVenue) (t : PollTask) (r : PollResult) :
    v.Framed t (v.settle t r).2.1 (v.settle t r).2.2 := by
  have goes_on {u : PollTask} (hu : u.mark = t.mark ∧ u.instrument = t.instrument) :
      ∀ w ∈ some u, w.mark = t.mark ∧ w.instrument = t.instrument := by
    rintro w ⟨⟩
    exact hu
  by_cases hc : t.mark ∈ v.cancelled
  · rw [settle_cancelled hc]
    exact ⟨rfl, rfl, List.subset_cons_self _ _, nofun⟩
  cases r with
  | quote r =>
    rw [settle_quote hc]
    unfold report
    split <;> exact ⟨rfl, rfl, List.subset_cons_self _ _, goes_on ⟨rfl, rfl⟩⟩
  | notOffered =>
    rw [settle_notOffered hc]
    exact framed_retire v t
  | malformed =>
    rw [settle_malformed hc]
    exact ⟨rfl, rfl, List.subset_cons_self _ _, goes_on ⟨rfl, rfl⟩⟩
  | failed =>
    by_cases hlimit : v.maxFailures ≤ t.failures + 1
    · rw [settle_takeDown hc hlimit]
      unfold takeDown
      split <;> exact ⟨rfl, rfl, List.subset_cons_self _ _, nofun⟩
    · rw [settle_failed hc hlimit]
      exact ⟨rfl, rfl, List.subset_cons_self _ _, goes_on ⟨rfl, rfl⟩⟩

theorem Owns.onward_settle (h : v.Owns t) (r : PollResult) : v.Onward (v.settle t r).2.2 := by
  have hframed := framed_settle v t r
  refine onward_of_subset hframed.maxFailures hframed.lastMark fun m hm => ?_
  rcases List.mem_cons.1 (hframed.marks hm) with rfl | hm
  · exact h.mark_mem
  · exact hm

theorem subscribe_started {i : String} (h : (v.subscribe i).1 = .ok (some t)) :
    t = ⟨v.lastMark + 1, i, t.token, 0⟩ ∧ i ∉ v.jobs.map Prod.fst ∧ (v.subscribe i).2.cancelled = v.cancelled := by
  unfold PollingVenue.subscribe at h ⊢
  split at h
  · cases h
  · split at h
    · cases h
    · rename_i hnew
      cases h
      rw [if_neg hnew]
      exact ⟨rfl, lookup_eq_none.1 (Option.not_isSome_iff_eq_none.1 hnew), rfl⟩

theorem seen_subscribe (v : PollingVenue) (i : String) : (v.subscribe i).2.seen = v.seen := by
  unfold PollingVenue.subscribe
  split
  · rfl
  · split <;> rfl

theorem mem_seen_unsubscribe {i : String} (ht : v.jobs.lookup t.instrument = some t.mark)
    (hc : t.mark ∉ (v.unsubscribe i).cancelled) :
    t.instrument ∈ (v.unsubscribe i).seen ↔ t.instrument ∈ v.seen := by
  unfold PollingVenue.unsubscribe at hc ⊢
  split at hc
  · rfl
  · rename_i mark hmark
    have hi : t.instrument ≠ i := by
      rintro rfl
      rw [ht] at hmark
      cases hmark
      exact hc List.mem_cons_self
    simp [hi]

/-- A task that cancels no other leaves the mark of the other's quotes alone. -/
theorem Sound.mem_seen_settle (h : v.Sound) (ht : v.Owns t) (hu : v.Owns u) (hne : u.mark ≠ t.mark)
    (hct : t.mark ∉ v.cancelled) {r : PollResult} (hc : t.mark ∉ (v.settle u r).2.2.cancelled) :
    t.instrument ∈ (v.settle u r).2.2.seen ↔ t.instrument ∈ v.seen := by
  by_cases hcu : u.mark ∈ v.cancelled
  · rw [settle_cancelled hcu]
  have hi : t.instrument ≠ u.instrument := by
    intro heq
    have hlookup := h.lookup ht hct
    rw [heq, h.lookup hu hcu] at hlookup
    exact hne (Option.some.inj hlookup)
  cases r with
  | quote r =>
    rw [settle_quote hcu]
    unfold report
    split
    · rfl
    · simp [hi]
  | notOffered =>
    rw [settle_notOffered hcu]
    simp [PollingVenue.retire, hi]
  | malformed => rw [settle_malformed hcu]
  | failed =>
    by_cases hlimit : v.maxFailures ≤ u.failures + 1
    · rw [h.settle_down hu hcu hlimit] at hc
      exact absurd ((ht.reset true).resolve_right List.not_mem_nil) hc
    · rw [settle_failed hcu hlimit]

end PollingVenue

/-! ## Steps by name -/

namespace PollingRun

open PollingVenue PollResult

inductive Move where
  | connect
  | login (reply : Except LoginFailure String)
  | subscribe (i : String)
  | unsubscribe (i : String)
  | disconnect
  | settle (t : PollTask) (r : PollResult)

variable {zone : Time.Zone} {p : PlatformSettings} {s s' : PollingRun} {name i : String} {limit : ℕ} {m : Move}
  {t t₀ u : PollTask} {rs : List PollResult} {r : PollResult} {es : List VenueEvent} {next : Option PollTask}

def Possible (s : PollingRun) : Move → Prop
  | .login _ => 0 < s.logins
  | .settle t _ => t ∈ s.tasks
  | _ => True

def after (s : PollingRun) : Move → PollingRun
  | .connect => { s with venue := s.venue.reset, logins := s.logins + 1 }
  | .login reply =>
    { s with venue := (s.venue.loggedIn reply).2, logins := s.logins - 1,
             signs := s.signs ++ (s.venue.loggedIn reply).1.map .event }
  | .subscribe i =>
    { s with venue := (s.venue.subscribe i).2, tasks := started (s.venue.subscribe i).1 ++ s.tasks,
             signs := s.signs ++ [.answer (refusal (s.venue.subscribe i).1)] }
  | .unsubscribe i => { s with venue := s.venue.unsubscribe i }
  | .disconnect => { s with venue := s.venue.disconnect }
  | .settle t r =>
    { s with venue := (s.venue.settle t r).2.2, tasks := (s.venue.settle t r).2.1.toList ++ s.tasks.erase t,
             signs := s.signs ++ (s.venue.settle t r).1.map .event }

theorem step_iff : s.Step s' ↔ ∃ m, s.Possible m ∧ s.after m = s' := by
  constructor
  · intro h
    cases h with
    | connect => exact ⟨.connect, trivial, rfl⟩
    | @login n reply hn =>
      refine ⟨.login reply, Nat.lt_of_lt_of_eq n.succ_pos hn.symm, ?_⟩
      rw [after, hn]
      rfl
    | subscribe i => exact ⟨.subscribe i, trivial, rfl⟩
    | unsubscribe i => exact ⟨.unsubscribe i, trivial, rfl⟩
    | disconnect => exact ⟨.disconnect, trivial, rfl⟩
    | @settle t r ht => exact ⟨.settle t r, ht, rfl⟩
  · rintro ⟨m, hm, rfl⟩
    cases m with
    | connect => exact .connect
    | login reply => exact .login reply (Nat.succ_pred_eq_of_pos hm).symm
    | subscribe i => exact .subscribe i
    | unsubscribe i => exact .unsubscribe i
    | disconnect => exact .disconnect
    | settle t r => exact .settle r hm

theorem Reachable.after (h : Reachable zone p s) (hm : s.Possible m) : Reachable zone p (s.after m) :=
  h.step (step_iff.2 ⟨m, hm, rfl⟩)

/-! ## Marks -/

/-- The limit of the venue, and marks that tell all tasks apart. -/
structure Marked (limit : ℕ) (s : PollingRun) : Prop where
  maxFailures : s.venue.maxFailures = limit
  marks : ∀ m ∈ s.venue.marks, m ≤ s.venue.lastMark
  distinct : (s.tasks.map PollTask.mark).Nodup

theorem Kept.onward (h : s.Kept name) (hm : s.Possible m) : s.venue.Onward (s.after m).venue := by
  cases m with
  | connect => exact onward_reset s.venue s.venue.disconnecting
  | login reply => exact onward_loggedIn s.venue reply
  | subscribe i => exact onward_subscribe s.venue i
  | unsubscribe i => exact onward_unsubscribe s.venue i
  | disconnect => exact onward_reset s.venue s.venue.disconnecting
  | settle t r => exact (h.owns t hm).onward_settle r

/-- The task whose poll has a result is one of its own. -/
theorem not_mem_marks_erase (h : (s.tasks.map PollTask.mark).Nodup) (ht : t ∈ s.tasks) :
    t.mark ∉ (s.tasks.erase t).map PollTask.mark ∧ ((s.tasks.erase t).map PollTask.mark).Nodup := by
  have hperm := (List.perm_cons_erase ht).map PollTask.mark
  rwa [hperm.nodup_iff, List.map_cons, List.nodup_cons] at h

theorem Marked.distinct_after (h : s.Marked limit) (hk : s.Kept name) (hm : s.Possible m) :
    ((s.after m).tasks.map PollTask.mark).Nodup := by
  cases m with
  | connect => exact h.distinct
  | login _ => exact h.distinct
  | unsubscribe _ => exact h.distinct
  | disconnect => exact h.distinct
  | subscribe i =>
    cases ha : (s.venue.subscribe i).1 with
    | error f => simpa [PollingRun.after, ha, started] using h.distinct
    | ok o =>
      cases o with
      | none => simpa [PollingRun.after, ha, started] using h.distinct
      | some t =>
        have hmark : t.mark = s.venue.lastMark + 1 := by rw [(subscribe_started ha).1]
        have hnew : t.mark ∉ s.tasks.map PollTask.mark := by
          intro hmem
          obtain ⟨u, hu, heq⟩ := List.mem_map.1 hmem
          have hle := h.marks u.mark (hk.owns u hu).mark_mem
          omega
        simpa only [PollingRun.after, ha, started, List.singleton_append, List.map_cons, List.nodup_cons] using
          ⟨hnew, h.distinct⟩
  | settle t r =>
    have hrest := not_mem_marks_erase h.distinct hm
    cases hnext : (s.venue.settle t r).2.1 with
    | none => simpa [PollingRun.after, hnext] using hrest.2
    | some u =>
      rw [← ((framed_settle s.venue t r).next_eq u hnext).1] at hrest
      simpa only [PollingRun.after, hnext, Option.toList_some, List.singleton_append, List.map_cons, List.nodup_cons]
        using hrest

theorem Marked.after (h : s.Marked limit) (hk : s.Kept name) (hm : s.Possible m) : (s.after m).Marked limit where
  maxFailures := (hk.onward hm).maxFailures.trans h.maxFailures
  marks := (hk.onward hm).marks h.marks
  distinct := h.distinct_after hk hm

theorem marked_start {v : PollingVenue} (h : PollingVenue.ofSettings zone p = .ok v) :
    (start v).Marked (max p.maxPollFailures.toNat 1) := by
  cases hb : p.resolvedBaseUrl with
  | error f =>
    rw [PollingVenue.ofSettings, hb] at h
    cases h
  | ok url =>
    rw [PollingVenue.ofSettings, hb] at h
    cases h
    exact ⟨rfl, List.forall_mem_nil _, List.nodup_nil⟩

theorem Reachable.marked (h : Reachable zone p s) : s.Marked (max p.maxPollFailures.toNat 1) := by
  induction h with
  | start hv => exact marked_start hv
  | step h hs ih =>
    obtain ⟨m, hm, rfl⟩ := step_iff.1 hs
    exact ih.after h.kept hm

/-! ## The course of a job -/

/-- What becomes of a job that begins as `t₀` in `s₀`: the results of its polls and its events, oldest
first, the task that polls next as long as it goes on, and the run by then. Until it ends, nothing else
cancels it. -/
inductive Course (s₀ : PollingRun) (t₀ : PollTask) :
    List PollResult → List VenueEvent → Option PollTask → PollingRun → Prop where
  | start : Course s₀ t₀ [] [] (some t₀) s₀
  | poll {rs : List PollResult} {es : List VenueEvent} {t : PollTask} {s : PollingRun} (r : PollResult) :
    Course s₀ t₀ rs es (some t) s →
    Course s₀ t₀ (rs ++ [r]) (es ++ (s.venue.settle t r).1) (s.venue.settle t r).2.1 (s.after (.settle t r))
  | apart {rs : List PollResult} {es : List VenueEvent} {t : PollTask} {s : PollingRun} (m : Move) :
    Course s₀ t₀ rs es (some t) s → s.Possible m → (∀ r, m ≠ .settle t r) →
    t.mark ∉ (s.after m).venue.cancelled → Course s₀ t₀ rs es (some t) (s.after m)
  | later {rs : List PollResult} {es : List VenueEvent} {s : PollingRun} (m : Move) :
    Course s₀ t₀ rs es none s → s.Possible m → Course s₀ t₀ rs es none (s.after m)

/-- What holds of a job while it goes on. -/
structure Polling (zone : Time.Zone) (p : PlatformSettings) (t₀ : PollTask) (rs : List PollResult)
    (es : List VenueEvent) (t : PollTask) (s : PollingRun) : Prop where
  reachable : Reachable zone p s
  mem : t ∈ s.tasks
  alive : t.mark ∉ s.venue.cancelled
  mark : t.mark = t₀.mark
  instrument : t.instrument = t₀.instrument
  failures : t.failures = failures rs
  below : t.failures < max p.maxPollFailures.toNat 1
  ongoing : Ongoing (max p.maxPollFailures.toNat 1) rs
  seen : t.instrument ∈ s.venue.seen ↔ rates rs ≠ []
  events : es = reports t₀.instrument (rates rs)

/-- What holds of a job that ended. -/
structure Over (zone : Time.Zone) (p : PlatformSettings) (t₀ : PollTask) (rs : List PollResult)
    (es : List VenueEvent) (s : PollingRun) : Prop where
  reachable : Reachable zone p s
  mark_le : t₀.mark ≤ s.venue.lastMark
  gone : ∀ u ∈ s.tasks, u.mark ≠ t₀.mark
  ended : ∃ xs r, rs = xs ++ [r] ∧ Ongoing (max p.maxPollFailures.toNat 1) xs ∧
    Final (max p.maxPollFailures.toNat 1) xs r ∧
    es = reports t₀.instrument (rates xs) ++ if r = .failed then [.disconnected] else []

/-! ### Beginning -/

theorem polling_subscribe (h : Reachable zone p s) (hsub : (s.venue.subscribe i).1 = .ok (some t)) :
    Polling zone p t [] [] t (s.after (.subscribe i)) := by
  obtain ⟨ht, hnew, hcancelled⟩ := subscribe_started hsub
  have hmark : t.mark = s.venue.lastMark + 1 := by rw [ht]
  have hi : t.instrument = i := by rw [ht]
  have hfailures : t.failures = 0 := by rw [ht]
  refine ⟨h.after trivial, ?_, ?_, rfl, rfl, hfailures, ?_, ?_, ?_, rfl⟩
  · rw [PollingRun.after, hsub]
    exact List.mem_cons_self
  · intro hc
    rw [PollingRun.after, hcancelled] at hc
    have hle := h.marked.marks t.mark (List.mem_append_right _ hc)
    omega
  · omega
  · intro xs r hx
    simp at hx
  · rw [PollingRun.after, seen_subscribe, hi]
    exact iff_of_false (fun hseen => hnew (h.kept.sound.seen i hseen)) (by simp [rates])

/-! ### Results -/

/-- A job goes on after a result that it keeps count of. -/
theorem Polling.goes_on {v : PollingVenue} {es' : List VenueEvent} (h : Polling zone p t₀ rs es t s)
    (heq : s.venue.settle t r = (es', some u, v)) (hcancelled : v.cancelled = s.venue.cancelled)
    (hr : ¬ Final (max p.maxPollFailures.toNat 1) rs r) (hfailures : u.failures = PollResult.failures (rs ++ [r]))
    (hbelow : u.failures < max p.maxPollFailures.toNat 1) (hseen : t.instrument ∈ v.seen ↔ rates (rs ++ [r]) ≠ [])
    (hes : reports t₀.instrument (rates rs) ++ es' = reports t₀.instrument (rates (rs ++ [r]))) :
    Polling zone p t₀ (rs ++ [r]) (es ++ es') u (s.after (.settle t r)) := by
  obtain ⟨hmark, hinstrument⟩ := (framed_settle s.venue t r).next_eq u (by rw [heq]; rfl)
  refine ⟨h.reachable.after h.mem, ?_, ?_, hmark.trans h.mark, hinstrument.trans h.instrument, hfailures, hbelow,
    h.ongoing.append hr, ?_, ?_⟩
  · rw [PollingRun.after, heq]
    exact List.mem_cons_self
  · rw [PollingRun.after, heq, hmark, hcancelled]
    exact h.alive
  · rw [PollingRun.after, heq, hinstrument]
    exact hseen
  · rw [h.events, hes]

theorem Polling.quote (h : Polling zone p t₀ rs es t s) (r : Rate) :
    ∃ u, (s.venue.settle t (.quote r)).2.1 = some u ∧ Polling zone p t₀ (rs ++ [.quote r])
      (es ++ (s.venue.settle t (.quote r)).1) u (s.after (.settle t (.quote r))) := by
  have hrates : rates (rs ++ [.quote r]) = rates rs ++ [r] := by simp [rates, rate?]
  have hfinal : ¬ Final (max p.maxPollFailures.toNat 1) rs (.quote r) := by simp [Final]
  have hzero := failures_quote rs r
  have hpos : 0 < max p.maxPollFailures.toNat 1 := Nat.le_max_right _ 1
  have hsettle := settle_quote h.alive r
  unfold report at hsettle
  by_cases hfirst : rates rs = []
  · have hseen : t.instrument ∉ s.venue.seen := fun hmem => h.seen.1 hmem hfirst
    rw [if_neg hseen] at hsettle
    rw [hsettle]
    refine ⟨_, rfl, h.goes_on hsettle rfl hfinal hzero.symm hpos (by simp [hrates]) ?_⟩
    rw [hrates, reports_append, if_pos hfirst, h.instrument]
  · have hseen : t.instrument ∈ s.venue.seen := h.seen.2 hfirst
    rw [if_pos hseen] at hsettle
    rw [hsettle]
    refine ⟨_, rfl, h.goes_on hsettle rfl hfinal hzero.symm hpos (by simp [hrates, hseen]) ?_⟩
    rw [hrates, reports_append, if_neg hfirst, h.instrument]

theorem Polling.malformed (h : Polling zone p t₀ rs es t s) :
    (s.venue.settle t .malformed).2.1 = some t ∧ Polling zone p t₀ (rs ++ [.malformed])
      (es ++ (s.venue.settle t .malformed).1) t (s.after (.settle t .malformed)) := by
  have hrates : rates (rs ++ [.malformed]) = rates rs := by simp [rates, rate?]
  have hsettle := settle_malformed h.alive
  rw [hsettle]
  refine ⟨rfl, h.goes_on hsettle rfl (by simp [Final]) ?_ h.below (hrates ▸ h.seen) ?_⟩
  · rw [failures_malformed, h.failures]
  · rw [hrates, List.append_nil]

theorem Polling.failed (h : Polling zone p t₀ rs es t s)
    (hlimit : ¬ max p.maxPollFailures.toNat 1 ≤ PollResult.failures rs + 1) :
    ∃ u, (s.venue.settle t .failed).2.1 = some u ∧ Polling zone p t₀ (rs ++ [.failed])
      (es ++ (s.venue.settle t .failed).1) u (s.after (.settle t .failed)) := by
  have hrates : rates (rs ++ [.failed]) = rates rs := by simp [rates, rate?]
  have hcount := h.failures
  have hsettle := settle_failed h.alive (by rwa [h.reachable.marked.maxFailures, hcount])
  rw [hsettle]
  refine ⟨_, rfl, h.goes_on hsettle rfl (by simpa [Final] using hlimit) ?_ ?_ (hrates ▸ h.seen) ?_⟩
  · rw [failures_failed, hcount]
  · show t.failures + 1 < _
    omega
  · rw [hrates, List.append_nil]

theorem Polling.owns (h : Polling zone p t₀ rs es t s) : s.venue.Owns t := h.reachable.kept.owns t h.mem

/-- What a job does when its instrument is not offered. -/
theorem Polling.settle_notOffered (h : Polling zone p t₀ rs es t s) :
    s.venue.settle t .notOffered = ([], none, { s.venue with
      cancelled := t.mark :: s.venue.cancelled
      jobs := s.venue.jobs.erase (t.instrument, t.mark)
      seen := s.venue.seen.filter (· ≠ t.instrument) }) := by
  have hsound := h.reachable.kept.sound
  rw [PollingVenue.settle_notOffered h.alive, retire, if_pos (hsound.lookup h.owns h.alive),
    filter_ne_eq_erase hsound.nodup (h.owns.job h.alive)]

/-- What a job does when it fails for the last time. -/
theorem Polling.settle_down (h : Polling zone p t₀ rs es t s)
    (hlimit : max p.maxPollFailures.toNat 1 ≤ PollResult.failures rs + 1) :
    s.venue.settle t .failed = ([.disconnected], none, { s.venue.reset with disconnecting := true }) := by
  refine h.reachable.kept.sound.settle_down h.owns h.alive ?_
  rwa [h.reachable.marked.maxFailures, h.failures]

/-- A result that is the last one of a job. -/
theorem Polling.ends (h : Polling zone p t₀ rs es t s) (hr : Final (max p.maxPollFailures.toNat 1) rs r) :
    (s.venue.settle t r).2.1 = none ∧
      Over zone p t₀ (rs ++ [r]) (es ++ (s.venue.settle t r).1) (s.after (.settle t r)) := by
  obtain ⟨hnext, hes⟩ : (s.venue.settle t r).2.1 = none ∧
      (s.venue.settle t r).1 = if r = .failed then [.disconnected] else [] := by
    rcases hr with rfl | ⟨rfl, hlimit⟩
    · rw [h.settle_notOffered]
      exact ⟨rfl, rfl⟩
    · rw [h.settle_down hlimit]
      exact ⟨rfl, rfl⟩
  have hmarked := h.reachable.marked
  refine ⟨hnext, h.reachable.after h.mem, ?_, fun u hu => ?_, rs, r, rfl, h.ongoing, hr, by rw [h.events, hes]⟩
  · have hle := hmarked.marks t.mark h.owns.mark_mem
    rw [h.mark] at hle
    exact Nat.le_trans hle (h.reachable.kept.onward (m := .settle t r) h.mem).lastMark
  · have hrest := (not_mem_marks_erase hmarked.distinct h.mem).1
    rw [PollingRun.after, hnext] at hu
    rw [← h.mark]
    exact fun heq => hrest (heq ▸ List.mem_map_of_mem hu)

/-- Every result of a job has it go on or ends it. -/
theorem Polling.poll (h : Polling zone p t₀ rs es t s) (r : PollResult) :
    (∃ u, (s.venue.settle t r).2.1 = some u ∧
      Polling zone p t₀ (rs ++ [r]) (es ++ (s.venue.settle t r).1) u (s.after (.settle t r))) ∨
    (s.venue.settle t r).2.1 = none ∧
      Over zone p t₀ (rs ++ [r]) (es ++ (s.venue.settle t r).1) (s.after (.settle t r)) := by
  cases r with
  | quote r => exact Or.inl (h.quote r)
  | notOffered => exact Or.inr (h.ends (Or.inl rfl))
  | malformed => exact Or.inl ⟨t, h.malformed⟩
  | failed =>
    by_cases hlimit : max p.maxPollFailures.toNat 1 ≤ PollResult.failures rs + 1
    · exact Or.inr (h.ends (Or.inr ⟨rfl, hlimit⟩))
    · exact Or.inl (h.failed hlimit)

/-! ### Everything else -/

theorem mem_tasks_after (ht : t ∈ s.tasks) (hne : ∀ r, m ≠ .settle t r) : t ∈ (s.after m).tasks := by
  cases m with
  | subscribe i => exact List.mem_append_right _ ht
  | settle u r =>
    refine List.mem_append_right _ ((List.mem_erase_of_ne ?_).2 ht)
    rintro rfl
    exact hne r rfl
  | connect => exact ht
  | login _ => exact ht
  | unsubscribe _ => exact ht
  | disconnect => exact ht

theorem Polling.mem_seen_after (h : Polling zone p t₀ rs es t s) (hm : s.Possible m) (hne : ∀ r, m ≠ .settle t r)
    (hc : t.mark ∉ (s.after m).venue.cancelled) :
    t.instrument ∈ (s.after m).venue.seen ↔ t.instrument ∈ s.venue.seen := by
  have hsound := h.reachable.kept.sound
  cases m with
  | connect => exact absurd ((h.owns.reset s.venue.disconnecting).resolve_right nofun) hc
  | disconnect => exact absurd ((h.owns.reset s.venue.disconnecting).resolve_right nofun) hc
  | login reply => cases reply <;> rfl
  | subscribe i => rw [PollingRun.after, seen_subscribe]
  | unsubscribe i => exact mem_seen_unsubscribe (hsound.lookup h.owns h.alive) hc
  | settle u r =>
    refine hsound.mem_seen_settle h.owns (h.reachable.kept.owns u hm) (fun heq => ?_) h.alive hc
    have hother : u ≠ t := by
      rintro rfl
      exact hne r rfl
    refine (not_mem_marks_erase h.reachable.marked.distinct h.mem).1 ?_
    rw [← heq]
    exact List.mem_map_of_mem ((List.mem_erase_of_ne hother).2 hm)

theorem Polling.apart (h : Polling zone p t₀ rs es t s) (hm : s.Possible m) (hne : ∀ r, m ≠ .settle t r)
    (hc : t.mark ∉ (s.after m).venue.cancelled) : Polling zone p t₀ rs es t (s.after m) :=
  { h with
    reachable := h.reachable.after hm
    mem := mem_tasks_after h.mem hne
    alive := hc
    seen := (h.mem_seen_after hm hne hc).trans h.seen }

/-- Marks are not given twice, so a job that ended does not poll again. -/
theorem Over.later (h : Over zone p t₀ rs es s) (hm : s.Possible m) : Over zone p t₀ rs es (s.after m) := by
  refine ⟨h.reachable.after hm, Nat.le_trans h.mark_le (h.reachable.kept.onward hm).lastMark, fun u hu => ?_, h.ended⟩
  cases m with
  | subscribe i =>
    rcases List.mem_append.1 hu with hu | hu
    · cases ha : (s.venue.subscribe i).1 with
      | error f => simp [ha, started] at hu
      | ok o =>
        cases o with
        | none => simp [ha, started] at hu
        | some t =>
          rw [ha] at hu
          have hmark : t.mark = s.venue.lastMark + 1 := by rw [(subscribe_started ha).1]
          have hle := h.mark_le
          rw [List.mem_singleton.1 hu]
          omega
    · exact h.gone u hu
  | settle t r =>
    rcases List.mem_append.1 hu with hu | hu
    · rw [((framed_settle s.venue t r).next_eq u (Option.mem_toList.1 hu)).1]
      exact h.gone t hm
    · exact h.gone u (List.mem_of_mem_erase hu)
  | connect => exact h.gone u hu
  | login _ => exact h.gone u hu
  | unsubscribe _ => exact h.gone u hu
  | disconnect => exact h.gone u hu

/-! ### All results -/

theorem course_invariant {s₀ : PollingRun} (h : Polling zone p t₀ [] [] t₀ s₀) (hc : Course s₀ t₀ rs es next s) :
    (∀ t ∈ next, Polling zone p t₀ rs es t s) ∧ (next = none → Over zone p t₀ rs es s) := by
  induction hc with
  | start =>
    refine ⟨fun t ht => ?_, nofun⟩
    cases ht
    exact h
  | poll r _ ih =>
    rcases (ih.1 _ rfl).poll r with ⟨u, hu, hpolling⟩ | ⟨hnone, hover⟩
    · rw [hu]
      refine ⟨fun t ht => ?_, nofun⟩
      cases ht
      exact hpolling
    · rw [hnone]
      exact ⟨nofun, fun _ => hover⟩
  | apart m _ hm hne hc ih =>
    refine ⟨fun t ht => ?_, nofun⟩
    cases ht
    exact (ih.1 _ rfl).apart hm hne hc
  | later m _ hm ih => exact ⟨nofun, fun _ => (ih.2 rfl).later hm⟩

theorem limit_lt (p : PlatformSettings) : max p.maxPollFailures.toNat 1 < UInt32.size :=
  Nat.max_lt.2 ⟨p.maxPollFailures.toNat_lt, by decide⟩

/-- **What a job makes of its results.** A job goes on as long as no result was its last one. Until then it
has reported each of its rates, the first as available and the others as updates, and nothing else; it has
a task that polls next and counts the failures since the last rate, without overflow. If its instrument is
not offered then, it takes only its own entry and the mark of its quotes away, and at its last failure it
takes the platform down. Once it ended, it has reported the rates before its last result, and then the
outage if that was a failure; no task of it is left, and none will ever be. -/
theorem reachable_polls (h : Reachable zone p s) (hsub : (s.venue.subscribe i).1 = .ok (some t₀))
    (hc : Course (s.after (.subscribe i)) t₀ rs es next s') :
    (next ≠ none ↔ Ongoing (max p.maxPollFailures.toNat 1) rs) ∧
    (∀ t ∈ next, es = reports i (rates rs) ∧ t ∈ s'.tasks ∧ t.mark = t₀.mark ∧ (i, t.mark) ∈ s'.venue.jobs ∧
      t.failures = failures rs ∧ t.failures + 1 < UInt32.size ∧
      s'.venue.settle t .notOffered = ([], none, { s'.venue with
        cancelled := t.mark :: s'.venue.cancelled
        jobs := s'.venue.jobs.erase (i, t.mark)
        seen := s'.venue.seen.filter (· ≠ i) }) ∧
      (max p.maxPollFailures.toNat 1 ≤ failures rs + 1 →
        s'.venue.settle t .failed = ([.disconnected], none, { s'.venue.reset with disconnecting := true }))) ∧
    (next = none → (∀ u ∈ s'.tasks, u.mark ≠ t₀.mark) ∧
      ∃ xs r, rs = xs ++ [r] ∧ Ongoing (max p.maxPollFailures.toNat 1) xs ∧
        Final (max p.maxPollFailures.toNat 1) xs r ∧
        es = reports i (rates xs) ++ if r = .failed then [.disconnected] else []) := by
  have hi : t₀.instrument = i := by rw [(subscribe_started hsub).1]
  obtain ⟨hgoing, hended⟩ := course_invariant (polling_subscribe h hsub) hc
  refine ⟨⟨fun hsome => ?_, fun hongoing hnone => ?_⟩, fun t ht => ?_, fun hnone => ?_⟩
  · obtain ⟨t, ht⟩ := Option.ne_none_iff_exists'.1 hsome
    exact (hgoing t ht).ongoing
  · obtain ⟨xs, r, rfl, -, hfinal, -⟩ := (hended hnone).ended
    exact hongoing xs r (List.prefix_refl _) hfinal
  · have hpolling := hgoing t ht
    have hti := hpolling.instrument.trans hi
    have hsize : t.failures + 1 < UInt32.size := Nat.lt_of_le_of_lt hpolling.below (limit_lt p)
    refine ⟨hi ▸ hpolling.events, hpolling.mem, hpolling.mark, ?_, hpolling.failures, hsize, ?_, hpolling.settle_down⟩
    · rw [← hti]
      exact hpolling.owns.job hpolling.alive
    · rw [hpolling.settle_notOffered, hti]
  · have hover := hended hnone
    rw [← hi]
    exact ⟨hover.gone, hover.ended⟩

/-- A polled platform that goes down with the second failure. -/
def patient : PlatformSettings := { brittle with maxPollFailures := 2 }

def polled : Rate := ⟨"USDTRY", (Decimal.of? 319 1).getD .zero, (Decimal.of? 323 1).getD .zero, ⟨0, 0⟩⟩

/-- A rate makes up for a failure, a payload that cannot be read does not. -/
theorem reachable_polls_patient :
    ∃ s t₀ s' es, Reachable .utc patient s ∧ (s.venue.subscribe "USDTRY").1 = .ok (some t₀) ∧
      Course (s.after (.subscribe "USDTRY")) t₀
        [.quote polled, .failed, .malformed, .quote polled, .failed, .malformed, .failed] es none s' ∧
      es = [.available "USDTRY" polled, .update "USDTRY" polled, .disconnected] := by
  have hstart : Reachable .utc patient _ := .start rfl
  have hup := (hstart.after (m := .connect) trivial).after (m := .login (.ok "key")) Nat.one_pos
  have begins {s : PollingRun} (_ : Reachable .utc patient s) : Course s ⟨1, "USDTRY", "key", 0⟩ [] [] _ s := .start
  have h₁ := (begins (hup.after (m := .subscribe "USDTRY") trivial)).poll (.quote polled)
  have h₂ := Course.poll (t := ⟨1, "USDTRY", "key", 0⟩) .failed h₁
  have h₃ := Course.poll (t := ⟨1, "USDTRY", "key", 1⟩) .malformed h₂
  have h₄ := Course.poll (t := ⟨1, "USDTRY", "key", 1⟩) (.quote polled) h₃
  have h₅ := Course.poll (t := ⟨1, "USDTRY", "key", 0⟩) .failed h₄
  have h₆ := Course.poll (t := ⟨1, "USDTRY", "key", 1⟩) .malformed h₅
  have hcourse := Course.poll (t := ⟨1, "USDTRY", "key", 1⟩) .failed h₆
  obtain ⟨-, -, hended⟩ := reachable_polls hup rfl hcourse
  obtain ⟨-, xs, r, heq, -, -, hes⟩ := hended rfl
  have hsplit : ([.quote polled, .failed, .malformed, .quote polled, .failed, .malformed] : List PollResult) ++
    [.failed] = xs ++ [r] := heq
  obtain ⟨hxs, hr⟩ := List.append_inj' hsplit rfl
  cases hr
  exact ⟨_, _, _, _, hup, rfl, hcourse, by rw [hes, ← hxs]; rfl⟩

end PollingRun

end RateDesk
