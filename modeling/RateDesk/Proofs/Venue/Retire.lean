import RateDesk.Proofs.Venue.Polls

/-!
# Jobs that retire late

A job that is told that its instrument is not offered tests its mark, and only then retires. In between, its
subscription may be cancelled and made anew.

* `PollingVenue.Replaced` : the table holds no job of a task;
* `LateRun`, `LateRun.Step` : runs in which jobs retire late;
* `LateRun.Reachable.kept` : the invariant of a run holds in these as well;
* `retire_replaced` : a job that was replaced takes nothing away but the mark of the quotes of its instrument;
* `quote_reported_anew` : the subscription that took its place then reports a later quote as its first.
-/

namespace RateDesk

namespace PollingVenue

variable {v : PollingVenue} {t u : PollTask}

/-- The table holds no job of the task: its subscription was cancelled, or another one has taken its place. -/
def Replaced (v : PollingVenue) (t : PollTask) : Prop := v.jobs.lookup t.instrument ≠ some t.mark

theorem jobs_retire (h : v.Replaced t) : (v.retire t).jobs = v.jobs := if_neg h

theorem seen_retire (v : PollingVenue) (t : PollTask) : (v.retire t).seen = v.seen.filter (· ≠ t.instrument) := rfl

theorem cancelled_retire (v : PollingVenue) (t : PollTask) : (v.retire t).cancelled = t.mark :: v.cancelled := rfl

theorem not_mem_seen_retire (v : PollingVenue) (t : PollTask) : t.instrument ∉ (v.retire t).seen := by
  simp [seen_retire]

/-- A quote is an update if its instrument is marked, and the first one otherwise. -/
theorem settle_quote_events (hc : u.mark ∉ v.cancelled) (r : Rate) :
    (v.settle u (.quote r)).1 =
      [if u.instrument ∈ v.seen then .update u.instrument r else .available u.instrument r] := by
  rw [settle_quote hc, report]
  split <;> rfl

/-- A job that was replaced before it tested its mark leaves everything as it is. -/
theorem Sound.settle_replaced (h : v.Sound) (ht : v.Owns t) (hr : v.Replaced t) (r : PollResult) :
    v.settle t r = ([], none, v) := by
  have hc : t.mark ∈ v.cancelled := by
    by_contra hc
    exact hr (h.lookup ht hc)
  exact settle_cancelled hc r

end PollingVenue

open PollingVenue

/-! ## Runs with late jobs -/

/-- A polled venue with the jobs that are about to retire: each was told that its instrument is not offered, and was
not cancelled when it tested its mark. -/
structure LateRun where
  run : PollingRun
  late : List PollTask

namespace LateRun

/-- What may come next; the test of a job that retires, and what it then does, are two steps. -/
inductive Step (s : LateRun) : LateRun → Prop where
  | run {r : PollingRun} : s.run.Step r → Step s { s with run := r }
  | test {t : PollTask} : t ∈ s.run.tasks → t.mark ∉ s.run.venue.cancelled →
    Step s ⟨{ s.run with tasks := s.run.tasks.erase t }, t :: s.late⟩
  | retire {t : PollTask} : t ∈ s.late →
    Step s ⟨{ s.run with venue := s.run.venue.retire t }, s.late.erase t⟩

/-- What can become of a venue that is made from settings. -/
inductive Reachable (zone : Time.Zone) (p : PlatformSettings) : LateRun → Prop where
  | start {v : PollingVenue} : PollingVenue.ofSettings zone p = .ok v → Reachable zone p ⟨PollingRun.start v, []⟩
  | step {s s' : LateRun} : Reachable zone p s → s.Step s' → Reachable zone p s'

variable {zone : Time.Zone} {p : PlatformSettings} {s s' : LateRun} {name : String} {t : PollTask}

/-- What holds between any two steps. -/
structure Kept (name : String) (s : LateRun) : Prop where
  run : s.run.Kept name
  owns : ∀ t ∈ s.late, s.run.venue.Owns t

theorem Kept.test (h : s.Kept name) (ht : t ∈ s.run.tasks) :
    Kept name ⟨{ s.run with tasks := s.run.tasks.erase t }, t :: s.late⟩ where
  run := ⟨h.run.sound, fun u hu => h.run.owns u (List.mem_of_mem_erase hu), h.run.platform, h.run.told⟩
  owns := List.forall_mem_cons.2 ⟨h.run.owns t ht, h.owns⟩

theorem Kept.retire (h : s.Kept name) (t : PollTask) :
    Kept name ⟨{ s.run with venue := s.run.venue.retire t }, s.late.erase t⟩ where
  run := ⟨h.run.sound.retire t, fun u hu => h.run.sound.owns_retire (h.run.owns u hu) t, h.run.platform, h.run.told⟩
  owns u hu := h.run.sound.owns_retire (h.owns u (List.mem_of_mem_erase hu)) t

theorem Kept.step (h : s.Kept name) (hs : s.Step s') : s'.Kept name := by
  cases hs with
  | run hrun => exact ⟨h.run.step hrun, fun t ht => h.run.owns_step hrun (h.owns t ht)⟩
  | test ht _ => exact h.test ht
  | @retire t _ => exact h.retire t

/-- However late jobs retire, token, jobs, marks and the flag of an outage stay tied together, and connections, quotes
and outages are reported in the same order. -/
theorem Reachable.kept (h : Reachable zone p s) : s.Kept p.name := by
  induction h with
  | start hv => exact ⟨PollingRun.kept_start hv, nofun⟩
  | step _ hs ih => exact ih.step hs

/-- The job of the first subscription. -/
def former : PollTask := ⟨1, "USDTRY", "key", 0⟩

/-- The job of the subscription that took its place. -/
def latter : PollTask := ⟨2, "USDTRY", "key", 0⟩

/-- A subscription is cancelled and made anew while its job is about to retire, and the new one reports a quote. -/
theorem reachable_resubscribed : ∃ s, Reachable .utc PollingRun.brittle s ∧ s.late = [former] ∧ s.run.tasks = [latter] ∧
    s.run.venue.jobs = [("USDTRY", 2)] ∧ s.run.venue.cancelled = [1] ∧ s.run.venue.seen = ["USDTRY"] := by
  have hstart : Reachable .utc PollingRun.brittle _ := .start rfl
  have hup := (hstart.step (.run .connect)).step (.run (.login (.ok "key") rfl))
  have htest := (hup.step (.run (.subscribe "USDTRY"))).step (@Step.test _ former List.mem_cons_self List.not_mem_nil)
  have hanew := (htest.step (.run (.unsubscribe "USDTRY"))).step (.run (.subscribe "USDTRY"))
  have hquote := hanew.step (.run (@PollingRun.Step.settle _ latter (.quote PollingRun.polled) List.mem_cons_self))
  exact ⟨_, hquote, rfl, rfl, rfl, rfl, rfl⟩

theorem replaced_former (h : s.run.venue.jobs = [("USDTRY", 2)]) : s.run.venue.Replaced former := by
  rw [Replaced, h]
  decide

end LateRun

/-! ## Jobs that were replaced -/

/-- **Jobs that were replaced.** A job that retires although it is not in the table leaves jobs, token and the flag of
an outage as they are, but it takes away the mark of the quotes of its instrument. So it leaves everything as it is
exactly if there is no such mark: if the subscription that took its place has reported a quote, it reports its next one
as the first again, and not as an update. Nothing of this comes of a job that was replaced before it tested its mark. -/
theorem retire_replaced {v : PollingVenue} {t : PollTask} (hr : v.Replaced t) :
    (v.retire t).jobs = v.jobs ∧ (v.retire t).token = v.token ∧ (v.retire t).disconnecting = v.disconnecting ∧
    (∀ i, i ∈ (v.retire t).seen ↔ i ∈ v.seen ∧ i ≠ t.instrument) ∧
    ((v.retire t).seen = v.seen ↔ t.instrument ∉ v.seen) ∧
    (∀ u, v.jobs.lookup t.instrument = some u.mark → u.instrument = t.instrument → u.mark ∉ v.cancelled → ∀ r,
      (v.settle u (.quote r)).1 =
        [if t.instrument ∈ v.seen then .update t.instrument r else .available t.instrument r] ∧
      ((v.retire t).settle u (.quote r)).1 = [.available t.instrument r]) ∧
    (v.Sound → v.Owns t → ∀ r, v.settle t r = ([], none, v)) := by
  refine ⟨jobs_retire hr, rfl, rfl, by simp [seen_retire], ⟨fun heq => ?_, fun hmem => ?_⟩, fun u hu hi hc r => ⟨?_, ?_⟩,
    fun h ht r => h.settle_replaced ht hr r⟩
  · exact heq ▸ not_mem_seen_retire v t
  · rw [seen_retire]
    refine List.filter_eq_self.2 fun i hi => ?_
    simpa using fun heq : i = t.instrument => hmem (heq ▸ hi)
  · rw [settle_quote_events hc, hi]
  · have hne : u.mark ≠ t.mark := fun heq => hr (heq ▸ hu)
    have hc' : u.mark ∉ (v.retire t).cancelled := by simp [cancelled_retire, hne, hc]
    rw [settle_quote_events hc', hi, if_neg (not_mem_seen_retire v t)]

open LateRun

/-- A job that retires after its subscription was made anew. -/
theorem retire_replaced_former : ∃ s, Reachable .utc PollingRun.brittle s ∧ former ∈ s.late ∧
    s.run.venue.Replaced former ∧ (s.run.venue.retire former).jobs = s.run.venue.jobs ∧
    (s.run.venue.retire former).token = s.run.venue.token ∧ ∀ i, i ∉ (s.run.venue.retire former).seen := by
  obtain ⟨s, hs, hlate, -, hjobs, -, hseen⟩ := reachable_resubscribed
  have hr := replaced_former hjobs
  obtain ⟨hjobs', htoken, -, hmarks, -⟩ := retire_replaced hr
  refine ⟨s, hs, by simp [hlate], hr, hjobs', htoken, fun i hi => ?_⟩
  obtain ⟨hmem, hne⟩ := (hmarks i).1 hi
  rw [hseen] at hmem
  exact hne (List.mem_singleton.1 hmem)

/-- Once the former job has retired, the latter one reports its next quote as the first again. -/
theorem quote_reported_anew : ∃ s, Reachable .utc PollingRun.brittle s ∧ former ∈ s.late ∧ latter ∈ s.run.tasks ∧
    s.run.venue.Replaced former ∧ (s.run.venue.retire former).seen ≠ s.run.venue.seen ∧
    (s.run.venue.settle latter (.quote PollingRun.polled)).1 = [.update "USDTRY" PollingRun.polled] ∧
    ((s.run.venue.retire former).settle latter (.quote PollingRun.polled)).1 =
      [.available "USDTRY" PollingRun.polled] := by
  obtain ⟨s, hs, hlate, htasks, hjobs, hcancelled, hseen⟩ := reachable_resubscribed
  have hretired : (s.run.venue.retire former).seen = [] := by
    rw [seen_retire, hseen]
    rfl
  have halive : latter.mark ∉ (s.run.venue.retire former).cancelled := by
    rw [cancelled_retire, hcancelled]
    decide
  refine ⟨s, hs, by simp [hlate], by simp [htasks], replaced_former hjobs, by simp [hretired, hseen], ?_, ?_⟩
  · rw [settle_quote_events (by rw [hcancelled]; decide), hseen]
    rfl
  · rw [settle_quote_events halive, hretired]
    rfl

end RateDesk
