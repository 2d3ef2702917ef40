import RateDesk.Health
import RateDesk.Proofs.Coordinator.Independence

/-!
# What is shown of the platforms

The worker of a platform knows in which state it is. The status and the gauge repeat it, and the health route
sums the statuses up.

* `Post.Shows` : what the status and the gauge of a platform show;
* `Post.performAll_shows` : whatever a worker decides, what it does about it shows where that leads;
* `Post.alerts_deed` : alerts are sent when a worker gives up and at no other time;
* `Coordinator.shows_run`, `alerts_run` : what holds of it all along;
* `run_shown` : every platform is shown as it is, and the health route counts the alerts.
-/

namespace RateDesk

/-- Whether an effect changes what is shown of the state. -/
def Effect.shows : Effect → Bool
  | enter .. => true
  | refresh .. => true
  | _ => false

/-- Only a worker that gives up sends an alert, once it shows that. -/
theorem Worker.Move.alert_mem {w w' : Worker} {t : Instant} {x : WorkerInput} {es : List Effect}
    (hm : w.Move t x w' es) (h : .alert ∈ es) : es = [.enter .failed w.retry.attempts, .alert] := by
  cases hm with
  | gaveUp _ _ _ _ => rfl
  | connected _ => simp at h
  | lost _ _ _ _ _ => simp at h
  | stranded _ _ _ _ _ => simp at h
  | quoted _ _ _ => simp at h
  | unsubscribed i => simp at h
  | retried => simp at h
  | tooLate _ => cases h
  | lostBefore _ _ => cases h
  | dropped _ _ => cases h

namespace Post

variable {σ : Type} {d : Derivation} {now : Now} {p : Post σ} {s : Shared} {a : Deed σ} {e : Effect}
  {es : List Effect} {state : PlatformState} {attempts : Nat}

/-- A state and the attempts since the last connection are shown, with the retry policy of the worker. -/
structure Shows (p : Post σ) (s : Shared) (x : PlatformState) (n : Nat) : Prop where
  state : p.status.state = x
  attempts : p.status.attempts = n
  limit : p.status.limit = p.worker.retry.limit
  delaySecs : p.status.delaySecs = p.worker.retry.delaySecs
  gauge : s.desk.metrics.value (.state p.worker.platform) = x.code

/-- What is shown is how the worker stands. -/
abbrev Shown (p : Post σ) (s : Shared) : Prop := p.Shows s p.worker.state p.worker.retry.attempts

variable [Venue σ]

/-! ## Effects -/

theorem performAll_cons (es : List Effect) (h : (perform d now p s e).fault = none) :
    let o := perform d now p s e
    let rest := performAll d now o.post o.shared es
    (performAll d now p s (e :: es)).post = rest.post ∧ (performAll d now p s (e :: es)).shared = rest.shared := by
  simp [performAll, h]

theorem shows_enter : (perform d now p s (.enter state attempts)).post.Shows
    (perform d now p s (.enter state attempts)).shared state attempts where
  state := rfl
  attempts := rfl
  limit := rfl
  delaySecs := rfl
  gauge := by simp [perform, present, Shared.mapMetrics, Metrics.value_set]

theorem Shows.perform (h : p.Shows s state attempts) (he : e.shows = false) :
    (perform d now p s e).post.Shows (perform d now p s e).shared state attempts := by
  cases e with
  | enter _ _ => cases he
  | refresh _ _ => cases he
  | countAttempt =>
    refine ⟨h.state, h.attempts, h.limit, h.delaySecs, ?_⟩
    simpa [Post.perform, Shared.mapMetrics, Metrics.value_count] using h.gauge
  | quote first i r =>
    refine ⟨h.state, h.attempts, h.limit, h.delaySecs, ?_⟩
    exact ((spares_handQuote d now p.worker.platform first i r s).value _ (Or.inl rfl)).trans h.gauge
  | connect => exact ⟨h.state, h.attempts, h.limit, h.delaySecs, h.gauge⟩
  | subscribe i => exact ⟨h.state, h.attempts, h.limit, h.delaySecs, h.gauge⟩
  | unsubscribe i => exact ⟨h.state, h.attempts, h.limit, h.delaySecs, h.gauge⟩
  | alert => exact ⟨h.state, h.attempts, h.limit, h.delaySecs, h.gauge⟩
  | halt f => exact ⟨h.state, h.attempts, h.limit, h.delaySecs, h.gauge⟩

theorem Shows.performAll (h : p.Shows s state attempts) (hes : ∀ e ∈ es, e.shows = false) :
    (performAll d now p s es).post.Shows (performAll d now p s es).shared state attempts := by
  induction es generalizing p s with
  | nil => exact h
  | cons e es ih =>
    have hfirst : (Post.perform d now p s e).post.Shows (Post.perform d now p s e).shared state attempts :=
      h.perform (hes e List.mem_cons_self)
    unfold Post.performAll
    dsimp only
    split
    · exact hfirst
    · exact ih hfirst fun e he => hes e (List.mem_cons_of_mem _ he)

/-- Once a state is entered it is shown, as long as nothing else is. -/
theorem performAll_enter (hes : ∀ e ∈ es, e.shows = false) :
    (performAll d now p s (.enter state attempts :: es)).post.Shows
      (performAll d now p s (.enter state attempts :: es)).shared state attempts := by
  obtain ⟨hpost, hshared⟩ := performAll_cons es (rfl : (perform d now p s (.enter state attempts)).fault = none)
  rw [hpost, hshared]
  exact shows_enter.performAll hes

/-- What a worker does about an input shows where the input leads. -/
theorem performAll_shows {w w' : Worker} {t : Instant} {x : WorkerInput} (hm : w.Move t x w' es)
    (h : p.Shows s w.state w.retry.attempts) (hw : w = p.worker) :
    (performAll d now { p with worker := w' } s es).post.Shows
      (performAll d now { p with worker := w' } s es).shared w'.state w'.retry.attempts := by
  subst hw
  cases hm with
  | connected _ =>
    rw [List.cons_append]
    obtain ⟨hpost, hshared⟩ := performAll_cons (p.worker.instruments.map .subscribe ++ [.enter .subscribed 0])
      (rfl : (perform d now { p with worker := { p.worker with
        state := .subscribed, retry := p.worker.retry.reset } } s (.enter .connected 0)).fault = none)
    rw [hpost, hshared, performAll_subscribes]
    exact performAll_enter nofun
  | lost _ _ _ _ _ => exact performAll_enter nofun
  | stranded _ _ _ _ _ => exact performAll_enter (by simp [Effect.shows])
  | gaveUp _ _ _ _ => exact performAll_enter (by simp [Effect.shows])
  | retried => exact performAll_enter (by simp [Effect.shows])
  | unsubscribed i =>
    exact ⟨rfl, rfl, rfl, rfl, h.gauge⟩
  | quoted _ _ _ => exact h.performAll (by simp [Effect.shows])
  | tooLate _ => exact h
  | lostBefore _ _ => exact h
  | dropped _ _ => exact h

/-- However it ends, a deed shows how the worker stands after it. -/
theorem shown_deed (h : p.Shown s) : (p.deed d now s a).post.Shown (p.deed d now s a).shared := by
  have hmade : (p.made a).Shows s p.worker.state p.worker.retry.attempts := by
    obtain ⟨_, _, _, _, heq⟩ := made_eq p a
    rw [heq]
    exact ⟨h.state, h.attempts, h.limit, h.delaySecs, h.gauge⟩
  rw [Shown, deed_worker, deed_eq]
  cases hdec : p.decision? now.instant a with
  | none => exact hmade
  | some decision =>
    have hall : (performAll d now { p.made a with worker := decision.1 } s decision.2).post.Shows
        (performAll d now { p.made a with worker := decision.1 } s decision.2).shared decision.1.state
        decision.1.retry.attempts := by
      obtain ⟨-, -, rfl⟩ | ⟨-, x, -, rfl⟩ := decision?_cases hdec
      · exact performAll_enter (by simp [Effect.shows])
      · exact performAll_shows (Worker.move_step p.worker now.instant x) hmade (made_worker p a).symm
    dsimp only [apply]
    split
    · exact ⟨hall.state, hall.attempts, hall.limit, hall.delaySecs, hall.gauge⟩
    · exact hall

/-! ## Alerts -/

theorem alerts_performAll_of_not_mem (h : .alert ∉ es) : (performAll d now p s es).shared.alerts = s.alerts := by
  refine performAll_shared (I := fun s' _ => s'.alerts = s.alerts) (fun q s' e he _ hs => ?_) rfl rfl
  cases e with
  | alert => exact absurd he h
  | quote first i r => exact (alerts_handQuote ..).trans hs
  | enter _ _ => exact hs
  | refresh _ _ => exact hs
  | countAttempt => exact hs
  | connect => exact hs
  | subscribe i => exact hs
  | unsubscribe i => exact hs
  | halt f => exact hs

omit [Venue σ] in
theorem input?_admits {t : Instant} {x : WorkerInput} (h : p.input? t a = some x) : p.worker.Admits x := by
  cases a with
  | handle =>
    obtain ⟨e, -, rfl⟩ := Option.map_eq_some_iff.1 h
    trivial
  | unsubscribe i =>
    cases h
    trivial
  | retry =>
    simp only [input?] at h
    split at h
    · cases h
      rename_i hdue
      intro hnone
      simp [hnone] at hdue
    · cases h
  | _ => cases h

theorem apply_shared (p : Post σ) (s : Shared) (decision : Worker × List Effect) :
    (apply d now p s decision).shared = (performAll d now { p with worker := decision.1 } s decision.2).shared := by
  unfold apply
  dsimp only
  split <;> rfl

/-- Every alert that a worker decides on is sent. -/
theorem alerts_deed : (p.deed d now s a).shared.alerts.length =
    s.alerts.length + (p.effects now.instant a).count .alert := by
  rw [deed_eq, effects]
  cases hdec : p.decision? now.instant a with
  | none => rfl
  | some decision =>
    dsimp only [Option.map_some, Option.getD_some]
    rw [apply_shared]
    by_cases halert : .alert ∈ decision.2
    · obtain ⟨-, -, rfl⟩ | ⟨-, x, -, rfl⟩ := decision?_cases hdec
      · simp [Worker.begin] at halert
      · rw [(Worker.move_step p.worker now.instant x).alert_mem halert]
        simp [performAll, perform, Shared.mapMetrics]
    · rw [alerts_performAll_of_not_mem halert, List.count_eq_zero_of_not_mem halert, Nat.add_zero]

/-- The worker of the post is as its loop leaves it, and before it begins it has neither connected nor given up. -/
structure Settled (p : Post σ) : Prop where
  sound : p.worker.Sound
  waiting : p.phase = .waiting → p.worker.state = .disconnected ∧ p.worker.timer = none

theorem settled_ofSettings (x : PlatformSettings) (policy : RetrySettings) (venue : σ) (time : Timestamp) :
    (Post.ofSettings x policy venue time).Settled where
  sound := ⟨fun _ => rfl, nofun, fun _ => rfl⟩
  waiting _ := ⟨rfl, rfl⟩

omit [Venue σ] in
theorem Settled.decision? (h : p.Settled) {t : Instant} {decision : Worker × List Effect}
    (hdec : p.decision? t a = some decision) :
    decision.1.Sound ∧ p.worker.gaveUp + decision.2.count .alert = decision.1.gaveUp := by
  obtain ⟨-, hphase, rfl⟩ | ⟨-, x, hx, rfl⟩ := decision?_cases hdec
  · obtain ⟨hstate, htimer⟩ := h.waiting hphase
    refine ⟨⟨fun _ => htimer, nofun, fun _ => htimer⟩, ?_⟩
    simp [Worker.begin, Worker.gaveUp, hstate]
  · have hmove := Worker.move_step p.worker t x
    exact ⟨h.sound.move hmove, hmove.count_alert (input?_admits hx) h.sound⟩

/-- Nothing makes a worker wait that did not wait already. -/
theorem waiting_of_made (h : (p.made a).phase = .waiting) : p.phase = .waiting := by
  cases a with
  | begin =>
    simp only [made] at h
    split at h
    · assumption
    · exact h
  | handle =>
    simp only [made] at h
    split at h <;> exact h
  | dial =>
    simp only [made, push] at h
    split at h
    · split at h <;> exact h
    · exact h
  | report e =>
    simp only [made, push] at h
    split at h <;> exact h
  | stop =>
    simp only [made, stop] at h
    split at h
    · cases h
    · exact h
  | unsubscribe i => exact h
  | retry => exact h
  | change f => exact h

theorem made_phase {t : Instant} {decision : Worker × List Effect} (hdec : p.decision? t a = some decision) :
    (p.made a).phase = .running := by
  obtain ⟨rfl, hphase, -⟩ | ⟨hphase, x, hx, -⟩ := decision?_cases hdec
  · simp [made, hphase]
  · cases a with
    | handle => simp [made, hphase]
    | unsubscribe i => exact hphase
    | retry => exact hphase
    | _ => cases hx

theorem Settled.deed (h : p.Settled) (a : Deed σ) : (p.deed d now s a).post.Settled := by
  apply deed_post (Q := Settled) d now p s a
  · intro _
    refine ⟨(made_worker p a).symm ▸ h.sound, fun hphase => ?_⟩
    rw [made_worker]
    exact h.waiting (waiting_of_made hphase)
  · intro decision hdec
    refine ⟨(h.decision? hdec).1, fun hphase => ?_⟩
    cases (made_phase hdec).symm.trans hphase
  · intro q s e _ hq
    have hleaves := leaves_perform d now q s e
    exact ⟨hleaves.worker ▸ hq.sound, fun hphase => hleaves.worker ▸ hq.waiting (hleaves.phase ▸ hphase)⟩
  · intro q hq
    exact ⟨hq.sound, nofun⟩

/-- A worker gives up by sending an alert. -/
theorem Settled.alerts (h : p.Settled) : (p.deed d now s a).shared.alerts.length + p.worker.gaveUp =
    s.alerts.length + (p.deed d now s a).post.worker.gaveUp := by
  rw [alerts_deed, deed_worker, effects]
  cases hdec : p.decision? now.instant a with
  | none => rfl
  | some decision =>
    have hcount := (h.decision? hdec).2
    dsimp only [Option.map_some, Option.getD_some]
    omega

end Post

/-- A status may stand anywhere in the list that is shown. -/
theorem PlatformStatus.sorted_perm {ss : List PlatformStatus} (hn : (ss.map PlatformStatus.platform).Nodup) :
    (sorted ss).Perm ss := by
  unfold sorted
  dsimp only
  rw [foldl_latest (by simpa using hn), List.nil_append]
  exact List.mergeSort_perm ss _

/-- A report that is degraded lists a platform as failed. -/
theorem HealthReport.status_eq_degraded (r : HealthReport) :
    r.status = "degraded" ↔ r.platforms.countP (·.state = .failed) ≠ 0 := by
  rw [← Nat.pos_iff_ne_zero, List.countP_pos_iff, status, isDegraded]
  split
  · rename_i hany
    simpa using hany
  · rename_i hany
    simpa using hany

namespace Coordinator

variable {σ : Type} {c : Coordinator σ} {n : Nat} {p : Post σ} {s : Settings}
  {build : PlatformSettings → Except Failure σ} {time : Timestamp}

def health (c : Coordinator σ) : HealthReport :=
  HealthReport.ofStatuses c.shared.desk.cache.size (c.posts.map Post.status)

/-- How many workers gave up. -/
def gaveUp (c : Coordinator σ) : Nat := c.posts.countP (·.worker.state = .failed)

variable [Venue σ]

theorem shown_after (hdistinct : c.platforms.Nodup) (h : ∀ p ∈ c.posts, p.Shown c.shared) (x : Action σ) :
    ∀ p ∈ (c.after x).posts, p.Shown (c.after x).shared := by
  cases x with
  | sweep now =>
    intro p hp
    have hshown := h p hp
    exact ⟨hshown.state, hshown.attempts, hshown.limit, hshown.delaySecs, hshown.gauge⟩
  | post n now a =>
    cases hp : c.posts[n]? with
    | none => rwa [after_post_none hp]
    | some p =>
      rw [after_post hp]
      intro q hq
      obtain ⟨m, hq⟩ := List.getElem?_of_mem hq
      by_cases hm : n = m
      · subst hm
        rw [List.getElem?_set_self (List.getElem?_eq_some_iff.1 hp).1] at hq
        obtain rfl := Option.some.inj hq
        exact Post.shown_deed (h p (List.mem_of_getElem? hp))
      · rw [List.getElem?_set_ne hm] at hq
        have hview : (p.deed c.derivation now c.shared a).shared.view q.worker.platform =
            c.shared.view q.worker.platform :=
          Post.view_deed_of_ne (ne_platform hdistinct hq hp hm)
        have hshown := h q (List.mem_of_getElem? hq)
        exact ⟨hshown.state, hshown.attempts, hshown.limit, hshown.delaySecs,
          (congrArg Shared.View.state hview).trans hshown.gauge⟩

theorem shown_run (hdistinct : c.platforms.Nodup) (h : ∀ p ∈ c.posts, p.Shown c.shared) (as : List (Action σ)) :
    ∀ p ∈ (c.run as).posts, p.Shown (c.run as).shared := by
  induction as generalizing c with
  | nil => exact h
  | cons x as ih => exact ih (by rwa [platforms_after]) (shown_after hdistinct h x)

omit [Venue σ] in
theorem gaveUp_le (hp : c.posts[n]? = some p) : p.worker.gaveUp ≤ c.gaveUp := by
  unfold Worker.gaveUp
  split
  · exact List.countP_pos_iff.2 ⟨p, List.mem_of_getElem? hp, by simpa⟩
  · exact Nat.zero_le _

omit [Venue σ] in
theorem countP_set (hp : c.posts[n]? = some p) (q : Post σ) :
    (c.posts.set n q).countP (·.worker.state = .failed) = c.gaveUp - p.worker.gaveUp + q.worker.gaveUp := by
  obtain ⟨hn, rfl⟩ := List.getElem?_eq_some_iff.1 hp
  simp [List.countP_set hn, gaveUp, Worker.gaveUp]

theorem alerts_after (hsettled : ∀ p ∈ c.posts, p.Settled) (h : c.shared.alerts.length = c.gaveUp) (x : Action σ) :
    (c.after x).shared.alerts.length = (c.after x).gaveUp := by
  cases x with
  | sweep now => exact h
  | post n now a =>
    cases hp : c.posts[n]? with
    | none => rwa [after_post_none hp]
    | some p =>
      have hdeed : (p.deed c.derivation now c.shared a).shared.alerts.length + p.worker.gaveUp =
          c.shared.alerts.length + (p.deed c.derivation now c.shared a).post.worker.gaveUp :=
        (hsettled p (List.mem_of_getElem? hp)).alerts
      have hle := gaveUp_le hp
      rw [after_post hp, gaveUp, countP_set hp]
      dsimp only
      omega

theorem alerts_run (hsettled : ∀ p ∈ c.posts, p.Settled) (h : c.shared.alerts.length = c.gaveUp)
    (as : List (Action σ)) : (c.run as).shared.alerts.length = (c.run as).gaveUp := by
  induction as generalizing c with
  | nil => exact h
  | cons x as ih =>
    exact ih (forall_posts_run (fun _ _ _ _ a hq => hq.deed a) hsettled [x]) (alerts_after hsettled h x)

omit [Venue σ] in
/-- Of platforms that are shown as they are, as many are listed as failed as were given up. -/
theorem failed_health (hdistinct : c.platforms.Nodup) (hlabelled : ∀ p ∈ c.posts, p.Labelled)
    (hshown : ∀ p ∈ c.posts, p.Shown c.shared) :
    c.health.platforms.countP (·.state = .failed) = c.gaveUp := by
  have hnames : (c.posts.map Post.status).map PlatformStatus.platform = c.platforms := by
    rw [List.map_map]
    exact List.map_congr_left hlabelled
  have hperm : c.health.platforms.Perm (c.posts.map Post.status) :=
    PlatformStatus.sorted_perm (hnames ▸ hdistinct)
  rw [hperm.countP_eq, List.countP_map]
  apply List.countP_congr
  intro p hp
  simp [(hshown p hp).state]

/-- **Every platform is shown as it is.** However the steps of platforms under different names interleave, the
status of each shows the state and the attempts of its worker under the policy of the settings, and the gauge
shows the code of that state. So the health route tells of trouble exactly if an alert was sent, and it lists as
many platforms as failed as alerts were sent. -/
theorem run_shown (hdistinct : (s.platforms.map PlatformSettings.name).Nodup) (hc : ofSettings s build time = .ok c)
    (as : List (Action σ)) :
    (∀ (n : Nat) (x : PlatformSettings), s.platforms[n]? = some x →
      ∃ p : Post σ, (c.run as).posts[n]? = some p ∧ p.worker.platform = x.name ∧
        (c.run as).status? x.name = some p.status ∧
        p.Shows (c.run as).shared p.worker.state p.worker.retry.attempts) ∧
    ((c.run as).health.status = "degraded" ↔ (c.run as).shared.alerts ≠ []) ∧
    (c.run as).health.platforms.countP (·.state = .failed) = (c.run as).shared.alerts.length := by
  have hnodup : c.platforms.Nodup := by rwa [platforms_ofSettings hc]
  have hnodup' : (c.run as).platforms.Nodup := by rwa [platforms_run]
  have hlabelled := labelled_run (labelled_ofSettings hc) as
  have hstart : ∀ p ∈ c.posts, p.Shown c.shared := forall_posts_ofSettings (Q := fun p => p.Shown c.shared)
    (fun x v => ⟨rfl, rfl, rfl, rfl, value_ofSettings hc _⟩) hc
  have hshown := shown_run hnodup hstart as
  have halerts : (c.run as).shared.alerts.length = (c.run as).gaveUp := by
    refine alerts_run (forall_posts_ofSettings (fun x v => Post.settled_ofSettings ..) hc) ?_ as
    have hnone : c.shared.alerts = [] := by rw [(ofSettings_eq_ok hc).2.2]
    have hgaveUp : c.gaveUp = 0 := List.countP_eq_zero.2 (forall_posts_ofSettings (fun x v => Bool.noConfusion) hc)
    rw [hnone, hgaveUp, List.length_nil]
  have hfailed := failed_health hnodup' hlabelled hshown
  refine ⟨fun n x hx => ?_, ?_, hfailed.trans halerts.symm⟩
  · have hname : (c.run as).platforms[n]? = some x.name := by
      rw [platforms_run, platforms_ofSettings hc, List.getElem?_map, hx, Option.map_some]
    rw [platforms, List.getElem?_map] at hname
    obtain ⟨p, hp, hplatform⟩ := Option.map_eq_some_iff.1 hname
    have hmem := List.mem_of_getElem? hp
    exact ⟨p, hp, hplatform, hplatform ▸ status?_eq hlabelled hnodup' hmem, hshown p hmem⟩
  · rw [HealthReport.status_eq_degraded, hfailed, ← halerts, Ne, List.length_eq_zero_iff]

def setback (n : Nat) (t : Instant) : List (Action σ) :=
  [.post n ⟨t, ⟨0, 0⟩⟩ .retry, .post n ⟨t, ⟨0, 0⟩⟩ (.report (.connected false)), .post n ⟨t, ⟨0, 0⟩⟩ .handle]

/-- One of two platforms is lost, and given up when twelve attempts have failed. -/
def lost : List (Action ScriptedVenue) :=
  opening 0 ++ opening 1 ++ delivery 1 .disconnected ++
    (List.range 12).flatMap fun k => setback 1 (20000 * (k + 1))

set_option maxRecDepth 4000 in
theorem run_shown_lost :
    (((rehearsed pair).run lost).status? "REST").map (fun x => (x.state, x.attempts)) = some (.failed, 12) ∧
      ((rehearsed pair).run lost).health.status = "degraded" ∧
      ((rehearsed pair).run lost).health.platforms.countP (·.state = .failed) = 1 := by
  obtain ⟨hshown, hdegraded, hfailed⟩ := run_shown (by decide) (ofSettings_watching pair) lost
  have halerts : ((rehearsed pair).run lost).shared.alerts = [⟨"REST", 12, 10⟩] := rfl
  obtain ⟨p, hp, -, hstatus, hshows⟩ := hshown 1 _ rfl
  obtain rfl := Option.some.inj hp
  refine ⟨?_, hdegraded.2 (by simp [halerts]), hfailed.trans (by rw [halerts]; rfl)⟩
  rw [hstatus, Option.map_some, hshows.state, hshows.attempts]
  rfl

end Coordinator

end RateDesk
