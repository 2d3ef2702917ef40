import Mathlib.Data.List.Nodup
import RateDesk.Proofs.Coordinator.Run
import RateDesk.Proofs.Desk.Moderate

/-!
# Platforms do not disturb each other

What becomes of a platform depends on what happens to its own post and on nothing else.

* `Shared.view` : what the things shared show of a platform;
* `Post.deed_mirrored` : a deed leaves two equal posts equal, whatever else is shared;
* `Coordinator.Mirrors` : two coordinators that show the same of a platform;
* `status?_eq` : the status of a platform is found under its name;
* `run_alone` : a platform in a run of many is as in a run of its own.
-/

namespace RateDesk

/-- What the things shared show of a platform. -/
structure Shared.View where
  alerts : List Alert
  /-- The gauge of its state. -/
  state : Int
  /-- The connects that were counted. -/
  attempts : Int

def Shared.view (s : Shared) (name : String) : Shared.View where
  alerts := s.alerts.filter (·.platform = name)
  state := s.desk.metrics.value (.state name)
  attempts := s.desk.metrics.value (.attempts name)

namespace Post

variable {σ : Type} [Venue σ] {d d' : Derivation} {now : Now} {p : Post σ} {s s' : Shared} {a : Deed σ} {name : String}

/-! ## Effects -/

omit [Venue σ] in
theorem view_handQuote (first : Bool) (i : String) (r : Rate) (platform : String) :
    (handQuote d now platform first i r s).1.view name = s.view name := by
  have hspares := spares_handQuote d now platform first i r s
  simp only [Shared.view, alerts_handQuote]
  rw [hspares.value _ (Or.inl rfl), hspares.value _ (Or.inr rfl)]

/-- The effects of a platform are not seen on another. -/
theorem view_perform_of_ne (e : Effect) (hne : p.worker.platform ≠ name) :
    (perform d now p s e).shared.view name = s.view name := by
  cases e with
  | enter state attempts => simp [perform, Shared.view, Shared.mapMetrics, Metrics.value_set, Ne.symm hne]
  | countAttempt => simp [perform, Shared.view, Shared.mapMetrics, Metrics.value_count, Ne.symm hne]
  | quote first i r => exact view_handQuote first i r _
  | alert => simp [perform, Shared.view, hne]
  | refresh state attempts => rfl
  | connect => rfl
  | subscribe i => rfl
  | unsubscribe i => rfl
  | halt f => rfl

/-- The effects of a platform are seen on it, whatever is shared besides. -/
theorem view_perform (e : Effect) (hview : s.view p.worker.platform = s'.view p.worker.platform) :
    (perform d now p s e).shared.view p.worker.platform = (perform d' now p s' e).shared.view p.worker.platform := by
  obtain ⟨halerts, hstate, hattempts⟩ := Shared.View.mk.inj hview
  cases e with
  | enter state attempts => simp [perform, Shared.view, Shared.mapMetrics, Metrics.value_set, halerts, hattempts]
  | countAttempt => simp [perform, Shared.view, Shared.mapMetrics, Metrics.value_count, halerts, hstate, hattempts]
  | quote first i r => exact (view_handQuote first i r _).trans (hview.trans (view_handQuote first i r _).symm)
  | alert => simp [perform, Shared.view, halerts, hstate, hattempts]
  | refresh state attempts => exact hview
  | connect => exact hview
  | subscribe i => exact hview
  | unsubscribe i => exact hview
  | halt f => exact hview

theorem post_perform (e : Effect) : (perform d now p s e).post = (perform d' now p s' e).post := by
  cases e <;> rfl

/-- Effects without a fault, one after the other. -/
theorem performAll_cons_of_calm {e : Effect} {es : List Effect} (h : (performAll d now p s (e :: es)).fault = none) :
    let o := perform d now p s e
    let rest := performAll d now o.post o.shared es
    rest.fault = none ∧ (performAll d now p s (e :: es)).post = rest.post ∧
      (performAll d now p s (e :: es)).shared = rest.shared := by
  cases hf : (perform d now p s e).fault with
  | some f => simp [performAll, hf] at h
  | none => simpa [performAll, hf] using h

theorem performAll_mirrored {es : List Effect} (hname : p.worker.platform = name) (hview : s.view name = s'.view name)
    (hcalm : (performAll d now p s es).fault = none) (hcalm' : (performAll d' now p s' es).fault = none) :
    (performAll d now p s es).post = (performAll d' now p s' es).post ∧
      (performAll d now p s es).shared.view name = (performAll d' now p s' es).shared.view name := by
  induction es generalizing p s s' with
  | nil => exact ⟨rfl, hview⟩
  | cons e es ih =>
    subst hname
    obtain ⟨hrest, hpost, hshared⟩ := performAll_cons_of_calm hcalm
    obtain ⟨hrest', hpost', hshared'⟩ := performAll_cons_of_calm hcalm'
    rw [hpost, hpost', hshared, hshared']
    have hsame : (perform d now p s e).post = (perform d' now p s' e).post := post_perform e
    rw [hsame] at hrest ⊢
    exact ih (congrArg Worker.platform (leaves_perform d' now p s' e).worker) (view_perform e hview) hrest hrest'

theorem apply_of_calm {decision : Worker × List Effect} (h : (apply d now p s decision).fault = none) :
    apply d now p s decision = performAll d now { p with worker := decision.1 } s decision.2 := by
  unfold apply at h ⊢
  dsimp only at h ⊢
  split at h
  · rename_i hf
    simp [hf] at h
  · rfl

/-- What is shared besides makes no difference to a deed, unless it has a part in a fault. -/
theorem deed_mirrored (hname : p.worker.platform = name) (hview : s.view name = s'.view name)
    (hcalm : (p.deed d now s a).fault = none) (hcalm' : (p.deed d' now s' a).fault = none) :
    (p.deed d now s a).post = (p.deed d' now s' a).post ∧
      (p.deed d now s a).shared.view name = (p.deed d' now s' a).shared.view name := by
  rw [deed_eq] at hcalm hcalm' ⊢
  rw [deed_eq d']
  cases hdec : p.decision? now.instant a with
  | none => exact ⟨rfl, hview⟩
  | some decision =>
    rw [hdec] at hcalm hcalm'
    dsimp only at hcalm hcalm' ⊢
    have hall := apply_of_calm hcalm
    have hall' := apply_of_calm hcalm'
    rw [hall] at hcalm ⊢
    rw [hall'] at hcalm' ⊢
    exact performAll_mirrored ((decision?_platform hdec).trans hname) hview hcalm hcalm'

/-- The deeds of a platform are not seen on another. -/
theorem view_deed_of_ne (hne : p.worker.platform ≠ name) : (p.deed d now s a).shared.view name = s.view name := by
  apply deed_shared (I := fun s' _ => s'.view name = s.view name) d now p a
  · intro q s' e _ hq hs
    exact (view_perform_of_ne e (hq ▸ hne)).trans hs
  · rfl

end Post

/-! ## Statuses -/

theorem PlatformStatus.foldl_latest {acc ss : List PlatformStatus}
    (hn : ((acc ++ ss).map PlatformStatus.platform).Nodup) :
    ss.foldl (fun acc s => acc.filter (fun t => t.platform ≠ s.platform) ++ [s]) acc = acc ++ ss := by
  induction ss generalizing acc with
  | nil => simp
  | cons s ss ih =>
    have hkept : acc.filter (fun t => t.platform ≠ s.platform) = acc := by
      rw [List.filter_eq_self]
      intro t ht
      rw [List.map_append, List.nodup_append'] at hn
      have hdisjoint := hn.2.2 (List.mem_map_of_mem ht)
      simp_all
    rw [List.foldl_cons, hkept, ih (by simpa using hn), List.append_assoc]
    rfl

/-- Of several statuses for different platforms each is found under its name. -/
theorem PlatformStatus.find?_sorted {ss : List PlatformStatus} (hn : (ss.map PlatformStatus.platform).Nodup)
    {x : PlatformStatus} (hx : x ∈ ss) : (sorted ss).find? (·.platform == x.platform) = some x := by
  unfold sorted
  dsimp only
  rw [foldl_latest (by simpa using hn), List.nil_append]
  have hmem : ∀ y, y ∈ ss.mergeSort (fun s t => decide (s.platform ≤ t.platform)) ↔ y ∈ ss := fun y =>
    (List.mergeSort_perm ss _).mem_iff
  have hsome : ((ss.mergeSort _).find? (·.platform == x.platform)).isSome :=
    List.find?_isSome.2 ⟨x, (hmem x).2 hx, beq_self_eq_true x.platform⟩
  obtain ⟨y, hy⟩ := Option.isSome_iff_exists.1 hsome
  have hsame : y.platform = x.platform := by simpa using List.find?_some hy
  rw [hy, List.inj_on_of_nodup_map hn ((hmem y).1 (List.mem_of_find?_eq_some hy)) hx hsame]

namespace Post

variable {σ : Type} [Venue σ] {d : Derivation} {now : Now} {p : Post σ} {s : Shared} {a : Deed σ}

def Labelled (p : Post σ) : Prop := p.status.platform = p.worker.platform

theorem Labelled.deed (h : p.Labelled) (a : Deed σ) : (p.deed d now s a).post.Labelled := by
  have hmade : (p.made a).status.platform = p.worker.platform := by rw [made_status, h]
  apply deed_post
  · intro _
    exact hmade.trans (congrArg Worker.platform (made_worker p a)).symm
  · intro decision hdec
    exact hmade.trans (decision?_platform hdec).symm
  · intro q s e _ hq
    cases e <;> first | exact hq | rfl
  · intro q hq
    exact hq

end Post

namespace Coordinator

variable {σ : Type} [Venue σ] {c c₀ : Coordinator σ} {n : Nat} {name : String} {p : Post σ} {s s₀ : Settings}
  {build : PlatformSettings → Except Failure σ} {time : Timestamp} {as : List (Action σ)}

/-! ## Runs -/

/-- What happens to a post in a run, as a run of a coordinator that has only this post. -/
def alone (n : Nat) (as : List (Action σ)) : List (Action σ) :=
  as.filterMap fun
    | .post m now a => if m = n then some (.post 0 now a) else none
    | .sweep _ => none

/-- The coordinator `c₀` shows at its first post what `c` shows at post `n`. -/
structure Mirrors (name : String) (n : Nat) (p : Post σ) (c c₀ : Coordinator σ) : Prop where
  post : c.posts[n]? = some p
  post₀ : c₀.posts[0]? = some p
  platform : p.worker.platform = name
  view : c.shared.view name = c₀.shared.view name

/-- What happens elsewhere is not seen. -/
theorem view_after_of_ne (hdistinct : c.platforms.Nodup) (hp : c.posts[n]? = some p) (x : Action σ)
    (hx : ∀ now a, x ≠ .post n now a) :
    (c.after x).shared.view p.worker.platform = c.shared.view p.worker.platform := by
  cases x with
  | sweep now => rfl
  | post m now a =>
    have hm : m ≠ n := fun h => hx now a (by rw [h])
    cases hq : c.posts[m]? with
    | none => rw [after_post_none hq]
    | some q =>
      rw [after_post hq]
      exact Post.view_deed_of_ne (ne_platform hdistinct hp hq hm)

theorem run_mirrored (h : Mirrors name n p c c₀) (hdistinct : c.platforms.Nodup) (hcalm : c.Calm as)
    (hcalm₀ : c₀.Calm (alone n as)) :
    (∃ q, Mirrors name n q (c.run as) (c₀.run (alone n as))) ∧
      effects n c as = effects 0 c₀ (alone n as) := by
  -- on the actions of the full run: one at post `n` is taken on both sides, any other on one side only
  induction as generalizing c c₀ p with
  | nil => exact ⟨⟨p, h⟩, rfl⟩
  | cons x as ih =>
    have hdistinct' : (c.after x).platforms.Nodup := by rwa [platforms_after]
    by_cases hx : ∃ now a, x = .post n now a
    · obtain ⟨now, a, rfl⟩ := hx
      have halone : alone n (.post n now a :: as) = .post 0 now a :: alone n as := by simp [alone]
      rw [halone] at hcalm₀ ⊢
      have hcalm' : (p.deed c.derivation now c.shared a).fault = none := by simpa [outcome?, h.post] using hcalm.1
      have hcalm₀' : (p.deed c₀.derivation now c₀.shared a).fault = none := by
        simpa [outcome?, h.post₀] using hcalm₀.1
      obtain ⟨hpost, hview⟩ := Post.deed_mirrored h.platform h.view hcalm' hcalm₀'
      have hnext : Mirrors name n (p.deed c.derivation now c.shared a).post (c.after (.post n now a))
          (c₀.after (.post 0 now a)) := by
        refine ⟨posts_after h.post now a, hpost ▸ posts_after h.post₀ now a, ?_, ?_⟩
        · rw [Post.deed_platform, h.platform]
        · rw [after_post h.post, after_post h.post₀]
          exact hview
      obtain ⟨hmirrors, heffects⟩ := ih hnext hdistinct' hcalm.2 hcalm₀.2
      refine ⟨hmirrors, ?_⟩
      rw [effects, effects, notes, notes, noted_post _ h.post, noted_post _ h.post₀]
      exact congrArg _ heffects
    · have halone : alone n (x :: as) = alone n as := by
        cases x with
        | sweep now => rfl
        | post m now a =>
          have hm : m ≠ n := fun hm => hx ⟨now, a, by rw [hm]⟩
          simp [alone, hm]
      obtain ⟨hpost, hnoted⟩ := (after_elsewhere h.post x).resolve_left hx
      have hview := view_after_of_ne hdistinct h.post x fun now a heq => hx ⟨now, a, heq⟩
      rw [h.platform] at hview
      rw [halone] at hcalm₀ ⊢
      obtain ⟨hmirrors, heffects⟩ :=
        ih ⟨hpost, h.post₀, h.platform, hview.trans h.view⟩ hdistinct' hcalm.2 hcalm₀
      refine ⟨hmirrors, ?_⟩
      rw [effects, notes, hnoted]
      exact heffects

theorem labelled_run (h : ∀ q ∈ c.posts, q.Labelled) (as : List (Action σ)) : ∀ q ∈ (c.run as).posts, q.Labelled :=
  forall_posts_run (fun _ _ _ _ a hq => hq.deed a) h as

theorem labelled_ofSettings (hc : ofSettings s build time = .ok c) : ∀ q ∈ c.posts, q.Labelled :=
  forall_posts_ofSettings (fun _ _ => rfl) hc

theorem view_ofSettings (hc : ofSettings s build time = .ok c) (name : String) : c.shared.view name = ⟨[], 0, 0⟩ := by
  have halerts : c.shared.alerts = [] := by rw [(ofSettings_eq_ok hc).2.2]
  simp [Shared.view, halerts, value_ofSettings hc]

omit [Venue σ] in
/-- The status of a platform is found under its name. -/
theorem status?_eq (h : ∀ q ∈ c.posts, q.Labelled) (hdistinct : c.platforms.Nodup) (hp : p ∈ c.posts) :
    c.status? p.worker.platform = some p.status := by
  have hnames : (c.posts.map Post.status).map PlatformStatus.platform = c.platforms := by
    rw [List.map_map]
    exact List.map_congr_left h
  rw [← h p hp]
  exact PlatformStatus.find?_sorted (hnames ▸ hdistinct) (List.mem_map_of_mem hp)

/-- **Platforms do not disturb each other.** However the steps of many platforms under different names
interleave, a platform ends as if its own steps had been taken alone, over a desk of its own that may derive
and keep rates in another way: with the same worker and venue, the same status, gauge and alerts, and the
same effects on the way. No step may cause a fault, neither in the run of all platforms nor, over its own desk,
in the run of the platform alone. -/
theorem run_alone {x : PlatformSettings} (hdistinct : (s.platforms.map PlatformSettings.name).Nodup)
    (hc : ofSettings s build time = .ok c) (hx : s.platforms[n]? = some x) (hcalm : c.Calm as)
    (halone : s₀.platforms = [x]) (hretry : s₀.retry = s.retry) :
    ∃ c₀, ofSettings s₀ build time = .ok c₀ ∧ (c₀.Calm (alone n as) →
      ∃ p, (c.run as).posts[n]? = some p ∧ (c₀.run (alone n as)).posts[0]? = some p ∧
        (c.run as).status? x.name = some p.status ∧ (c₀.run (alone n as)).status? x.name = some p.status ∧
        (c.run as).shared.view x.name = (c₀.run (alone n as)).shared.view x.name ∧
        effects n c as = effects 0 c₀ (alone n as)) := by
  obtain ⟨v, hv, hpost⟩ := posts_ofSettings hc hx
  obtain ⟨c₀, hc₀⟩ : ∃ c₀, ofSettings s₀ build time = .ok c₀ := by
    simp [ofSettings, halone, hv, bind, Except.bind, pure, Except.pure]
  refine ⟨c₀, hc₀, fun hcalm₀ => ?_⟩
  obtain ⟨v₀, hv₀, hpost₀⟩ := posts_ofSettings (n := 0) hc₀ (by rw [halone]; rfl)
  obtain rfl : v = v₀ := Except.ok.inj (hv.symm.trans hv₀)
  have hnodup : c.platforms.Nodup := by rwa [platforms_ofSettings hc]
  have hnodup₀ : c₀.platforms.Nodup := by simp [platforms_ofSettings hc₀, halone]
  have hstart : Mirrors x.name n (Post.ofSettings x s.retry v time) c c₀ :=
    ⟨hpost, hretry ▸ hpost₀, rfl, (view_ofSettings hc _).trans (view_ofSettings hc₀ _).symm⟩
  obtain ⟨⟨p, hp⟩, heffects⟩ := run_mirrored hstart hnodup hcalm hcalm₀
  have hstatus : (c.run as).status? p.worker.platform = some p.status :=
    status?_eq (labelled_run (labelled_ofSettings hc) as) (by rwa [platforms_run]) (List.mem_of_getElem? hp.post)
  have hstatus₀ : (c₀.run (alone n as)).status? p.worker.platform = some p.status :=
    status?_eq (labelled_run (labelled_ofSettings hc₀) _) (by rwa [platforms_run]) (List.mem_of_getElem? hp.post₀)
  rw [hp.platform] at hstatus hstatus₀
  exact ⟨p, hp.post, hp.post₀, hstatus, hstatus₀, hp.view, heffects⟩

def interleaved : List (Action ScriptedVenue) :=
  opening 0 ++ delivery 0 (.available "USDTRY" (Desk.tenths "USDTRY" 320 324)) ++ opening 1 ++
    delivery 0 (.update "USDTRY" (Desk.tenths "USDTRY" 420 424)) ++ delivery 1 .disconnected ++
    [.sweep 5, .post 0 ⟨6, ⟨0, 0⟩⟩ (.unsubscribe "USDTRY")]

theorem run_alone_interleaved :
    ∃ p, ((rehearsed pair).run interleaved).posts[1]? = some p ∧
      ((rehearsed (pair.drop 1)).run (alone 1 interleaved)).posts[0]? = some p ∧
      ((rehearsed pair).run interleaved).status? "REST" = some p.status ∧
      p.worker.state = .disconnected ∧ p.worker.timer = some 10004 := by
  have hcalm : (rehearsed pair).Calm interleaved :=
    ⟨rfl, rfl, rfl, rfl, rfl, rfl, rfl, rfl, rfl, rfl, rfl, rfl, rfl, rfl, trivial⟩
  have hcalm₀ : (rehearsed (pair.drop 1)).Calm (alone 1 interleaved) := ⟨rfl, rfl, rfl, rfl, rfl, trivial⟩
  have halone : (watching (pair.drop 1)).platforms = [_] := rfl
  obtain ⟨c₀, hc₀, hsame⟩ := run_alone (n := 1) (by decide) (ofSettings_watching pair) rfl hcalm halone rfl
  obtain rfl : c₀ = rehearsed (pair.drop 1) := Except.ok.inj (hc₀.symm.trans (ofSettings_watching _))
  obtain ⟨p, hp, hp₀, hstatus, -, -, -⟩ := hsame hcalm₀
  have hworker : ((rehearsed pair).run interleaved).posts[1]?.map (fun p => (p.worker.state, p.worker.timer)) =
      some (.disconnected, some 10004) := rfl
  rw [hp] at hworker
  obtain ⟨hstate, htimer⟩ := Prod.mk.inj (Option.some.inj hworker)
  exact ⟨p, hp, hp₀, hstatus, hstate, htimer⟩

end Coordinator

end RateDesk
