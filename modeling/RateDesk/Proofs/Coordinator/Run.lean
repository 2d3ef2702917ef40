import RateDesk.Proofs.Coordinator.Post
import RateDesk.Proofs.Desk.Frame
import RateDesk.Proofs.Outcome
import RateDesk.Venue.Script

/-!
# Runs of a coordinator

The workers run side by side, and what happens to them comes in any order.

* `Deed`, `Post.deed` : what can happen to a post;
* `Post.made`, `Post.decision?` : what it means for the queue and the venue, and what the worker decides;
  neither depends on what the posts share, which is carried along (`Post.deed_eq`);
* `Action`, `Coordinator.after`, `Coordinator.run` : runs, in which the cache is swept now and then;
* `Coordinator.Calm` : no fault ended a worker;
* `Post.deed_post`, `Post.deed_shared` : what every effect keeps, every deed keeps.
-/

namespace RateDesk

/-- What can happen to a post. -/
inductive Deed (σ : Type) where
  | begin
  /-- The worker takes the oldest event. -/
  | handle
  | unsubscribe (instrument : String)
  /-- The worker finds its retry due. -/
  | retry
  /-- The venue sees the connect that was begun. -/
  | dial
  | report (e : VenueEvent)
  /-- The venue changes of its own accord. -/
  | change (f : σ → σ)
  | stop

namespace Post

variable {σ : Type} [Venue σ] {d d' : Derivation} {now : Now} {p p' : Post σ} {s s' : Shared} {a : Deed σ}

def deed (d : Derivation) (now : Now) (p : Post σ) (s : Shared) : Deed σ → Outcome σ
  | .begin => begin d now p s
  | .handle =>
    match p.phase, p.inbox with
    | .running, e :: r => act d now { p with inbox := r } s (.event e)
    | _, _ => idle p s
  | .unsubscribe i => act d now p s (.unsubscribe i)
  | .retry => if p.phase = .running ∧ p.worker.timer.any (· ≤ now.instant) then act d now p s .retryDue else idle p s
  | .dial =>
    if p.dialing then
      let (es, venue) := Venue.connect p.venue
      idle ({ p with venue := venue, dialing := false }.push es) s
    else idle p s
  | .report e => idle (p.push [e]) s
  | .change f => idle { p with venue := f p.venue } s
  | .stop => idle p.stop s

/-! ## Decisions -/

/-- The post as its worker finds it. -/
def made (p : Post σ) : Deed σ → Post σ
  | .begin => if p.phase = .waiting then { p with phase := .running } else p
  | .handle => if p.phase = .running then { p with inbox := p.inbox.tail } else p
  | .unsubscribe _ => p
  | .retry => p
  | .dial =>
    if p.dialing then { p with venue := (Venue.connect p.venue).2, dialing := false }.push (Venue.connect p.venue).1
    else p
  | .report e => p.push [e]
  | .change f => { p with venue := f p.venue }
  | .stop => p.stop

def input? (p : Post σ) (now : Instant) : Deed σ → Option WorkerInput
  | .handle => p.inbox.head?.map .event
  | .unsubscribe i => some (.unsubscribe i)
  | .retry => if p.worker.timer.any (· ≤ now) then some .retryDue else none
  | _ => none

def decision? (p : Post σ) (now : Instant) (a : Deed σ) : Option (Worker × List Effect) :=
  match a with
  | .begin => if p.phase = .waiting then some p.worker.begin else none
  | a => if p.phase = .running then (p.input? now a).map (p.worker.step now) else none

def effects (p : Post σ) (now : Instant) (a : Deed σ) : List Effect := ((p.decision? now a).map Prod.snd).getD []

/-- What a deed comes to: the decision of the worker is carried out on the post as it finds it. -/
theorem deed_eq (d : Derivation) (now : Now) (p : Post σ) (s : Shared) (a : Deed σ) :
    p.deed d now s a =
      match p.decision? now.instant a with
      | some decision => apply d now (p.made a) s decision
      | none => idle (p.made a) s := by
  cases a with
  | begin =>
    by_cases h : p.phase = .waiting
    · simp [deed, begin, decision?, made, h]
    · simp [deed, begin, decision?, made, h]
  | handle =>
    by_cases h : p.phase = .running
    · cases hq : p.inbox with
      | nil =>
        have hmade : p.made .handle = p := by rw [made, if_pos h, hq, List.tail_nil, ← hq]
        simp [deed, decision?, input?, hmade, h, hq]
      | cons e r => simp [deed, act, decision?, input?, made, h, hq]
    · simp [deed, decision?, made, h]
  | unsubscribe i =>
    by_cases h : p.phase = .running
    · simp [deed, act, decision?, input?, made, h]
    · simp [deed, act, decision?, made, h]
  | retry =>
    by_cases h : p.phase = .running
    · by_cases ht : p.worker.timer.any (· ≤ now.instant)
      · simp [deed, act, decision?, input?, made, h, ht]
      · simp [deed, decision?, input?, made, h, ht]
    · simp [deed, decision?, made, h]
  | dial =>
    by_cases h : p.dialing
    · simp [deed, decision?, input?, made, h]
    · simp [deed, decision?, input?, made, h]
  | report e => simp [deed, decision?, input?, made]
  | change f => simp [deed, decision?, input?, made]
  | stop => simp [deed, decision?, input?, made]

/-- Neither the worker nor what is shown of it changes before it decides. -/
theorem made_eq (p : Post σ) (a : Deed σ) :
    ∃ phase venue inbox dialing, p.made a = ⟨p.worker, phase, venue, inbox, dialing, p.status⟩ := by
  cases a with
  | begin =>
    simp only [made]
    split <;> exact ⟨_, _, _, _, rfl⟩
  | handle =>
    simp only [made]
    split <;> exact ⟨_, _, _, _, rfl⟩
  | unsubscribe i => exact ⟨_, _, _, _, rfl⟩
  | retry => exact ⟨_, _, _, _, rfl⟩
  | dial =>
    simp only [made, push]
    split
    · split <;> exact ⟨_, _, _, _, rfl⟩
    · exact ⟨_, _, _, _, rfl⟩
  | report e =>
    simp only [made, push]
    split <;> exact ⟨_, _, _, _, rfl⟩
  | change f => exact ⟨_, _, _, _, rfl⟩
  | stop =>
    simp only [made, stop]
    split <;> exact ⟨_, _, _, _, rfl⟩

theorem made_worker (p : Post σ) (a : Deed σ) : (p.made a).worker = p.worker := by
  obtain ⟨_, _, _, _, h⟩ := made_eq p a
  rw [h]

theorem made_status (p : Post σ) (a : Deed σ) : (p.made a).status = p.status := by
  obtain ⟨_, _, _, _, h⟩ := made_eq p a
  rw [h]

omit [Venue σ] in
/-- A worker decides when it begins, and on the inputs that it is handed while it runs. -/
theorem decision?_cases {t : Instant} {decision : Worker × List Effect} (h : p.decision? t a = some decision) :
    a = .begin ∧ p.phase = .waiting ∧ decision = p.worker.begin ∨
      p.phase = .running ∧ ∃ i, p.input? t a = some i ∧ decision = p.worker.step t i := by
  unfold decision? at h
  split at h
  · split at h
    · exact Or.inl ⟨rfl, ‹_›, (Option.some.inj h).symm⟩
    · cases h
  · split at h
    · obtain ⟨i, hi, heq⟩ := Option.map_eq_some_iff.1 h
      exact Or.inr ⟨‹_›, i, hi, heq.symm⟩
    · cases h

omit [Venue σ] in
theorem decision?_platform {t : Instant} {decision : Worker × List Effect} (h : p.decision? t a = some decision) :
    decision.1.platform = p.worker.platform := by
  obtain ⟨-, -, rfl⟩ | ⟨-, i, -, rfl⟩ := decision?_cases h
  · rfl
  · exact (Worker.move_step p.worker t i).platform_eq

/-- Whatever the effects of a worker keep of its post, one by one, they keep together. -/
theorem performAll_post {Q : Post σ → Prop} {es : List Effect}
    (h : ∀ (q : Post σ) s, ∀ e ∈ es, Q q → Q (perform d now q s e).post) (hp : Q p) :
    Q (performAll d now p s es).post := by
  induction es generalizing p s with
  | nil => exact hp
  | cons e es ih =>
    have hfirst := h p s e List.mem_cons_self hp
    unfold performAll
    dsimp only
    split
    · exact hfirst
    · exact ih (fun q s e he => h q s e (List.mem_cons_of_mem _ he)) hfirst

/-- What a deed leaves of a post: it starts from what the worker decided, and a fault ends the worker. -/
theorem deed_post {Q : Post σ → Prop} (d : Derivation) (now : Now) (p : Post σ) (s : Shared) (a : Deed σ)
    (hidle : p.decision? now.instant a = none → Q (p.made a))
    (hdecided : ∀ decision, p.decision? now.instant a = some decision → Q { p.made a with worker := decision.1 })
    (h : ∀ (q : Post σ) s, ∀ e ∈ p.effects now.instant a, Q q → Q (perform d now q s e).post)
    (hended : ∀ q : Post σ, Q q → Q { q with phase := .ended, inbox := [] }) : Q (p.deed d now s a).post := by
  rw [deed_eq]
  unfold effects at h
  cases hdec : p.decision? now.instant a with
  | none => exact hidle hdec
  | some decision =>
    rw [hdec] at h
    have hall := performAll_post (s := s) h (hdecided decision hdec)
    unfold apply
    dsimp only
    split
    · exact hended _ hall
    · exact hall

/-- The worker after a deed is the one that it decided to be. -/
theorem deed_worker (d : Derivation) (now : Now) (p : Post σ) (s : Shared) (a : Deed σ) :
    (p.deed d now s a).post.worker = ((p.decision? now.instant a).map Prod.fst).getD p.worker := by
  rw [deed_eq]
  cases p.decision? now.instant a with
  | none => exact made_worker p a
  | some decision => exact apply_worker d now _ s decision

theorem deed_platform (d : Derivation) (now : Now) (p : Post σ) (s : Shared) (a : Deed σ) :
    (p.deed d now s a).post.worker.platform = p.worker.platform := by
  apply deed_post (Q := fun q => q.worker.platform = p.worker.platform) d now p s a
  · intro _
    rw [made_worker]
  · intro decision hdec
    exact decision?_platform hdec
  · intro q s e _ hq
    rw [(leaves_perform d now q s e).worker, hq]
  · intro q hq
    exact hq

/-! ## What is shared -/

omit [Venue σ] in
/-- Handing a quote to the desk, whatever becomes of it. -/
theorem spares_handQuote (d : Derivation) (now : Now) (name : String) (first : Bool) (i : String) (r : Rate)
    (s : Shared) : s.desk.Spares name i r (handQuote d now name first i r s).1.desk := by
  have hkeeps : Desk.Step.Keeps name i r (do
      Desk.count (.received name first)
      if first then Desk.first now name i r
      else
        let _ ← Desk.update d now name i r) := by
    refine (Desk.keeps_count (by simp [Series.family]) (by simp [Series.family])).bind fun _ => ?_
    split
    · exact Desk.keeps_first
    · exact Desk.keeps_update.bind fun _ => Desk.Step.keeps_pure _
  have hdesk := hkeeps s.desk
  unfold handQuote
  dsimp only
  split
  · rename_i hrun
    rwa [hrun] at hdesk
  · rename_i hrun
    rwa [hrun] at hdesk

omit [Venue σ] in
theorem alerts_handQuote (d : Derivation) (now : Now) (name : String) (first : Bool) (i : String) (r : Rate)
    (s : Shared) : (handQuote d now name first i r s).1.alerts = s.alerts := by
  unfold handQuote
  dsimp only
  split
  · rfl
  · rfl

theorem performAll_shared {I : Shared → Option Fault → Prop} {name : String} {es : List Effect}
    (h : ∀ (p : Post σ) s, ∀ e ∈ es, p.worker.platform = name → I s none →
      I (perform d now p s e).shared (perform d now p s e).fault)
    (hp : p.worker.platform = name) (hs : I s none) :
    I (performAll d now p s es).shared (performAll d now p s es).fault := by
  induction es generalizing p s with
  | nil => exact hs
  | cons e es ih =>
    have hfirst := h p s e List.mem_cons_self hp hs
    unfold performAll
    dsimp only
    cases hf : (perform d now p s e).fault with
    | some f => exact hfirst
    | none =>
      rw [hf] at hfirst
      have hplatform : (perform d now p s e).post.worker.platform = name := by
        rw [(leaves_perform d now p s e).worker, hp]
      exact ih (fun p s e he => h p s e (List.mem_cons_of_mem _ he)) hplatform hfirst

/-- Whatever the effects of a platform keep, one by one, the deeds of its post keep. -/
theorem deed_shared {I : Shared → Option Fault → Prop} (d : Derivation) (now : Now) (p : Post σ) (a : Deed σ)
    (h : ∀ (q : Post σ) s, ∀ e ∈ p.effects now.instant a, q.worker.platform = p.worker.platform → I s none →
      I (perform d now q s e).shared (perform d now q s e).fault)
    (hs : I s none) : I (p.deed d now s a).shared (p.deed d now s a).fault := by
  rw [deed_eq]
  unfold effects at h
  cases hdec : p.decision? now.instant a with
  | none => exact hs
  | some decision =>
    rw [hdec] at h
    have hall := performAll_shared (p := { p.made a with worker := decision.1 }) h (decision?_platform hdec) hs
    unfold apply
    dsimp only
    split
    · exact hall
    · exact hall

end Post

/-! ## All posts -/

/-- What can happen to a coordinator: something happens to one of its posts, or the cache is swept. -/
inductive Action (σ : Type) where
  | post (n : Nat) (now : Now) (a : Deed σ)
  | sweep (now : Instant)

namespace Coordinator

variable {σ : Type} [Venue σ] {c c' : Coordinator σ} {n m : Nat} {p : Post σ} {now : Now} {a : Deed σ}

/-- What an action comes to at the post that it concerns. -/
def outcome? (c : Coordinator σ) : Action σ → Option (Post.Outcome σ)
  | .post n now a => c.posts[n]?.map fun p => p.deed c.derivation now c.shared a
  | .sweep _ => none

def after (c : Coordinator σ) : Action σ → Coordinator σ
  | .post n now a =>
    match c.posts[n]? with
    | some p =>
      let o := p.deed c.derivation now c.shared a
      { c with posts := c.posts.set n o.post, shared := o.shared }
    | none => c
  | .sweep now =>
    { c with shared :=
        { c.shared with desk := { c.shared.desk with cache := c.shared.desk.cache.evict now } } }

def run (c : Coordinator σ) (as : List (Action σ)) : Coordinator σ := as.foldl after c

/-- No action ends in a fault. -/
def Calm : Coordinator σ → List (Action σ) → Prop
  | _, [] => True
  | c, a :: as => ((c.outcome? a).bind Post.Outcome.fault) = none ∧ (c.after a).Calm as

/-- What one notes down about a post in an action. -/
def noted {β : Type} (f : Post σ → Instant → Deed σ → List β) (c : Coordinator σ) (n : Nat) : Action σ → List β
  | .post m now a => if m = n then (c.posts[m]?.map fun p => f p now.instant a).getD [] else []
  | .sweep _ => []

/-- What one notes down about a post in a run, in order. -/
def notes {β : Type} (f : Post σ → Instant → Deed σ → List β) (n : Nat) : Coordinator σ → List (Action σ) → List β
  | _, [] => []
  | c, x :: as => c.noted f n x ++ notes f n (c.after x) as

/-- The effects that the worker of a post decides on in a run. -/
abbrev effects (n : Nat) (c : Coordinator σ) (as : List (Action σ)) : List Effect := notes Post.effects n c as

theorem after_post (h : c.posts[n]? = some p) (now : Now) (a : Deed σ) :
    c.after (.post n now a) =
      { c with
        posts := c.posts.set n (p.deed c.derivation now c.shared a).post
        shared := (p.deed c.derivation now c.shared a).shared } := by
  simp [after, h]

theorem after_post_none (h : c.posts[n]? = none) (now : Now) (a : Deed σ) : c.after (.post n now a) = c := by
  simp [after, h]

/-- An action is one at a post, or it is not seen there. -/
theorem after_elsewhere (hp : c.posts[n]? = some p) (x : Action σ) :
    (∃ now a, x = .post n now a) ∨
      (c.after x).posts[n]? = some p ∧ ∀ (β : Type) (f : Post σ → Instant → Deed σ → List β), c.noted f n x = [] := by
  cases x with
  | sweep now => exact Or.inr ⟨hp, fun _ _ => rfl⟩
  | post m now a =>
    by_cases hm : m = n
    · exact Or.inl ⟨now, a, by rw [hm]⟩
    · refine Or.inr ⟨?_, fun _ _ => if_neg hm⟩
      cases hq : c.posts[m]? with
      | none => rwa [after_post_none hq]
      | some q =>
        rw [after_post hq]
        exact (List.getElem?_set_ne hm).trans hp

theorem posts_after (hp : c.posts[n]? = some p) (now : Now) (a : Deed σ) :
    (c.after (.post n now a)).posts[n]? = some (p.deed c.derivation now c.shared a).post := by
  rw [after_post hp]
  exact List.getElem?_set_self (List.getElem?_eq_some_iff.1 hp).1

omit [Venue σ] in
theorem noted_post {β : Type} (f : Post σ → Instant → Deed σ → List β) (hp : c.posts[n]? = some p) (now : Now)
    (a : Deed σ) : c.noted f n (.post n now a) = f p now.instant a := by
  simp [noted, hp]

def platforms (c : Coordinator σ) : List String := c.posts.map fun p => p.worker.platform

omit [Venue σ] in
theorem platforms_getElem? (hp : c.posts[n]? = some p) : c.platforms[n]? = some p.worker.platform := by
  simp [platforms, hp]

omit [Venue σ] in
/-- Under different names, different posts are of different platforms. -/
theorem ne_platform (hdistinct : c.platforms.Nodup) {q : Post σ} (hp : c.posts[n]? = some p)
    (hq : c.posts[m]? = some q) (hne : m ≠ n) : q.worker.platform ≠ p.worker.platform := by
  intro heq
  have hm := platforms_getElem? hq
  rw [heq, ← platforms_getElem? hp] at hm
  have hlen := (List.getElem?_eq_some_iff.1 (platforms_getElem? hq)).1
  exact hne ((List.getElem?_inj hlen hdistinct).1 hm)

theorem platforms_after (c : Coordinator σ) (x : Action σ) : (c.after x).platforms = c.platforms := by
  cases x with
  | sweep now => rfl
  | post n now a =>
    cases h : c.posts[n]? with
    | none => rw [after_post_none h]
    | some p =>
      have hn := (List.getElem?_eq_some_iff.1 h).1
      rw [after_post h]
      apply List.ext_getElem?
      intro k
      by_cases hk : n = k
      · subst hk
        simp only [platforms, List.getElem?_map, List.getElem?_set_self hn, h, Option.map_some, Post.deed_platform]
      · simp [platforms, List.getElem?_set_ne hk]

theorem run_append (c : Coordinator σ) (as bs : List (Action σ)) : c.run (as ++ bs) = (c.run as).run bs :=
  List.foldl_append

theorem platforms_run (c : Coordinator σ) (as : List (Action σ)) : (c.run as).platforms = c.platforms := by
  induction as generalizing c with
  | nil => rfl
  | cons a as ih => exact (ih (c.after a)).trans (platforms_after c a)

/-- What every deed keeps of a post holds of all posts all along. -/
theorem forall_posts_run {Q : Post σ → Prop} (hQ : ∀ d now p s a, Q p → Q (Post.deed d now p s a).post)
    (h : ∀ p ∈ c.posts, Q p) (as : List (Action σ)) : ∀ p ∈ (c.run as).posts, Q p := by
  induction as generalizing c with
  | nil => exact h
  | cons x as ih =>
    refine ih ?_
    cases x with
    | sweep now => exact h
    | post n now a =>
      cases hp : c.posts[n]? with
      | none =>
        rw [after_post_none hp]
        exact h
      | some p =>
        rw [after_post hp]
        intro q hq
        rcases List.mem_or_eq_of_mem_set hq with hq | rfl
        · exact h q hq
        · exact hQ _ _ _ _ _ (h p (List.mem_of_getElem? hp))

/-! ## New coordinators -/

variable {s : Settings} {build : PlatformSettings → Except Failure σ} {time : Timestamp}

theorem ofSettings_eq_ok (h : ofSettings s build time = .ok c) :
    List.Forall₂ (fun x p => ∃ v, build x = .ok v ∧ p = Post.ofSettings x s.retry v time) s.platforms c.posts ∧
      c.derivation = s.derivation ∧
      c.shared = ⟨{ Desk.empty s.cache.ttlSecs.toNat with
        metrics := s.platforms.foldl (fun m x => m.set (.state x.name) PlatformState.disconnected.code) Metrics.empty },
        []⟩ := by
  obtain ⟨posts, hposts, h⟩ := bind_eq_ok.1 h
  cases h
  refine ⟨(forall₂_of_mapM hposts).imp ?_, rfl, rfl⟩
  intro x p hx
  obtain ⟨v, hv, h⟩ := bind_eq_ok.1 hx
  cases h
  exact ⟨v, hv, rfl⟩

theorem platforms_ofSettings (h : ofSettings s build time = .ok c) :
    c.platforms = s.platforms.map PlatformSettings.name := by
  have hposts := (ofSettings_eq_ok h).1
  unfold platforms
  generalize s.platforms = xs at hposts ⊢
  generalize c.posts = ps at hposts ⊢
  induction hposts with
  | nil => rfl
  | cons hx _ ih =>
    obtain ⟨v, -, rfl⟩ := hx
    rw [List.map_cons, List.map_cons, ih]
    rfl

theorem posts_ofSettings (h : ofSettings s build time = .ok c) {x : PlatformSettings} (hx : s.platforms[n]? = some x) :
    ∃ v, build x = .ok v ∧ c.posts[n]? = some (Post.ofSettings x s.retry v time) := by
  have hposts := (ofSettings_eq_ok h).1
  obtain ⟨hn, rfl⟩ := List.getElem?_eq_some_iff.1 hx
  have hn' : n < c.posts.length := hposts.length_eq ▸ hn
  obtain ⟨v, hv, hpost⟩ := hposts.get hn hn'
  exact ⟨v, hv, (List.getElem?_eq_getElem hn').trans (congrArg some hpost)⟩

theorem forall_posts_ofSettings {Q : Post σ → Prop} (hQ : ∀ x v, Q (Post.ofSettings x s.retry v time))
    (h : ofSettings s build time = .ok c) : ∀ p ∈ c.posts, Q p := by
  have hposts := (ofSettings_eq_ok h).1
  generalize s.platforms = xs at hposts
  generalize c.posts = ps at hposts ⊢
  intro p hp
  induction hposts with
  | nil => cases hp
  | cons hx _ ih =>
    obtain ⟨v, -, rfl⟩ := hx
    rcases List.mem_cons.1 hp with rfl | hp
    · exact hQ _ _
    · exact ih hp

/-- No series of a new coordinator has a value other than zero. -/
theorem value_ofSettings (h : ofSettings s build time = .ok c) (x : Series) : c.shared.desk.metrics.value x = 0 := by
  have hgauges (xs : List PlatformSettings) (m : Metrics) (hm : m.value x = 0) :
      (xs.foldl (fun m y => m.set (.state y.name) PlatformState.disconnected.code) m).value x = 0 := by
    induction xs generalizing m with
    | nil => exact hm
    | cons y ys ih =>
      apply ih
      rw [Metrics.value_set, hm]
      exact ite_self 0
  rw [(ofSettings_eq_ok h).2.2]
  exact hgauges s.platforms Metrics.empty rfl

/-- Some platforms, and the standard settings otherwise. -/
def watching (xs : List PlatformSettings) : Settings where
  platforms := xs
  retry := .standard
  cache := .standard
  derivation := .standard
  ipcSocketPath := Settings.defaultIpcSocketPath
  healthPort := Settings.defaultHealthPort
  alertWebhookUrl := none

/-- A new coordinator of platforms whose connects all succeed. -/
def rehearsed (xs : List PlatformSettings) : Coordinator ScriptedVenue where
  derivation := .standard
  posts := xs.map fun x => Post.ofSettings x .standard (ScriptedVenue.start [] []) ⟨0, 0⟩
  shared :=
    ⟨{ Desk.empty 1800 with metrics := xs.foldl (fun m x => m.set (.state x.name) 0) Metrics.empty }, []⟩
  clock := 0
  isOpen := false

theorem ofSettings_watching (xs : List PlatformSettings) :
    ofSettings (watching xs) (fun _ => .ok (ScriptedVenue.start [] [])) ⟨0, 0⟩ = .ok (rehearsed xs) := by
  have hposts : xs.mapM (fun x => (do
      return Post.ofSettings x .standard (← .ok (ScriptedVenue.start [] [])) ⟨0, 0⟩ : Except Failure _)) =
      .ok (rehearsed xs).posts := by
    induction xs with
    | nil => rfl
    | cons x xs ih =>
      rw [List.mapM_cons, ih]
      rfl
  exact bind_eq_ok.2 ⟨_, hposts, rfl⟩

def pair : List PlatformSettings := [Worker.solo, { Worker.solo with name := "REST" }]

def opening (n : Nat) : List (Action σ) :=
  [.post n ⟨0, ⟨0, 0⟩⟩ .begin, .post n ⟨1, ⟨0, 0⟩⟩ .dial, .post n ⟨2, ⟨0, 0⟩⟩ .handle]

def delivery (n : Nat) (e : VenueEvent) : List (Action σ) :=
  [.post n ⟨3, ⟨0, 0⟩⟩ (.report e), .post n ⟨4, ⟨0, 0⟩⟩ .handle]

end Coordinator

end RateDesk
