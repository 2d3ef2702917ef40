import Mathlib.Logic.Relation
import RateDesk.Proofs.Coordinator.Shown
import RateDesk.Proofs.Worker.Watch

/-!
# A post at work

A worker carries out what it decided one effect after another. Meanwhile its venue does things of its own accord,
and what is shown of the subscriptions may be out of date.

* `Venue.Turn`, `Conduct` : what a venue does of its own accord, by how far its connect got;
* `Station`, `Station.Step` : a post, what is left to carry out, and what may come next;
* `deed_steps` : a deed that nothing interrupts is made of such steps;
* `Mirrors`, `Running`, `Kept` : the invariant, and `Kept.step`;
* `Kept.matches` : when nothing is under way, what is shown of the subscriptions is right, but for those
  that the venue dropped unasked.
-/

namespace RateDesk

/-! ## Venues of their own accord -/

/-- What a venue with some subscriptions may do of its own accord: the events that it reports, the instruments that
it drops unasked, how far its connect has got then, and the subscriptions that are left. -/
inductive Venue.Turn (subs : List String) : Call → List VenueEvent → List String → Call → List String → Prop where
  | quiet (c : Call) : Turn subs c [] [] c subs
  | quoted {e : VenueEvent} : e.quote? ≠ none → Turn subs .up [e] [] .up subs
  | dropped {i : String} : i ∈ subs → Turn subs .up [] [i] .up (subs.filter (· ≠ i))
  | answered (ok : Bool) (subs' : List String) :
    Turn subs .dialing [.connected ok] [] (if ok then .up else .over) subs'
  | lost (subs' : List String) : Turn subs .up [.disconnected] [] .over subs'

structure Conduct (σ : Type) [Venue σ] where
  Sound : σ → Prop
  call : σ → Call
  /-- What may happen unasked: the events, the instruments that are dropped, and the venue after it. -/
  Turns : σ → List VenueEvent → List String → σ → Prop
  connect : ∀ v, Sound v → call v = .over →
    (Venue.connect v).1 = [] ∧ Sound (Venue.connect v).2 ∧ call (Venue.connect v).2 = .dialing
  subscribe : ∀ i v, Sound v → Sound (Venue.subscribe i v).2 ∧ call (Venue.subscribe i v).2 = call v
  unsubscribe : ∀ i v, Sound v → Sound (Venue.unsubscribe i v).2 ∧ call (Venue.unsubscribe i v).2 = call v
  turn : ∀ v es gone v', Sound v → Turns v es gone v' →
    Sound v' ∧ Venue.Turn (Venue.subscriptions v) (call v) es gone (call v') (Venue.subscriptions v')

/-! ## Steps -/

structure Station (σ : Type) where
  post : Post σ
  /-- What the worker decided and has not done yet. -/
  todo : List Effect
  /-- The instruments that the venue dropped unasked since its subscriptions were shown. -/
  gone : List String

namespace Station

variable {σ : Type} [Venue σ] {C : Conduct σ} {s s' : Station σ} {x : PlatformSettings} {policy : RetrySettings}
  {e : Effect} {es : List Effect} {t : Instant} {a : Deed σ}

/-- What may come next: the worker decides, once it has done all that it decided before; it carries out the next
effect, with a fault or without; the connect that was begun gets to the venue; or the venue does something. -/
inductive Step (C : Conduct σ) (s : Station σ) : Station σ → Prop where
  | decide {t : Instant} {a : Deed σ} {decision : Worker × List Effect} : s.todo = [] →
    s.post.decision? t a = some decision →
    Step C s { s with post := { s.post.made a with worker := decision.1 }, todo := decision.2 }
  | carry {e : Effect} {es : List Effect} (d : Derivation) (now : Now) (shared : Shared) : s.todo = e :: es →
    (Post.perform d now s.post shared e).fault = none →
    Step C s ⟨(Post.perform d now s.post shared e).post, es, if e.shows then [] else s.gone⟩
  | fault {e : Effect} {es : List Effect} {f : Fault} (d : Derivation) (now : Now) (shared : Shared) :
    s.todo = e :: es → (Post.perform d now s.post shared e).fault = some f →
    Step C s ⟨{ (Post.perform d now s.post shared e).post with phase := .ended, inbox := [] }, [], s.gone⟩
  | dial : s.post.dialing = true → Step C s { s with post := s.post.made .dial }
  | turn {es : List VenueEvent} {gone : List String} {v : σ} : C.Turns s.post.venue es gone v →
    Step C s { s with post := Post.push { s.post with venue := v } es, gone := s.gone ++ gone }

/-- What can become of a platform, from its settings and a venue. -/
inductive Reachable (C : Conduct σ) (x : PlatformSettings) (policy : RetrySettings) (v : σ) : Station σ → Prop where
  | start (time : Timestamp) : Reachable C x policy v ⟨Post.ofSettings x policy v time, [], []⟩
  | step {s s' : Station σ} : Reachable C x policy v s → s.Step C s' → Reachable C x policy v s'

theorem apply_cons {d : Derivation} {now : Now} {p : Post σ} {shared : Shared}
    (h : (Post.perform d now p shared e).fault = none) :
    let o := Post.perform d now p shared e
    (Post.apply d now p shared (p.worker, e :: es)).post =
      (Post.apply d now o.post o.shared (o.post.worker, es)).post := by
  simp only [Post.apply, Post.performAll, h]
  split <;> rename_i hf <;> simp [hf]

/-- What a worker decided is carried out step by step. -/
theorem apply_steps (C : Conduct σ) (d : Derivation) (now : Now) (p : Post σ) (shared : Shared) (es : List Effect)
    (gone : List String) : ∃ gone', Relation.ReflTransGen (Step C) ⟨p, es, gone⟩
      ⟨(Post.apply d now p shared (p.worker, es)).post, [], gone'⟩ := by
  induction es generalizing p shared gone with
  | nil => exact ⟨gone, .refl⟩
  | cons e es ih =>
    cases hf : (Post.perform d now p shared e).fault with
    | some f =>
      refine ⟨gone, .single ?_⟩
      have hstep := Step.fault (C := C) (s := ⟨p, e :: es, gone⟩) d now shared rfl hf
      simpa [Post.apply, Post.performAll, hf] using hstep
    | none =>
      have hstep := Step.carry (C := C) (s := ⟨p, e :: es, gone⟩) d now shared rfl hf
      obtain ⟨gone', hrest⟩ := ih (Post.perform d now p shared e).post (Post.perform d now p shared e).shared
        (if e.shows then [] else gone)
      rw [apply_cons hf]
      exact ⟨gone', .head hstep hrest⟩

/-- A deed of the worker that nothing interrupts is made of steps. -/
theorem deed_steps (C : Conduct σ) (d : Derivation) (now : Now) (p : Post σ) (shared : Shared) (gone : List String)
    {decision : Worker × List Effect} (h : p.decision? now.instant a = some decision) :
    ∃ gone', Relation.ReflTransGen (Step C) ⟨p, [], gone⟩ ⟨(p.deed d now shared a).post, [], gone'⟩ := by
  have hdecide := Step.decide (C := C) (s := ⟨p, [], gone⟩) rfl h
  obtain ⟨gone', hrest⟩ :=
    apply_steps C d now { p.made a with worker := decision.1 } shared decision.2 gone
  rw [Post.deed_eq, h]
  exact ⟨gone', .head hdecide hrest⟩

theorem Reachable.steps {v : σ} (h : Reachable C x policy v s) (hs : Relation.ReflTransGen (Step C) s s') :
    Reachable C x policy v s' := by
  induction hs with
  | refl => exact h
  | tail _ hstep ih => exact ih.step hstep

theorem Reachable.deed {v : σ} {p : Post σ} {gone : List String} (h : Reachable C x policy v ⟨p, [], gone⟩)
    (d : Derivation) (now : Now) (shared : Shared) {decision : Worker × List Effect}
    (hdec : p.decision? now.instant a = some decision) :
    ∃ gone', Reachable C x policy v ⟨(p.deed d now shared a).post, [], gone'⟩ := by
  obtain ⟨gone', hsteps⟩ := deed_steps C d now p shared gone hdec
  exact ⟨gone', h.steps hsteps⟩

theorem Reachable.gone_nil {v : σ} (h : Reachable C x policy v s)
    (hC : ∀ v es gone v', C.Turns v es gone v' → gone = []) : s.gone = [] := by
  induction h with
  | start time => rfl
  | step _ hs ih =>
    cases hs with
    | decide _ _ => exact ih
    | carry _ _ _ _ _ => exact (ite_congr rfl (fun _ => rfl) fun _ => ih).trans (ite_self [])
    | fault _ _ _ _ _ => exact ih
    | dial _ => exact ih
    | turn hturn =>
      rw [hC _ _ _ _ hturn, List.append_nil]
      exact ih

/-! ## What a worker decides -/

def changes : Effect → Bool
  | .subscribe _ => true
  | .unsubscribe _ => true
  | _ => false

/-- What may change the subscriptions is followed by showing them, and no connect by another one. -/
def Orderly : List Effect → Prop
  | [] => True
  | e :: es => (changes e = true → ∃ x ∈ es, x.shows = true) ∧ (e = .connect → .connect ∉ es) ∧ Orderly es

theorem orderly_subscribes (is : List String) (h : Orderly es) (hshows : ∃ x ∈ es, x.shows = true) :
    Orderly (is.map .subscribe ++ es) := by
  induction is with
  | nil => exact h
  | cons i is ih =>
    obtain ⟨x, hx, hshow⟩ := hshows
    exact ⟨fun _ => ⟨x, List.mem_append_right _ hx, hshow⟩, nofun, ih⟩

/-- Whatever a worker makes of an input, it does in order; and it shows the subscriptions, or it stays as it is. -/
theorem move_orderly {w w' : Worker} {i : WorkerInput} (hm : w.Move t i w' es) :
    Orderly es ∧ ((∃ x ∈ es, x.shows = true) ∨ w' = w ∧ .connect ∉ es) := by
  cases hm with
  | connected _ =>
    have hlast : Orderly [.enter .subscribed 0] := ⟨nofun, nofun, trivial⟩
    exact ⟨⟨nofun, nofun, orderly_subscribes w.instruments hlast ⟨_, List.mem_cons_self, rfl⟩⟩,
      Or.inl ⟨_, List.mem_cons_self, rfl⟩⟩
  | lost _ _ _ _ _ => exact ⟨⟨nofun, nofun, trivial⟩, Or.inl ⟨_, List.mem_cons_self, rfl⟩⟩
  | stranded _ _ _ _ _ => exact ⟨⟨nofun, nofun, nofun, nofun, trivial⟩, Or.inl ⟨_, List.mem_cons_self, rfl⟩⟩
  | gaveUp _ _ _ _ => exact ⟨⟨nofun, nofun, nofun, nofun, trivial⟩, Or.inl ⟨_, List.mem_cons_self, rfl⟩⟩
  | retried =>
    exact ⟨⟨nofun, nofun, nofun, nofun, nofun, fun _ => List.not_mem_nil, trivial⟩,
      Or.inl ⟨_, List.mem_cons_self, rfl⟩⟩
  | unsubscribed i =>
    have hshow : ∃ x ∈ [Effect.refresh w.state w.retry.attempts], x.shows = true := ⟨_, List.mem_cons_self, rfl⟩
    exact ⟨⟨fun _ => hshow, nofun, nofun, nofun, trivial⟩, Or.inl ⟨_, List.mem_cons_of_mem _ List.mem_cons_self, rfl⟩⟩
  | quoted _ _ _ => exact ⟨⟨nofun, nofun, trivial⟩, Or.inr ⟨rfl, by simp⟩⟩
  | tooLate _ => exact ⟨trivial, Or.inr ⟨rfl, List.not_mem_nil⟩⟩
  | lostBefore _ _ => exact ⟨trivial, Or.inr ⟨rfl, List.not_mem_nil⟩⟩
  | dropped _ _ => exact ⟨trivial, Or.inr ⟨rfl, List.not_mem_nil⟩⟩

/-! ## The invariant -/

/-- A connect was begun that the venue has not seen yet. -/
def Calling (s : Station σ) : Prop := .connect ∈ s.todo ∨ s.post.dialing = true

instance (s : Station σ) : Decidable s.Calling := inferInstanceAs (Decidable (_ ∨ _))

/-- How far the last connect that the worker decided on has got. -/
def link (C : Conduct σ) (s : Station σ) : Call := if s.Calling then .dialing else C.call s.post.venue

/-- The subscriptions are as they are shown, less what the venue dropped since. -/
structure Matches (s : Station σ) : Prop where
  subscriptions : Venue.subscriptions s.post.venue = s.post.status.subscriptions.filter (· ∉ s.gone)
  gone : ∀ i ∈ s.gone, i ∈ s.post.status.subscriptions

/-- What is shown of the subscriptions is right, or it will be shown anew before all is quiet. -/
inductive Mirrors (C : Conduct σ) (s : Station σ) : Prop where
  | pending {e : Effect} : e ∈ s.todo → e.shows = true → Mirrors C s
  | connecting : s.post.worker.state = .connecting → Mirrors C s
  | lost : s.post.worker.state = .subscribed → s.link C = .over → Mirrors C s
  | right : s.Matches → Mirrors C s

/-- The worker, the events that wait for it and its last connect are those of a watch that is kept. -/
structure Watched (C : Conduct σ) (delay : Nat) (s : Station σ) (w : Watch) : Prop where
  kept : w.Kept delay
  worker : w.worker = s.post.worker
  queue : w.queue = s.post.inbox
  halted : w.halted = true → ∃ e ∈ s.todo, e.isHalt = true
  calls : ∃ past, w.calls = past ++ [s.link C]

structure Running (C : Conduct σ) (delay : Nat) (s : Station σ) : Prop where
  phase : s.post.phase = .running
  sound : C.Sound s.post.venue
  calling : s.Calling → C.call s.post.venue = .over
  single : s.post.dialing = true → .connect ∉ s.todo
  orderly : Orderly s.todo
  watched : ∃ w, s.Watched C delay w
  mirrors : s.Mirrors C

structure Waiting (C : Conduct σ) (x : PlatformSettings) (policy : RetrySettings) (s : Station σ) : Prop where
  phase : s.post.phase = .waiting
  sound : C.Sound s.post.venue
  call : C.call s.post.venue = .over
  worker : s.post.worker = Worker.ofSettings x policy
  inbox : s.post.inbox = []
  dialing : s.post.dialing = false
  todo : s.todo = []
  right : s.Matches

/-- What holds between any two steps. -/
inductive Kept (C : Conduct σ) (x : PlatformSettings) (policy : RetrySettings) (s : Station σ) : Prop where
  | waiting : s.Waiting C x policy → Kept C x policy s
  | running : s.Running C (policy.delaySecs.toNat * 1000) → Kept C x policy s
  | ended : s.post.phase = .ended → Kept C x policy s

variable {delay : Nat} {w : Watch} {d : Derivation} {now : Now} {shared : Shared}

theorem Watched.backlog (h : s.Watched C delay w) :
    Watch.Backlog s.post.worker.state (s.link C) s.post.inbox := by
  obtain ⟨past, c, hcalls, -, hback⟩ := h.kept.calls
  obtain ⟨past', hcalls'⟩ := h.calls
  obtain ⟨-, hc⟩ := List.append_inj' (hcalls.symm.trans hcalls') rfl
  obtain rfl := List.singleton_inj.1 hc
  rwa [h.worker, h.queue] at hback

theorem Watched.not_halted (h : s.Watched C delay w) (htodo : s.todo = []) : w.halted = false := by
  rw [← Bool.not_eq_true]
  intro hhalted
  obtain ⟨e, he, -⟩ := h.halted hhalted
  rw [htodo] at he
  cases he

theorem link_of_calling (h : s.Calling) : s.link C = .dialing := if_pos h

theorem link_of_not_calling (h : ¬ s.Calling) : s.link C = C.call s.post.venue := if_neg h

theorem Running.not_calling (h : s.Running C delay) (hcall : C.call s.post.venue ≠ .over) : ¬ s.Calling :=
  fun hc => hcall (h.calling hc)

/-! ### Decisions -/

omit [Venue σ] in
theorem offers_of_input? {p : Post σ} {i : WorkerInput} (h : p.input? t a = some i) (hworker : w.worker = p.worker)
    (hqueue : w.queue = p.inbox) (hhalted : w.halted = false) (hclock : w.clock = t) : w.Offers i := by
  cases a with
  | handle =>
    obtain ⟨e, he, rfl⟩ := Option.map_eq_some_iff.1 h
    exact ⟨hhalted, hqueue ▸ he⟩
  | unsubscribe i =>
    cases h
    exact hhalted
  | retry =>
    simp only [Post.input?] at h
    split at h
    · cases h
      rename_i hdue
      obtain ⟨due, htimer, hle⟩ := (Option.any_eq_true ..).1 hdue
      exact ⟨hhalted, due, by rw [hworker, htimer], by rw [hclock]; exact of_decide_eq_true hle⟩
    · cases h
  | _ => cases h

/-- The post as its worker finds it when it is handed an input. -/
theorem made_of_input? {p : Post σ} {i : WorkerInput} (hphase : p.phase = .running) (h : p.input? t a = some i)
    (hqueue : w.queue = p.inbox) : p.made a = { p with inbox := w.rest i } := by
  cases a with
  | handle =>
    obtain ⟨e, he, rfl⟩ := Option.map_eq_some_iff.1 h
    simp [Post.made, hphase, Watch.rest, hqueue]
  | unsubscribe i =>
    cases h
    simp [Post.made, Watch.rest, hqueue]
  | retry =>
    simp only [Post.input?] at h
    split at h
    · cases h
      simp [Post.made, Watch.rest, hqueue]
    · cases h
  | _ => cases h

/-- A connect is begun only when the one before is over. -/
theorem Watched.over_of_connect (h : s.Watched C delay w) (hhalted : w.halted = false) {i : WorkerInput}
    (hi : s.post.input? t a = some i) (hconnect : .connect ∈ (s.post.worker.step t i).2) : s.link C = .over := by
  have hcount := (Worker.move_step s.post.worker t i).count_connect
  have hpos := List.count_pos_iff.2 hconnect
  by_cases hretry : i = .retryDue
  · subst hretry
    have htimer : w.worker.timer ≠ none := h.worker ▸ Post.input?_admits hi
    have hstate := (h.kept.armed hhalted).1 htimer
    have hback := h.backlog
    rw [← h.worker, hstate] at hback
    generalize s.link C = c at hback ⊢
    generalize s.post.inbox = q at hback
    cases hback with
    | waiting => rfl
  · rw [if_neg hretry] at hcount
    omega

def decided (s : Station σ) (inbox : List VenueEvent) (w' : Worker) (es : List Effect) : Station σ :=
  { s with post := { s.post with inbox := inbox, worker := w' }, todo := es }

variable {inbox : List VenueEvent} {w' : Worker}

theorem link_decided (htodo : s.todo = []) (hconnect : .connect ∉ es) :
    (s.decided inbox w' es).link C = s.link C := by
  simp [link, Calling, decided, hconnect, htodo]

/-- A worker that decides shows the subscriptions, or all stays as it is. -/
theorem Mirrors.decided (h : s.Mirrors C) (htodo : s.todo = [])
    (hshows : (∃ x ∈ es, x.shows = true) ∨ w' = s.post.worker ∧ .connect ∉ es) :
    (s.decided inbox w' es).Mirrors C := by
  obtain ⟨x, hx, hshow⟩ | ⟨rfl, hconnect⟩ := hshows
  · exact .pending hx hshow
  · cases h with
    | pending hx _ =>
      rw [htodo] at hx
      cases hx
    | connecting hstate => exact .connecting hstate
    | lost hstate hlost => exact .lost hstate ((link_decided htodo hconnect).trans hlost)
    | right hmatches => exact .right ⟨hmatches.subscriptions, hmatches.gone⟩

theorem Watched.decided (h : s.Watched C delay w) (htodo : s.todo = []) {i : WorkerInput}
    (hi : s.post.input? t a = some i) (hstep : s.post.worker.step t i = (w', es)) :
    (s.decided (w.rest i) w' es).Watched C delay (Watch.after { w with clock := t } i w' es) := by
  obtain ⟨past, hcalls⟩ := h.calls
  have hhalted := h.not_halted htodo
  have hkept : Watch.Kept delay { w with clock := t } :=
    ⟨h.kept.delay_eq, h.kept.calls, h.kept.armed, h.kept.halted, h.kept.due, h.kept.count⟩
  have hstep' : w.worker.step t i = (w', es) := h.worker ▸ hstep
  have hafter := hkept.step (.handle (offers_of_input? hi h.worker h.queue hhalted rfl))
  have hbegun := (Worker.move_step w.worker t i).count_connect
  simp only [hstep'] at hafter hbegun
  refine ⟨hafter, rfl, rfl, List.any_eq_true.1, ?_⟩
  by_cases hconnect : .connect ∈ es
  · have hpos := List.count_pos_iff.2 hconnect
    have hone : es.count .connect = 1 := by split at hbegun <;> omega
    have hcalls' : (Watch.after { w with clock := t } i w' es).calls = (past ++ [s.link C]) ++ [.dialing] := by
      simp [Watch.after, Watch.begun, hone, hcalls]
    exact ⟨_, hcalls'.trans (congrArg (fun c => _ ++ [c]) (link_of_calling (Or.inl hconnect)).symm)⟩
  · have hcalls' : (Watch.after { w with clock := t } i w' es).calls = past ++ [s.link C] := by
      simp [Watch.after, Watch.begun, List.count_eq_zero_of_not_mem hconnect, hcalls]
    exact ⟨_, hcalls'.trans (congrArg (fun c => _ ++ [c]) (link_decided htodo hconnect).symm)⟩

theorem Running.decide (h : s.Running C delay) (htodo : s.todo = []) {i : WorkerInput}
    (hi : s.post.input? t a = some i) :
    Running C delay { s with post := { s.post.made a with worker := (s.post.worker.step t i).1 },
                             todo := (s.post.worker.step t i).2 } := by
  obtain ⟨w, hw⟩ := h.watched
  obtain ⟨horderly, hshows⟩ := move_orderly (Worker.move_step s.post.worker t i)
  have hover := hw.over_of_connect (hw.not_halted htodo) hi
  have hnot : .connect ∈ (s.post.worker.step t i).2 → ¬ s.Calling := fun hconnect hcalling => by
    have hdialing := (hover hconnect).symm.trans (link_of_calling hcalling)
    cases hdialing
  have hcalling : .connect ∈ (s.post.worker.step t i).2 ∨ s.post.dialing = true →
      C.call s.post.venue = .over := by
    rintro (hconnect | hdialing)
    · exact (link_of_not_calling (hnot hconnect)).symm.trans (hover hconnect)
    · exact h.calling (Or.inr hdialing)
  rw [made_of_input? h.phase hi hw.queue]
  exact
    { phase := h.phase
      sound := h.sound
      calling := hcalling
      single := fun hdialing hconnect => hnot hconnect (Or.inr hdialing)
      orderly := horderly
      watched := ⟨_, hw.decided htodo hi rfl⟩
      mirrors := h.mirrors.decided htodo hshows }

/-- A worker that begins is watched from then on. -/
theorem Waiting.decide (h : s.Waiting C x policy) {decision : Worker × List Effect}
    (hdec : s.post.decision? t a = some decision) :
    Running C (policy.delaySecs.toNat * 1000)
      { s with post := { s.post.made a with worker := decision.1 }, todo := decision.2 } := by
  obtain ⟨rfl, -, rfl⟩ | ⟨hrunning, -⟩ := Post.decision?_cases hdec
  · have hmade : s.post.made .begin = { s.post with phase := .running } := if_pos h.phase
    rw [hmade]
    refine
      { phase := rfl
        sound := h.sound
        calling := fun _ => h.call
        single := fun hdialing => absurd (h.dialing.symm.trans hdialing) nofun
        orderly := ⟨nofun, nofun, nofun, nofun, nofun, fun _ => List.not_mem_nil, trivial⟩
        watched := ⟨Watch.start x policy t, Watch.kept_start x policy t, ?_, h.inbox.symm, nofun, [], ?_⟩
        mirrors := .pending List.mem_cons_self rfl }
    · rw [h.worker]
      rfl
    · exact congrArg (fun c => [c]) (link_of_calling (C := C) (Or.inl (by simp [Worker.begin]))).symm
  · rw [h.phase] at hrunning
    cases hrunning

/-! ### Effects and connects -/

theorem sound_perform (d : Derivation) (now : Now) (p : Post σ) (shared : Shared) (e : Effect) (h : C.Sound p.venue) :
    C.Sound (Post.perform d now p shared e).post.venue ∧
      C.call (Post.perform d now p shared e).post.venue = C.call p.venue := by
  cases e with
  | subscribe i => exact C.subscribe i p.venue h
  | unsubscribe i => exact C.unsubscribe i p.venue h
  | _ => exact ⟨h, rfl⟩

theorem dialing_perform (d : Derivation) (now : Now) (p : Post σ) (shared : Shared) (e : Effect) :
    (Post.perform d now p shared e).post.dialing = true ↔ .connect = e ∨ p.dialing = true := by
  cases e <;> simp [Post.perform, Post.present]

/-- An effect shows the subscriptions, or it may change them, or it leaves both alone. -/
theorem perform_cases (d : Derivation) (now : Now) (p : Post σ) (shared : Shared) (e : Effect) :
    (e.shows = true ∧ (Post.perform d now p shared e).post.status.subscriptions =
        Venue.subscriptions (Post.perform d now p shared e).post.venue) ∨
      (e.shows = false ∧ changes e = true) ∨
      (e.shows = false ∧ (Post.perform d now p shared e).post.status = p.status ∧
        (Post.perform d now p shared e).post.venue = p.venue) := by
  cases e with
  | enter _ _ => exact Or.inl ⟨rfl, rfl⟩
  | refresh _ _ => exact Or.inl ⟨rfl, rfl⟩
  | subscribe _ => exact Or.inr (Or.inl ⟨rfl, rfl⟩)
  | unsubscribe _ => exact Or.inr (Or.inl ⟨rfl, rfl⟩)
  | _ => exact Or.inr (Or.inr ⟨rfl, rfl, rfl⟩)

theorem Mirrors.perform (h : s.Mirrors C) (htodo : s.todo = e :: es) (horderly : Orderly s.todo)
    (hlink : link C ⟨(Post.perform d now s.post shared e).post, es, if e.shows then [] else s.gone⟩ = s.link C) :
    Mirrors C ⟨(Post.perform d now s.post shared e).post, es, if e.shows then [] else s.gone⟩ := by
  have hleaves := Post.leaves_perform d now s.post shared e
  rw [htodo] at horderly
  obtain ⟨hshows, hright⟩ | ⟨-, hchanges⟩ | ⟨hshows, hstatus, hvenue⟩ :=
    perform_cases d now s.post shared e
  · refine .right ⟨?_, ?_⟩ <;> simp [hshows, hright]
  · obtain ⟨x, hx, hshow⟩ := horderly.1 hchanges
    exact .pending hx hshow
  · cases h with
    | @pending x hx hshow =>
      rw [htodo] at hx
      rcases List.mem_cons.1 hx with rfl | hx
      · exact absurd (hshows.symm.trans hshow) nofun
      · exact .pending hx hshow
    | connecting hstate => exact .connecting (hleaves.worker ▸ hstate)
    | lost hstate hlost => exact .lost (hleaves.worker ▸ hstate) (hlink.trans hlost)
    | right hmatches =>
      refine .right ⟨?_, ?_⟩
      · simpa [hshows, hstatus, hvenue] using hmatches.subscriptions
      · simpa [hshows, hstatus] using hmatches.gone

theorem Running.carry (h : s.Running C delay) (htodo : s.todo = e :: es)
    (hfault : (Post.perform d now s.post shared e).fault = none) :
    Running C delay ⟨(Post.perform d now s.post shared e).post, es, if e.shows then [] else s.gone⟩ := by
  obtain ⟨w, hw⟩ := h.watched
  obtain ⟨past, hcalls⟩ := hw.calls
  have horderly := h.orderly
  rw [htodo] at horderly
  have hleaves := Post.leaves_perform d now s.post shared e
  have hdialing := dialing_perform d now s.post shared e
  obtain ⟨hsound, hcall⟩ := sound_perform d now s.post shared e h.sound
  have hcalling : Calling ⟨(Post.perform d now s.post shared e).post, es, if e.shows then [] else s.gone⟩ ↔
      s.Calling := by
    simp only [Calling, htodo, hdialing, List.mem_cons]
    tauto
  have hlink : link C ⟨(Post.perform d now s.post shared e).post, es, if e.shows then [] else s.gone⟩ = s.link C := by
    simp only [link, hcalling, hcall]
  refine
    { phase := hleaves.phase.trans h.phase
      sound := hsound
      calling := fun hc => hcall.trans (h.calling (hcalling.1 hc))
      single := fun hd hconnect => ?_
      orderly := horderly.2.2
      watched := ⟨w, hw.kept, hw.worker.trans hleaves.worker.symm, hw.queue.trans hleaves.inbox.symm, fun hhalted => ?_,
        past, hlink ▸ hcalls⟩
      mirrors := h.mirrors.perform htodo h.orderly hlink }
  · rcases hdialing.1 hd with heq | hd
    · exact horderly.2.1 heq.symm hconnect
    · exact h.single hd (htodo ▸ List.mem_cons_of_mem e hconnect)
  · obtain ⟨x, hx, hhalt⟩ := hw.halted hhalted
    rw [htodo] at hx
    rcases List.mem_cons.1 hx with rfl | hx
    · cases x with
      | halt f => cases hfault
      | _ => cases hhalt
    · exact ⟨x, hx, hhalt⟩

def dialed (s : Station σ) : Station σ :=
  { s with post := { s.post with venue := (Venue.connect s.post.venue).2, dialing := false } }

/-- When the venue sees the connect, it has not answered yet. -/
theorem Running.dial (h : s.Running C delay) (hdialing : s.post.dialing = true) :
    Running C delay { s with post := s.post.made .dial } := by
  have hcalling : s.Calling := Or.inr hdialing
  obtain ⟨hnone, hsound, hcall⟩ := C.connect s.post.venue h.sound (h.calling hcalling)
  have hmade : { s with post := s.post.made .dial } = s.dialed := by
    simp [dialed, Post.made, hdialing, hnone, Post.push]
  rw [hmade]
  obtain ⟨w, hw⟩ := h.watched
  obtain ⟨past, hcalls⟩ := hw.calls
  have hnot : ¬ s.dialed.Calling := by simp [Calling, dialed, h.single hdialing]
  have hlink : s.dialed.link C = s.link C := by
    rw [link_of_not_calling hnot, link_of_calling hcalling]
    exact hcall
  refine
    { phase := h.phase
      sound := hsound
      calling := fun hc => absurd hc hnot
      single := fun hd => absurd hd Bool.false_ne_true
      orderly := h.orderly
      watched := ⟨w, hw.kept, hw.worker, hw.queue, hw.halted, past, hlink ▸ hcalls⟩
      mirrors := .connecting ?_ }
  have hback := hw.backlog
  rw [link_of_calling hcalling] at hback
  show s.post.worker.state = .connecting
  generalize s.post.inbox = q at hback
  generalize s.post.worker.state = st at hback ⊢
  cases hback with
  | dialing => rfl

/-! ### What the venue does -/

theorem Watched.last (h : s.Watched C delay w) {c : Call} (hlink : s.link C = c) :
    ∃ n, w.calls[n]? = some c ∧ ∀ y, ∃ past, w.calls.set n y = past ++ [y] := by
  obtain ⟨past, hcalls⟩ := h.calls
  rw [hlink] at hcalls
  exact ⟨past.length, by simp [hcalls], fun y => ⟨past, by simp [hcalls]⟩⟩

def turned (s : Station σ) (v : σ) (es : List VenueEvent) (gone : List String) : Station σ :=
  { s with post := { s.post with venue := v, inbox := s.post.inbox ++ es }, gone := s.gone ++ gone }

theorem link_turned {v : σ} {es : List VenueEvent} {gone : List String} :
    (s.turned v es gone).link C = if s.Calling then .dialing else C.call v := rfl

/-- While the call does not change, neither does the rest, but for instruments that are dropped. -/
theorem Mirrors.turned (h : s.Mirrors C) {v : σ} {es : List VenueEvent} {gone : List String}
    (hcall : C.call v = C.call s.post.venue)
    (hsubs : Venue.subscriptions v = (Venue.subscriptions s.post.venue).filter (· ∉ gone))
    (hgone : ∀ i ∈ gone, i ∈ Venue.subscriptions s.post.venue) : (s.turned v es gone).Mirrors C := by
  cases h with
  | pending hx hshow => exact .pending hx hshow
  | connecting hstate => exact .connecting hstate
  | lost hstate hlost =>
    refine .lost hstate ?_
    rw [link_turned, hcall]
    exact hlost
  | right hmatches =>
    refine .right ⟨?_, fun i hi => ?_⟩
    · show Venue.subscriptions v = s.post.status.subscriptions.filter (· ∉ s.gone ++ gone)
      rw [hsubs, hmatches.subscriptions, List.filter_filter]
      simp [and_comm]
    · rcases List.mem_append.1 hi with hi | hi
      · exact hmatches.gone i hi
      · have hmem := hgone i hi
        rw [hmatches.subscriptions] at hmem
        exact (List.mem_filter.1 hmem).1

/-- What a venue does keeps the invariant if what it reports is as a watch expects it. -/
theorem Running.turned (h : s.Running C delay) {v : σ} {es : List VenueEvent} {gone : List String} (hsound : C.Sound v)
    (hcalling : s.Calling → C.call v = .over) (hmirrors : (s.turned v es gone).Mirrors C)
    (hwatched : ∃ w, (s.turned v es gone).Watched C delay w) : (s.turned v es gone).Running C delay where
  phase := h.phase
  sound := hsound
  calling := hcalling
  single := h.single
  orderly := h.orderly
  watched := hwatched
  mirrors := hmirrors

/-- As long as the call stays where it is, the worker is told of quotes at the most. -/
theorem Running.spared (h : s.Running C delay) (hw : s.Watched C delay w) {v : σ} {es : List VenueEvent}
    {gone : List String} (hsound : C.Sound v) (hcall : C.call v = C.call s.post.venue)
    (hsubs : Venue.subscriptions v = (Venue.subscriptions s.post.venue).filter (· ∉ gone))
    (hgone : ∀ i ∈ gone, i ∈ Venue.subscriptions s.post.venue)
    (hkept : Watch.Kept delay { w with queue := w.queue ++ es }) : (s.turned v es gone).Running C delay := by
  refine h.turned hsound (fun hcalling => hcall.trans (h.calling hcalling)) (h.mirrors.turned hcall hsubs hgone)
    ⟨_, hkept, hw.worker, congrArg (· ++ es) hw.queue, hw.halted, ?_⟩
  rw [link_turned, hcall]
  exact hw.calls

theorem Running.turn (h : s.Running C delay) {es : List VenueEvent} {gone : List String} {v : σ}
    (hturns : C.Turns s.post.venue es gone v) : (s.turned v es gone).Running C delay := by
  obtain ⟨hsound, hturn⟩ := C.turn _ _ _ _ h.sound hturns
  obtain ⟨w, hw⟩ := h.watched
  have hlink (hcall : C.call s.post.venue ≠ .over) : ¬ s.Calling ∧ s.link C = C.call s.post.venue :=
    ⟨h.not_calling hcall, link_of_not_calling (h.not_calling hcall)⟩
  have hsame : Watch.Kept delay { w with queue := w.queue ++ [] } := by
    rw [List.append_nil]
    exact hw.kept
  -- what a turn is depends on the calls and the subscriptions before and after, which have to be variables for it
  generalize hc : C.call s.post.venue = c at hturn hlink
  generalize hc' : C.call v = c' at hturn
  generalize hsubs : Venue.subscriptions v = subs at hturn
  cases hturn with
  | quiet _ => exact h.spared hw hsound (hc'.trans hc.symm) (by simp [hsubs]) nofun hsame
  | quoted he =>
    obtain ⟨-, hup⟩ := hlink nofun
    obtain ⟨n, hn, -⟩ := hw.last hup
    exact h.spared hw hsound (hc'.trans hc.symm) (by simp [hsubs]) nofun (hw.kept.step (.quote hn he))
  | dropped hi => exact h.spared hw hsound (hc'.trans hc.symm) (by simp [hsubs]) (by simpa using hi) hsame
  | answered ok _ =>
    obtain ⟨hnot, hdialing⟩ := hlink nofun
    obtain ⟨n, hn, hset⟩ := hw.last hdialing
    have hback := hw.backlog
    rw [hdialing] at hback
    refine h.turned hsound (fun hcalling => absurd hcalling hnot) (.connecting ?_)
      ⟨_, hw.kept.step (.report ok hn), hw.worker, congrArg (· ++ _) hw.queue, hw.halted, ?_⟩
    · generalize s.post.inbox = q at hback
      show s.post.worker.state = .connecting
      generalize s.post.worker.state = st at hback ⊢
      cases hback with
      | dialing => rfl
    · rw [link_turned, if_neg hnot, hc']
      exact hset _
  | lost _ =>
    obtain ⟨hnot, hup⟩ := hlink nofun
    obtain ⟨n, hn, hset⟩ := hw.last hup
    have hback := hw.backlog
    rw [hup] at hback
    have hover : (s.turned v [.disconnected] []).link C = .over := by rw [link_turned, if_neg hnot, hc']
    refine h.turned hsound (fun hcalling => absurd hcalling hnot) ?_
      ⟨_, hw.kept.step (.lose hn), hw.worker, congrArg (· ++ _) hw.queue, hw.halted, ?_⟩
    · have hstate : s.post.worker.state = .connecting ∨ s.post.worker.state = .subscribed := by
        generalize s.post.inbox = q at hback
        generalize s.post.worker.state = st at hback ⊢
        cases hback with
        | greeted _ => exact Or.inl rfl
        | up _ => exact Or.inr rfl
      rcases hstate with hstate | hstate
      · exact .connecting hstate
      · exact .lost hstate hover
    · rw [hover]
      exact hset _

/-- Before the worker begins nothing comes of the venue. -/
theorem Waiting.turn (h : s.Waiting C x policy) {es : List VenueEvent} {gone : List String} {v : σ}
    (hturns : C.Turns s.post.venue es gone v) : (s.turned v es gone).Waiting C x policy := by
  obtain ⟨hsound, hturn⟩ := C.turn _ _ _ _ h.sound hturns
  rw [h.call] at hturn
  generalize hc' : C.call v = c' at hturn
  generalize hsubs : Venue.subscriptions v = subs at hturn
  cases hturn with
  | quiet _ =>
    exact
      { phase := h.phase
        sound := hsound
        call := hc'
        worker := h.worker
        inbox := by simp [turned, h.inbox]
        dialing := h.dialing
        todo := h.todo
        right := ⟨by simpa [turned, hsubs] using h.right.subscriptions, by simpa [turned] using h.right.gone⟩ }

/-! ### Runs -/

omit [Venue σ] in
theorem turned_eq (hphase : s.post.phase ≠ .ended) (v : σ) (es : List VenueEvent) (gone : List String) :
    { s with post := Post.push { s.post with venue := v } es, gone := s.gone ++ gone } = s.turned v es gone := by
  simp [turned, Post.push, hphase]

theorem Kept.step (h : s.Kept C x policy) (hs : s.Step C s') : s'.Kept C x policy := by
  -- the worker waits, runs or has ended, and each step has its lemma there or cannot be taken
  cases h with
  | waiting h =>
    cases hs with
    | decide _ hdec => exact .running (h.decide hdec)
    | carry _ _ _ htodo _ => cases h.todo.symm.trans htodo
    | fault _ _ _ htodo _ => cases h.todo.symm.trans htodo
    | dial hdialing => cases h.dialing.symm.trans hdialing
    | turn hturn =>
      rw [turned_eq (by rw [h.phase]; nofun)]
      exact .waiting (h.turn hturn)
  | running h =>
    cases hs with
    | decide htodo hdec =>
      obtain ⟨-, hwaiting, -⟩ | ⟨-, i, hi, rfl⟩ := Post.decision?_cases hdec
      · cases h.phase.symm.trans hwaiting
      · exact .running (h.decide htodo hi)
    | carry _ _ _ htodo hfault => exact .running (h.carry htodo hfault)
    | fault _ _ _ _ _ => exact .ended rfl
    | dial hdialing => exact .running (h.dial hdialing)
    | turn hturn =>
      rw [turned_eq (by rw [h.phase]; nofun)]
      exact .running (h.turn hturn)
  | ended h =>
    cases hs with
    | decide _ hdec =>
      obtain ⟨-, hphase, -⟩ | ⟨hphase, -⟩ := Post.decision?_cases hdec
      · cases h.symm.trans hphase
      · cases h.symm.trans hphase
    | carry d now shared _ _ => exact .ended ((Post.leaves_perform d now s.post shared _).phase.trans h)
    | fault _ _ _ _ _ => exact .ended rfl
    | dial hdialing => exact .ended (by simp [Post.made, hdialing, Post.push, h])
    | turn _ => exact .ended (by simp [Post.push, h])

theorem Reachable.kept {v : σ} (h : Reachable C x policy v s) (hsound : C.Sound v) (hcall : C.call v = .over)
    (hnone : Venue.subscriptions v = []) : s.Kept C x policy := by
  induction h with
  | start time => exact .waiting ⟨rfl, hsound, hcall, rfl, rfl, rfl, rfl, ⟨hnone, nofun⟩⟩
  | step _ hs ih => exact ih.step hs

/-- Nothing is under way: the worker lives and has done all that it decided, no event waits for it, and no connect
is begun that was not answered. -/
structure Quiet (C : Conduct σ) (s : Station σ) : Prop where
  phase : s.post.phase ≠ .ended
  todo : s.todo = []
  inbox : s.post.inbox = []
  dialing : s.post.dialing = false
  call : C.call s.post.venue ≠ .dialing

/-- When nothing is under way, what is shown of the subscriptions is right, but for what the venue dropped since. -/
theorem Kept.matches (h : s.Kept C x policy) (hquiet : s.Quiet C) : s.Matches := by
  cases h with
  | waiting h => exact h.right
  | ended h => exact absurd h hquiet.phase
  | running h =>
    obtain ⟨w, hw⟩ := h.watched
    have hnot : ¬ s.Calling := by simp [Calling, hquiet.todo, hquiet.dialing]
    have hback := hw.backlog
    rw [hquiet.inbox] at hback
    have hlink : s.link C ≠ .dialing := (link_of_not_calling hnot).trans_ne hquiet.call
    cases h.mirrors with
    | pending hx _ =>
      rw [hquiet.todo] at hx
      cases hx
    | connecting hstate =>
      rw [hstate] at hback
      generalize s.link C = c at hback hlink
      cases hback with
      | dialing => exact absurd rfl hlink
    | lost hstate hover =>
      rw [hstate, hover] at hback
      generalize hq : ([] : List VenueEvent) = q at hback
      cases hback with
      | lost _ => simp at hq
    | right hmatches => exact hmatches

end Station

end RateDesk
