import RateDesk.Proofs.Coordinator.Run
import RateDesk.Proofs.Desk.Moderate

/-!
# After an unsubscribe

A worker that gave an instrument up still hands over the quotes that waited for it, and no others if its
venue reports only what it has subscribed.

* `Post.quotes_deed`, `Coordinator.quotes_run` : a worker takes its quotes in order, each at most once;
* `Venue.Lawful`, `Post.Reports`, `Coordinator.Solicited` : venues that report what they have subscribed;
* `Post.Dropped` : a post where an instrument was given up stays so;
* `Spared` : nothing is published or stored of a platform for an instrument;
* `unsubscribe_ends_feed` : what an unsubscribe guarantees.
-/

namespace RateDesk

/-! ## Quotes -/

/-- The quote that an effect hands to the desk, and whether it is the first for its instrument. -/
def Effect.quote? : Effect → Option (Bool × String × Rate)
  | quote first i r => some (first, i, r)
  | _ => none

def WorkerInput.quote? : WorkerInput → Option (Bool × String × Rate)
  | event e => e.quote?
  | _ => none

/-- A worker hands over the quote that it gets, or none. -/
theorem Worker.Move.quotes {w w' : Worker} {now : Instant} {i : WorkerInput} {es : List Effect}
    (hm : w.Move now i w' es) : (es.filterMap Effect.quote?).Sublist i.quote?.toList := by
  cases hm with
  | connected _ => simp [List.filterMap_cons, List.filterMap_map, Function.comp_def, Effect.quote?]
  | quoted he _ _ => simp [WorkerInput.quote?, Effect.quote?, he]
  | tooLate _ => exact List.nil_sublist _
  | lost _ _ _ _ _ => exact List.nil_sublist _
  | stranded _ _ _ _ _ => exact List.nil_sublist _
  | gaveUp _ _ _ _ => exact List.nil_sublist _
  | lostBefore _ _ => exact List.nil_sublist _
  | dropped _ _ => exact List.nil_sublist _
  | unsubscribed i => exact List.nil_sublist _
  | retried => exact List.nil_sublist _

/-- A worker subscribes only what it has to. -/
theorem Worker.Move.not_subscribed {w w' : Worker} {t : Instant} {x : WorkerInput} {es : List Effect}
    {i : String} (hm : w.Move t x w' es) (hi : i ∉ w.instruments) : i ∉ w'.instruments ∧ .subscribe i ∉ es := by
  cases hm with
  | connected _ => exact ⟨hi, by simpa using hi⟩
  | unsubscribed j => exact ⟨fun h => hi (List.mem_filter.1 h).1, by simp⟩
  | lost _ _ _ _ _ => exact ⟨hi, by simp⟩
  | stranded _ _ _ _ _ => exact ⟨hi, by simp⟩
  | gaveUp _ _ _ _ => exact ⟨hi, by simp⟩
  | quoted _ _ _ => exact ⟨hi, by simp⟩
  | retried => exact ⟨hi, by simp⟩
  | tooLate _ => exact ⟨hi, by simp⟩
  | lostBefore _ _ => exact ⟨hi, by simp⟩
  | dropped _ _ => exact ⟨hi, by simp⟩

namespace Post

variable {σ : Type} [Venue σ] {d : Derivation} {now : Now} {p : Post σ} {s : Shared} {a : Deed σ} {i : String}

/-- The events that a deed adds to those that wait. -/
def arrivals (p : Post σ) : Deed σ → List VenueEvent
  | .dial => if p.dialing then (Venue.connect p.venue).1 else []
  | .report e => [e]
  | _ => []

omit [Venue σ] in
theorem push_inbox (p : Post σ) (es : List VenueEvent) : (p.push es).inbox.Sublist (p.inbox ++ es) := by
  unfold push
  split
  · exact List.sublist_append_left _ _
  · exact List.Sublist.refl _

theorem inbox_deed (d : Derivation) (now : Now) (p : Post σ) (s : Shared) (a : Deed σ) :
    (p.deed d now s a).post.inbox.Sublist (p.made a).inbox := by
  apply deed_post (Q := fun q => q.inbox.Sublist (p.made a).inbox) d now p s a
  · intro _
    exact List.Sublist.refl _
  · intro _ _
    exact List.Sublist.refl _
  · intro q s e _ hq
    rwa [(leaves_perform d now q s e).inbox]
  · intro q _
    exact List.nil_sublist _

omit [Venue σ] in
theorem input?_quote {t : Instant} {x : WorkerInput} (hne : a ≠ .handle) (h : p.input? t a = some x) :
    x.quote? = none := by
  cases a with
  | handle => exact absurd rfl hne
  | unsubscribe i =>
    cases h
    rfl
  | retry =>
    simp only [input?] at h
    split at h
    · cases h
      rfl
    · cases h
  | _ => cases h

omit [Venue σ] in
/-- A worker hands a quote over only when it takes an event. -/
theorem quotes_effects (t : Instant) (hne : a ≠ .handle) : (p.effects t a).filterMap Effect.quote? = [] := by
  unfold effects
  cases hdec : p.decision? t a with
  | none => rfl
  | some decision =>
    obtain ⟨-, -, rfl⟩ | ⟨-, x, hx, rfl⟩ := decision?_cases hdec
    · rfl
    · have hquotes := (Worker.move_step p.worker t x).quotes
      rwa [input?_quote hne hx, Option.toList_none, List.sublist_nil] at hquotes

theorem made_inbox (hne : a ≠ .handle) : (p.made a).inbox.Sublist (p.inbox ++ p.arrivals a) := by
  cases a with
  | handle => exact absurd rfl hne
  | begin =>
    simp only [made, arrivals]
    split <;> simp
  | dial =>
    simp only [made, arrivals]
    split
    · exact push_inbox _ _
    · simp
  | report e => exact push_inbox _ _
  | stop =>
    simp only [made, stop, arrivals]
    split <;> simp
  | unsubscribe i => exact List.sublist_append_left _ _
  | retry => exact List.sublist_append_left _ _
  | change f => exact List.sublist_append_left _ _

/-- Quotes are taken in order, each at most once. -/
theorem quotes_deed (d : Derivation) (now : Now) (p : Post σ) (s : Shared) (a : Deed σ) :
    ((p.effects now.instant a).filterMap Effect.quote? ++
        (p.deed d now s a).post.inbox.filterMap VenueEvent.quote?).Sublist
      (p.inbox.filterMap VenueEvent.quote? ++ (p.arrivals a).filterMap VenueEvent.quote?) := by
  apply (List.Sublist.append_left ((inbox_deed d now p s a).filterMap _) _).trans
  by_cases hne : a = .handle
  · subst hne
    by_cases h : p.phase = .running
    · cases hq : p.inbox with
      | nil => simp [effects, decision?, input?, made, arrivals, h, hq]
      | cons e r =>
        have hstep := (Worker.move_step p.worker now.instant (.event e)).quotes
        have hevent : (e :: r).filterMap VenueEvent.quote? = e.quote?.toList ++ r.filterMap VenueEvent.quote? := by
          rw [List.filterMap_cons]
          cases e.quote? <;> rfl
        simp only [effects, decision?, input?, made, arrivals, h, hq, hevent]
        simpa [WorkerInput.quote?] using hstep
    · simp [effects, decision?, made, arrivals, h]
  · rw [quotes_effects _ hne, List.nil_append, ← List.filterMap_append]
    exact (made_inbox hne).filterMap _

end Post

/-! ## Venues -/

/-- What a venue says that it has subscribed: what it was asked for, and not asked to give up since. A
connect brings no quotes but for what is subscribed. -/
structure Venue.Lawful (σ : Type) [Venue σ] : Prop where
  connect : ∀ v : σ, subscriptions (Venue.connect v).2 ⊆ subscriptions v
  quoted : ∀ v : σ, ∀ e ∈ (Venue.connect v).1, ∀ q ∈ e.quote?, q.2.1 ∈ subscriptions v
  subscribe : ∀ (i : String) (v : σ), subscriptions (Venue.subscribe i v).2 ⊆ i :: subscriptions v
  unsubscribe : ∀ (i : String) (v : σ), subscriptions (Venue.unsubscribe i v).2 ⊆ subscriptions v
  gone : ∀ (i : String) (v : σ), (Venue.unsubscribe i v).1 = .ok () → i ∉ subscriptions (Venue.unsubscribe i v).2
  disconnect : ∀ v : σ, subscriptions (Venue.disconnect v) ⊆ subscriptions v

theorem ScriptedVenue.subscriptions_eq (v : ScriptedVenue) (i : String) :
    i ∈ Venue.subscriptions v ↔ i ∈ v.subscribed :=
  (List.mergeSort_perm _ _).mem_iff

theorem ScriptedVenue.lawful : Venue.Lawful ScriptedVenue where
  connect v := List.Subset.refl _
  quoted v e he q hq := by
    have hevents : v.nextConnect.events.filterMap VenueEvent.quote? = [] := by
      cases v.nextConnect <;> rfl
    have hmem : q ∈ v.nextConnect.events.filterMap VenueEvent.quote? := List.mem_filterMap.2 ⟨e, he, hq⟩
    rw [hevents] at hmem
    cases hmem
  subscribe i v j hj := by
    rw [subscriptions_eq] at hj
    simp only [Venue.subscribe] at hj
    split at hj
    · exact List.mem_cons_of_mem _ ((subscriptions_eq v j).2 hj)
    · rcases List.mem_cons.1 hj with rfl | hj
      · exact List.mem_cons_self
      · exact List.mem_cons_of_mem _ ((subscriptions_eq v j).2 (List.mem_filter.1 hj).1)
  unsubscribe i v j hj := (subscriptions_eq v j).2 (List.mem_filter.1 ((subscriptions_eq _ j).1 hj)).1
  gone i v _ hi := by simpa [Venue.unsubscribe] using (subscriptions_eq _ i).1 hi
  disconnect v j hj := by simpa [Venue.disconnect] using (subscriptions_eq _ j).1 hj

namespace Post

variable {σ : Type} [Venue σ] {d : Derivation} {now : Now} {p : Post σ} {s : Shared} {a : Deed σ} {i : String}

/-- The venue reports quotes only for what it has subscribed, and subscribes nothing of its own accord. -/
def Reports (p : Post σ) : Deed σ → Prop
  | .report e => ∀ q ∈ e.quote?, q.2.1 ∈ Venue.subscriptions p.venue
  | .change f => Venue.subscriptions (f p.venue) ⊆ Venue.subscriptions p.venue
  | _ => True

/-- An instrument was given up, by the worker and by the venue. -/
structure Dropped (i : String) (p : Post σ) : Prop where
  worker : i ∉ p.worker.instruments
  venue : i ∉ Venue.subscriptions p.venue

theorem Dropped.perform (hv : Venue.Lawful σ) (h : p.Dropped i) (d : Derivation) (now : Now) (s : Shared) {e : Effect}
    (he : e ≠ .subscribe i) : (perform d now p s e).post.Dropped i := by
  cases e with
  | subscribe j =>
    refine ⟨h.worker, fun hi => ?_⟩
    rcases List.mem_cons.1 (hv.subscribe j p.venue hi) with rfl | hi
    · exact he rfl
    · exact h.venue hi
  | unsubscribe j => exact ⟨h.worker, fun hi => h.venue (hv.unsubscribe j p.venue hi)⟩
  | enter state attempts => exact ⟨h.worker, h.venue⟩
  | refresh state attempts => exact ⟨h.worker, h.venue⟩
  | countAttempt => exact h
  | connect => exact ⟨h.worker, h.venue⟩
  | quote first j r => exact h
  | alert => exact h
  | halt f => exact h

theorem Dropped.made (hv : Venue.Lawful σ) (h : p.Dropped i) (ha : p.Reports a) : (p.made a).Dropped i := by
  refine ⟨made_worker p a ▸ h.worker, fun hi => h.venue ?_⟩
  revert hi
  cases a with
  | begin =>
    simp only [Post.made]
    split <;> exact id
  | handle =>
    simp only [Post.made]
    split <;> exact id
  | unsubscribe j => exact id
  | retry => exact id
  | dial =>
    simp only [Post.made, push]
    split
    · split <;> exact fun hi => hv.connect p.venue hi
    · exact id
  | report e =>
    simp only [Post.made, push]
    split <;> exact id
  | change f => exact fun hi => ha hi
  | stop =>
    simp only [Post.made, stop]
    split
    · exact fun hi => hv.disconnect p.venue hi
    · exact id

theorem Dropped.deed (hv : Venue.Lawful σ) (h : p.Dropped i) (ha : p.Reports a) :
    (p.deed d now s a).post.Dropped i := by
  have hmade := h.made hv ha
  have hdecided (decision : Worker × List Effect) (hdec : p.decision? now.instant a = some decision) :
      i ∉ decision.1.instruments ∧ .subscribe i ∉ decision.2 := by
    obtain ⟨-, -, rfl⟩ | ⟨-, x, -, rfl⟩ := decision?_cases hdec
    · exact ⟨h.worker, by simp [Worker.begin]⟩
    · exact (Worker.move_step p.worker now.instant x).not_subscribed h.worker
  apply deed_post
  · intro _
    exact hmade
  · intro decision hdec
    exact ⟨(hdecided decision hdec).1, hmade.venue⟩
  · intro q s e he hq
    refine hq.perform hv d now s ?_
    rintro rfl
    unfold effects at he
    cases hdec : p.decision? now.instant a with
    | none => simp [hdec] at he
    | some decision => exact (hdecided decision hdec).2 (by simpa [hdec] using he)
  · intro q hq
    exact ⟨hq.worker, hq.venue⟩

/-- Once an unsubscribe succeeds, the instrument is given up; what waits goes on waiting. -/
theorem unsubscribed_of_reply (h : (p.deed d now s (.unsubscribe i)).reply = some (.ok ())) :
    (p.deed d now s (.unsubscribe i)).post.inbox = p.inbox ∧
      (Venue.Lawful σ → (p.deed d now s (.unsubscribe i)).post.Dropped i) := by
  by_cases hphase : p.phase = .running
  · simp only [deed, act, if_pos hphase, apply, performAll, perform, Worker.step, Worker.onUnsubscribe] at h ⊢
    refine ⟨rfl, fun hv => ⟨?_, ?_⟩⟩
    · simp [present]
    · exact hv.gone i p.venue (by simpa using h)
  · simp [deed, act, hphase, idle] at h

/-- What was given up is not quoted any more. -/
theorem Dropped.arrivals (hv : Venue.Lawful σ) (h : p.Dropped i) (ha : p.Reports a) :
    ∀ q ∈ (p.arrivals a).filterMap VenueEvent.quote?, q.2.1 ≠ i := by
  intro q hq
  obtain ⟨e, he, hquote⟩ := List.mem_filterMap.1 hq
  rintro rfl
  apply h.venue
  cases a with
  | dial =>
    simp only [Post.arrivals] at he
    split at he
    · exact hv.quoted p.venue e he q hquote
    · cases he
  | report e' =>
    cases List.mem_singleton.1 he
    exact ha q hquote
  | _ => cases he

end Post

/-! ## What is shared -/

/-- Nothing new is stored of a platform for an instrument, and what is published of the platform are quotes for
other instruments, handed over by some effects. -/
structure Spared (name i : String) (es : List Effect) (s s' : Shared) : Prop where
  published : ∃ ms, s'.desk.published = s.desk.published ++ ms ∧
    ∀ r, .raw name r ∈ ms → ∃ first j, j ≠ i ∧ .quote first j r ∈ es
  stored : s'.desk.cache.find? (.raw name i) = none ∨
    s'.desk.cache.find? (.raw name i) = s.desk.cache.find? (.raw name i)

namespace Spared

variable {name i : String} {es : List Effect} {s s' s'' : Shared}

theorem of_eq (hp : s'.desk.published = s.desk.published) (hc : s'.desk.cache = s.desk.cache) :
    Spared name i es s s' :=
  ⟨⟨[], by simp [hp]⟩, Or.inr (by rw [hc])⟩

theorem trans (h : Spared name i es s s') (h' : Spared name i es s' s'') : Spared name i es s s'' where
  published := by
    obtain ⟨ms, hms, hraw⟩ := h.published
    obtain ⟨ms', hms', hraw'⟩ := h'.published
    refine ⟨ms ++ ms', by rw [hms', hms, List.append_assoc], ?_⟩
    intro r hr
    exact (List.mem_append.1 hr).elim (hraw r) (hraw' r)
  stored := by
    rcases h'.stored with hnone | hsame
    · exact Or.inl hnone
    · rw [hsame]
      exact h.stored

end Spared

namespace Post

variable {σ : Type} [Venue σ] {d : Derivation} {now : Now} {p : Post σ} {s : Shared} {a : Deed σ} {name i : String}
  {es : List Effect}

theorem spared_perform (p : Post σ) (s : Shared) {e : Effect}
    (he : p.worker.platform = name → e ∈ es ∧ ∀ first r, e ≠ .quote first i r) :
    Spared name i es s (perform d now p s e).shared := by
  cases e with
  | quote first j r =>
    have hspares := spares_handQuote d now p.worker.platform first j r s
    obtain ⟨ms, hms, hraw⟩ := hspares.published
    refine ⟨⟨ms, hms, ?_⟩, Or.inr (hspares.find? name i ?_)⟩
    · intro r' hr'
      obtain ⟨hname, rfl⟩ := hraw name r' hr'
      obtain ⟨hmem, hother⟩ := he hname.symm
      exact ⟨first, j, fun hj => hother first r' (by rw [hj]), hmem⟩
    · rintro ⟨hname, rfl⟩
      exact (he hname.symm).2 first r rfl
  | enter state attempts => exact .of_eq rfl rfl
  | refresh state attempts => exact .of_eq rfl rfl
  | countAttempt => exact .of_eq rfl rfl
  | connect => exact .of_eq rfl rfl
  | subscribe j => exact .of_eq rfl rfl
  | unsubscribe j => exact .of_eq rfl rfl
  | alert => exact .of_eq rfl rfl
  | halt f => exact .of_eq rfl rfl

/-- A deed of another platform, or one that hands over no quote for the instrument. -/
theorem spared_deed (h : p.worker.platform = name → p.effects now.instant a ⊆ es ∧
      ∀ first r, .quote first i r ∉ p.effects now.instant a) :
    Spared name i es s (p.deed d now s a).shared := by
  apply deed_shared (I := fun s' _ => Spared name i es s s') d now p a
  · intro q s' e he hq hs
    refine hs.trans (spared_perform q s' fun hname => ?_)
    obtain ⟨hsub, hother⟩ := h (hq ▸ hname)
    exact ⟨hsub he, fun first r heq => hother first r (heq ▸ he)⟩
  · exact .of_eq rfl rfl

end Post

/-! ## Runs -/

namespace Coordinator

variable {σ : Type} [Venue σ] {c : Coordinator σ} {n : Nat} {i : String} {p q : Post σ} {as bs : List (Action σ)}

/-- The events that the venue of a post adds to those that wait, in a run. -/
abbrev arrivals (n : Nat) (c : Coordinator σ) (as : List (Action σ)) : List VenueEvent :=
  notes (fun p _ a => p.arrivals a) n c as

/-- In every step of a run the venue of a post reports what it has subscribed. -/
def Solicited (n : Nat) : Coordinator σ → List (Action σ) → Prop
  | _, [] => True
  | c, x :: as => (∀ now a p, x = .post n now a → c.posts[n]? = some p → p.Reports a) ∧ Solicited n (c.after x) as

def quotesFor (i : String) (qs : List (Bool × String × Rate)) : List (Bool × String × Rate) :=
  qs.filter fun q => q.2.1 = i

theorem quotes_run (hp : c.posts[n]? = some p) (as : List (Action σ)) :
    ∃ p', (c.run as).posts[n]? = some p' ∧
      ((effects n c as).filterMap Effect.quote? ++ p'.inbox.filterMap VenueEvent.quote?).Sublist
        (p.inbox.filterMap VenueEvent.quote? ++ (arrivals n c as).filterMap VenueEvent.quote?) := by
  induction as generalizing c p with
  | nil => exact ⟨p, hp, by simp [notes]⟩
  | cons x as ih =>
    rcases after_elsewhere hp x with ⟨now, a, rfl⟩ | ⟨hsame, hnoted⟩
    · obtain ⟨p', hp', hrest⟩ := ih (posts_after hp now a)
      refine ⟨p', hp', ?_⟩
      have hfirst := Post.quotes_deed c.derivation now p c.shared a
      simp only [notes, noted_post _ hp, List.filterMap_append, List.append_assoc]
      apply (List.Sublist.append_left hrest _).trans
      rw [← List.append_assoc, ← List.append_assoc]
      exact List.Sublist.append_right hfirst _
    · obtain ⟨p', hp', hrest⟩ := ih hsame
      refine ⟨p', hp', ?_⟩
      simpa only [notes, hnoted, List.nil_append] using hrest

theorem Solicited.append (h : Solicited n c (as ++ bs)) : Solicited n c as ∧ Solicited n (c.run as) bs := by
  induction as generalizing c with
  | nil => exact ⟨trivial, h⟩
  | cons x as ih =>
    obtain ⟨has, hbs⟩ := ih h.2
    exact ⟨⟨h.1, has⟩, hbs⟩

theorem dropped_run (hv : Venue.Lawful σ) (hp : c.posts[n]? = some p) (h : p.Dropped i) (hs : Solicited n c as) :
    (∃ p', (c.run as).posts[n]? = some p' ∧ p'.Dropped i) ∧
      quotesFor i ((arrivals n c as).filterMap VenueEvent.quote?) = [] := by
  induction as generalizing c p with
  | nil => exact ⟨⟨p, hp, h⟩, rfl⟩
  | cons x as ih =>
    rcases after_elsewhere hp x with ⟨now, a, rfl⟩ | ⟨hsame, hnoted⟩
    · have hreports := hs.1 now a p rfl hp
      obtain ⟨hlast, hrest⟩ := ih (posts_after hp now a) (h.deed hv hreports) hs.2
      refine ⟨hlast, ?_⟩
      have hfirst : quotesFor i ((p.arrivals a).filterMap VenueEvent.quote?) = [] := by
        simpa [quotesFor, List.filter_eq_nil_iff] using h.arrivals hv hreports
      unfold quotesFor at hfirst hrest ⊢
      rw [arrivals, notes, noted_post _ hp, List.filterMap_append, List.filter_append, hfirst]
      exact hrest
    · obtain ⟨hlast, hrest⟩ := ih hsame h hs.2
      refine ⟨hlast, ?_⟩
      rw [arrivals, notes, hnoted]
      exact hrest

theorem spared_sweep {name : String} {es : List Effect} (c : Coordinator σ) (t : Instant) :
    Spared name i es c.shared (c.after (.sweep t)).shared := by
  refine ⟨⟨[], by simp [after]⟩, ?_⟩
  show (c.shared.desk.cache.evict t).find? (.raw name i) = none ∨ (c.shared.desk.cache.evict t).find? (.raw name i) = _
  rw [Cache.find?_evict]
  cases hentry : c.shared.desk.cache.find? (.raw name i) with
  | none => exact Or.inl rfl
  | some e =>
    by_cases hlive : e.isLive t = true
    · exact Or.inr (by simp [hlive])
    · exact Or.inl (by simp [hlive])

theorem spared_after {es : List Effect} (hdistinct : c.platforms.Nodup) (hp : c.posts[n]? = some p) (x : Action σ)
    (hsub : c.noted Post.effects n x ⊆ es) (hother : ∀ first r, .quote first i r ∉ c.noted Post.effects n x) :
    Spared p.worker.platform i es c.shared (c.after x).shared := by
  cases x with
  | sweep t => exact spared_sweep c t
  | post m now a =>
    cases hq : c.posts[m]? with
    | none =>
      rw [after_post_none hq]
      exact .of_eq rfl rfl
    | some q =>
      rw [after_post hq]
      apply Post.spared_deed
      intro hname
      obtain rfl : m = n := Decidable.not_not.1 fun hne => ne_platform hdistinct hp hq hne hname
      obtain rfl : q = p := Option.some.inj (hq.symm.trans hp)
      rw [noted_post _ hp] at hsub hother
      exact ⟨hsub, hother⟩

/-- While a worker hands over no quote for an instrument, nobody publishes or stores one of its platform. -/
theorem spared_run {name : String} {es : List Effect} (hdistinct : c.platforms.Nodup) (hp : c.posts[n]? = some p)
    (hname : p.worker.platform = name) (hsub : effects n c as ⊆ es)
    (hother : ∀ first r, .quote first i r ∉ effects n c as) : Spared name i es c.shared (c.run as).shared := by
  induction as generalizing c p with
  | nil => exact .of_eq rfl rfl
  | cons x as ih =>
    have hdistinct' : (c.after x).platforms.Nodup := by rwa [platforms_after]
    simp only [effects, notes, List.append_subset, List.mem_append, not_or] at hsub hother
    have hfirst := spared_after hdistinct hp x hsub.1 fun first r => (hother first r).1
    rw [hname] at hfirst
    have hrest {p' : Post σ} (hp' : (c.after x).posts[n]? = some p') (hname' : p'.worker.platform = name) :=
      ih hdistinct' hp' hname' hsub.2 fun first r => (hother first r).2
    rcases after_elsewhere hp x with ⟨now, a, rfl⟩ | ⟨hsame, -⟩
    · exact hfirst.trans (hrest (posts_after hp now a) ((Post.deed_platform ..).trans hname))
    · exact hfirst.trans (hrest hsame hname)

theorem quotesFor_eq_nil {es : List Effect} :
    quotesFor i (es.filterMap Effect.quote?) = [] ↔ ∀ first r, .quote first i r ∉ es := by
  unfold quotesFor
  rw [List.filter_eq_nil_iff]
  constructor
  · intro h first r hmem
    exact h _ (List.mem_filterMap.2 ⟨_, hmem, rfl⟩) (by simp)
  · intro h q hq
    obtain ⟨e, he, hquote⟩ := List.mem_filterMap.1 hq
    cases e with
    | quote first j r =>
      cases hquote
      simp only [decide_eq_true_eq]
      rintro rfl
      exact h first r he
    | _ => cases hquote

/-- The quotes for an instrument that a worker hands over waited, or arrived since. -/
theorem quotesFor_effects_sublist (hp : c.posts[n]? = some p) (as : List (Action σ)) :
    (quotesFor i ((effects n c as).filterMap Effect.quote?)).Sublist
      (quotesFor i (p.inbox.filterMap VenueEvent.quote?) ++
        quotesFor i ((arrivals n c as).filterMap VenueEvent.quote?)) := by
  obtain ⟨p', -, hquotes⟩ := quotes_run hp as
  have hfiltered := ((List.sublist_append_left _ _).trans hquotes).filter fun q => q.2.1 = i
  rwa [List.filter_append] at hfiltered

/-- **What an unsubscribe guarantees.** Once it succeeded, the worker hands over only those quotes for the
instrument that waited when it took the command, or that the venue reports afterwards, in order and each
at most once. A venue that reports what it has subscribed reports none afterwards; so from when those that
waited are taken, none is handed over, and nothing is published or stored of the platform for the
instrument. -/
theorem unsubscribe_ends_feed {now : Now} (hdistinct : c.platforms.Nodup) (hp : c.posts[n]? = some p)
    (hreply : (c.outcome? (.post n now (.unsubscribe i))).bind Post.Outcome.reply = some (.ok ())) :
    let c₁ := c.after (.post n now (.unsubscribe i))
    (∀ as, (quotesFor i ((effects n c₁ as).filterMap Effect.quote?)).Sublist
      (quotesFor i (p.inbox.filterMap VenueEvent.quote?) ++
        quotesFor i ((arrivals n c₁ as).filterMap VenueEvent.quote?))) ∧
    (Venue.Lawful σ → ∀ as bs, Solicited n c₁ (as ++ bs) →
      (quotesFor i ((effects n c₁ as).filterMap Effect.quote?)).Sublist
        (quotesFor i (p.inbox.filterMap VenueEvent.quote?)) ∧
      ∀ q, (c₁.run as).posts[n]? = some q → quotesFor i (q.inbox.filterMap VenueEvent.quote?) = [] →
        (∀ first r, .quote first i r ∉ effects n (c₁.run as) bs) ∧
        Spared p.worker.platform i (effects n (c₁.run as) bs) (c₁.run as).shared ((c₁.run as).run bs).shared) := by
  intro c₁
  have hdeed : (p.deed c.derivation now c.shared (.unsubscribe i)).reply = some (.ok ()) := by
    simpa [outcome?, hp] using hreply
  obtain ⟨hinbox, hdropped⟩ := Post.unsubscribed_of_reply hdeed
  have hp₁ := posts_after hp now (.unsubscribe i)
  refine ⟨fun as => ?_, fun hv as bs hs => ?_⟩
  · rw [← hinbox]
    exact quotesFor_effects_sublist hp₁ as
  -- the instrument stays given up, so its venue adds no quote for it: neither in `as` nor in `bs`
  · obtain ⟨hs, hs'⟩ := hs.append
    obtain ⟨⟨p₂, hp₂, hdropped₂⟩, harrivals⟩ := dropped_run hv hp₁ (hdropped hv) hs
    have hquotes := quotesFor_effects_sublist (i := i) hp₁ as
    rw [harrivals, List.append_nil, hinbox] at hquotes
    refine ⟨hquotes, fun q hq hwaiting => ?_⟩
    obtain rfl : q = p₂ := Option.some.inj (hq.symm.trans hp₂)
    have hrest := quotesFor_effects_sublist (i := i) hq bs
    rw [(dropped_run hv hq hdropped₂ hs').2, hwaiting, List.append_nil, List.sublist_nil, quotesFor_eq_nil] at hrest
    have hname : q.worker.platform = p.worker.platform := by
      apply Option.some.inj
      rw [← platforms_getElem? hq, ← platforms_getElem? hp, platforms_run, platforms_after]
    refine ⟨hrest, spared_run ?_ hq hname (List.Subset.refl _) hrest⟩
    rwa [platforms_run, platforms_after]

/-- A platform connects and reports a quote. -/
def reported : List (Action ScriptedVenue) :=
  opening 0 ++ [.post 0 ⟨3, ⟨0, 0⟩⟩ (.report (.available "USDTRY" (Desk.tenths "USDTRY" 320 324)))]

/-- The quote waits while its instrument is given up. -/
def givenUp : Coordinator ScriptedVenue :=
  ((rehearsed pair).run reported).after (.post 0 ⟨4, ⟨0, 0⟩⟩ (.unsubscribe "USDTRY"))

def taken : List (Action ScriptedVenue) := [.post 0 ⟨5, ⟨0, 0⟩⟩ .handle]

/-- The platform goes away and comes back. -/
def revived : List (Action ScriptedVenue) :=
  delivery 0 .disconnected ++ [.post 0 ⟨20000, ⟨0, 0⟩⟩ .retry, .post 0 ⟨20000, ⟨0, 0⟩⟩ .dial,
    .post 0 ⟨20000, ⟨0, 0⟩⟩ .handle]

theorem solicited_of_reports (h : ∀ now a, .post n now a ∈ as → ∀ p : Post σ, p.Reports a) : Solicited n c as := by
  induction as generalizing c with
  | nil => trivial
  | cons x as ih =>
    refine ⟨?_, ih fun now a ha => h now a (List.mem_cons_of_mem x ha)⟩
    rintro now a p rfl -
    exact h now a List.mem_cons_self p

theorem unsubscribe_ends_feed_revived :
    (((rehearsed pair).run reported).outcome? (.post 0 ⟨4, ⟨0, 0⟩⟩ (.unsubscribe "USDTRY"))).bind
        Post.Outcome.reply = some (.ok ()) ∧
      (∀ first r, .quote first "USDTRY" r ∉ effects 0 (givenUp.run taken) revived) ∧
      Spared "TCP" "USDTRY" (effects 0 (givenUp.run taken) revived) (givenUp.run taken).shared
        ((givenUp.run taken).run revived).shared := by
  have hdistinct : ((rehearsed pair).run reported).platforms.Nodup := by
    rw [platforms_run]
    decide
  have hsolicited : Solicited 0 givenUp (taken ++ revived) := by
    apply solicited_of_reports
    intro now a h p
    simp only [taken, revived, delivery, List.cons_append, List.nil_append, List.mem_cons, List.not_mem_nil, or_false,
      Action.post.injEq] at h
    rcases h with ⟨-, -, rfl⟩ | ⟨-, -, rfl⟩ | ⟨-, -, rfl⟩ | ⟨-, -, rfl⟩ | ⟨-, -, rfl⟩ | ⟨-, -, rfl⟩
    case inr.inl => exact nofun
    all_goals trivial
  have hreply : (((rehearsed pair).run reported).outcome? (.post 0 ⟨4, ⟨0, 0⟩⟩ (.unsubscribe "USDTRY"))).bind
      Post.Outcome.reply = some (.ok ()) := rfl
  obtain ⟨-, hfed⟩ := unsubscribe_ends_feed hdistinct rfl hreply
  exact ⟨hreply, (hfed ScriptedVenue.lawful taken revived hsolicited).2 _ rfl rfl⟩

/-- **An unsubscribe does not end a feed at once.** A quote that a venue reported for what it had subscribed, and
that waited, is handed over after the unsubscribe succeeded; it is published and stored. -/
theorem quote_after_unsubscribe :
    Solicited 0 (rehearsed pair) reported ∧
      (((rehearsed pair).run reported).outcome? (.post 0 ⟨4, ⟨0, 0⟩⟩ (.unsubscribe "USDTRY"))).bind
        Post.Outcome.reply = some (.ok ()) ∧
      effects 0 givenUp taken = [.quote true "USDTRY" (Desk.tenths "USDTRY" 320 324)] ∧
      givenUp.shared.desk.published = [] ∧
      (givenUp.run taken).shared.desk.published = [.raw "TCP" (Desk.tenths "USDTRY" 320 324)] ∧
      givenUp.shared.desk.cache.getRaw? "TCP" "USDTRY" 5 = none ∧
      (givenUp.run taken).shared.desk.cache.getRaw? "TCP" "USDTRY" 5 = some (Desk.tenths "USDTRY" 320 324) := by
  refine ⟨?_, rfl, rfl, rfl, rfl, rfl, rfl⟩
  refine ⟨?_, ?_, ?_, ?_, trivial⟩
  · rintro _ _ _ ⟨⟩ -
    trivial
  · rintro _ _ _ ⟨⟩ -
    trivial
  · rintro _ _ _ ⟨⟩ -
    trivial
  · rintro _ _ p ⟨⟩ hp q hq
    cases hq
    obtain rfl := Option.some.inj hp
    exact (ScriptedVenue.subscriptions_eq _ _).2 List.mem_cons_self

end Coordinator

end RateDesk
