import RateDesk.Proofs.Coordinator.Run

/-!
# The schedule of a coordinator is one of its runs

A coordinator lets its posts take their turns in an order of its own. Whatever holds of all runs holds of it.

* `Post.deeds` : one deed of a post after the other;
* `turn?_deed`, `settle_deeds` : the turns of a post are deeds;
* `Coordinator.Leads` : what a run can reach, whatever the clock shows;
* `leads_eachPost` : posts that do their deeds in turn make a run;
* `every_call_is_a_run` : so does whatever a coordinator is told to do.
-/

namespace RateDesk

namespace Post

variable {σ : Type} [Venue σ] {d : Derivation} {now : Now} {p p' : Post σ} {s s' : Shared}

def deeds (d : Derivation) : List (Now × Deed σ) → Post σ → Shared → Post σ × Shared
  | [], p, s => (p, s)
  | (now, a) :: as, p, s => deeds d as (p.deed d now s a).post (p.deed d now s a).shared

/-- A turn of a post is a deed. -/
theorem turn?_deed (h : turn? d now p s = some (p', s')) :
    ∃ a, (p.deed d now s a).post = p' ∧ (p.deed d now s a).shared = s' := by
  unfold turn? at h
  split at h
  · rename_i e r hphase hinbox
    obtain ⟨rfl, rfl⟩ := Prod.mk.inj (Option.some.inj h)
    exact ⟨.handle, by simp [deed, hphase, hinbox], by simp [deed, hphase, hinbox]⟩
  · split at h
    · rename_i hdialing
      obtain ⟨rfl, rfl⟩ := Prod.mk.inj (Option.some.inj h)
      exact ⟨.dial, by rw [deed, if_pos hdialing]; rfl, by rw [deed, if_pos hdialing]; rfl⟩
    · split at h
      · rename_i hdue
        obtain ⟨rfl, rfl⟩ := Prod.mk.inj (Option.some.inj h)
        exact ⟨.retry, by rw [deed, if_pos hdue], by rw [deed, if_pos hdue]⟩
      · cases h

theorem settle_deeds (fuel : Nat) (p : Post σ) (s : Shared) : ∃ as, settle d now fuel p s = deeds d as p s := by
  induction fuel generalizing p s with
  | zero => exact ⟨[], rfl⟩
  | succ fuel ih =>
    unfold settle
    cases hturn : turn? d now p s with
    | none => exact ⟨[], rfl⟩
    | some next =>
      obtain ⟨a, hpost, hshared⟩ := turn?_deed hturn
      obtain ⟨as, has⟩ := ih next.1 next.2
      refine ⟨(now, a) :: as, ?_⟩
      rw [deeds, hpost, hshared]
      exact has

theorem push_deeds (d : Derivation) (now : Now) (p : Post σ) (s : Shared) (es : List VenueEvent) :
    ∃ as, (p.push es, s) = deeds d as p s := by
  induction es generalizing p with
  | nil =>
    refine ⟨[], ?_⟩
    unfold push deeds
    split <;> simp
  | cons e es ih =>
    obtain ⟨as, has⟩ := ih (p.push [e])
    refine ⟨(now, .report e) :: as, Eq.trans ?_ has⟩
    unfold push
    split <;> simp [*]

end Post

namespace Coordinator

variable {σ : Type} [Venue σ] {c c' c'' : Coordinator σ} {n : Nat} {p : Post σ}

/-! ## Reaching -/

/-- A run leads from `c` to `c'`, up to the clock and to whether the coordinator is open. -/
def Leads (c c' : Coordinator σ) : Prop :=
  ∃ as clock isOpen, c' = { c.run as with clock := clock, isOpen := isOpen }

theorem run_with (c : Coordinator σ) (clock : Instant) (isOpen : Bool) (as : List (Action σ)) :
    ({ c with clock := clock, isOpen := isOpen } : Coordinator σ).run as =
      { c.run as with clock := clock, isOpen := isOpen } := by
  induction as generalizing c with
  | nil => rfl
  | cons x as ih =>
    have hafter : ({ c with clock := clock, isOpen := isOpen } : Coordinator σ).after x =
        { c.after x with clock := clock, isOpen := isOpen } := by
      cases x with
      | sweep now => rfl
      | post n now a =>
        simp only [after]
        split <;> rfl
    show (({ c with clock := clock, isOpen := isOpen } : Coordinator σ).after x).run as = _
    rw [hafter, ih]
    rfl

theorem Leads.refl (c : Coordinator σ) (clock : Instant) (isOpen : Bool) :
    c.Leads { c with clock := clock, isOpen := isOpen } :=
  ⟨[], clock, isOpen, rfl⟩

theorem Leads.trans (h : c.Leads c') (h' : c'.Leads c'') : c.Leads c'' := by
  obtain ⟨as, clock, isOpen, rfl⟩ := h
  obtain ⟨bs, clock', isOpen', rfl⟩ := h'
  refine ⟨as ++ bs, clock', isOpen', ?_⟩
  rw [run_with, run_append]

/-! ## All posts in turn -/

theorem run_deeds (hp : c.posts[n]? = some p) (as : List (Now × Deed σ)) :
    ∃ xs, c.run xs =
      { c with
        posts := c.posts.set n (Post.deeds c.derivation as p c.shared).1
        shared := (Post.deeds c.derivation as p c.shared).2 } := by
  induction as generalizing c p with
  | nil =>
    refine ⟨[], ?_⟩
    obtain ⟨hn, rfl⟩ := List.getElem?_eq_some_iff.1 hp
    simp [run, Post.deeds]
  | cons x as ih =>
    obtain ⟨now, a⟩ := x
    obtain ⟨xs, hxs⟩ := ih (posts_after hp now a)
    refine ⟨.post n now a :: xs, hxs.trans ?_⟩
    simp [after_post hp, Post.deeds]

theorem run_foldl {f : Post σ → Shared → Post σ × Shared} (todo : List (Post σ)) {done : List (Post σ)}
    (hf : ∀ p s, ∃ as, f p s = Post.deeds c.derivation as p s) (hc : c.posts = done ++ todo) :
    ∃ xs, c.run xs =
      { c with
        posts := (todo.foldl (fun (ps, s) p => let (p, s) := f p s; (ps ++ [p], s)) (done, c.shared)).1
        shared := (todo.foldl (fun (ps, s) p => let (p, s) := f p s; (ps ++ [p], s)) (done, c.shared)).2 } := by
  -- `done` have had their turn; the run so far led to a coordinator in which `todo` are as they were
  induction todo generalizing c done with
  | nil =>
    refine ⟨[], ?_⟩
    rw [List.append_nil] at hc
    simp [run, ← hc]
  | cons p todo ih =>
    have hp : c.posts[done.length]? = some p := by simp [hc]
    obtain ⟨as, has⟩ := hf p c.shared
    obtain ⟨xs, hxs⟩ := run_deeds hp as
    have hnext : (c.run xs).posts = (done ++ [(f p c.shared).1]) ++ todo := by
      rw [hxs, hc, has]
      simp
    have hderivation : (c.run xs).derivation = c.derivation := by rw [hxs]
    obtain ⟨ys, hys⟩ := ih (hderivation ▸ hf) hnext
    refine ⟨xs ++ ys, ?_⟩
    rw [run_append, hys]
    simp [hxs, has]

/-- Posts that do their deeds in turn make a run. -/
theorem leads_eachPost {f : Post σ → Shared → Post σ × Shared}
    (hf : ∀ p s, ∃ as, f p s = Post.deeds c.derivation as p s) : c.Leads (c.eachPost f) := by
  obtain ⟨xs, hxs⟩ := run_foldl c.posts hf (List.nil_append _).symm
  refine ⟨xs, c.clock, c.isOpen, ?_⟩
  rw [hxs]
  rfl

theorem leads_settle (c : Coordinator σ) (time : Timestamp) : c.Leads (c.settle time) :=
  leads_eachPost fun p s => Post.settle_deeds _ p s

theorem leads_start (c : Coordinator σ) (time : Timestamp) : c.Leads (c.start time) := by
  have hbegin : c.Leads (c.eachPost fun p s =>
      let o := Post.begin c.derivation (c.now time) p s
      (o.post, o.shared)) :=
    leads_eachPost fun p s => ⟨[(c.now time, .begin)], rfl⟩
  exact (hbegin.trans (.refl _ _ true)).trans (leads_settle _ time)

omit [Venue σ] in
theorem eachPost_eq_map (c : Coordinator σ) (g : Post σ → Post σ) :
    c.eachPost (fun p s => (g p, s)) = { c with posts := c.posts.map g } := by
  have hfoldl (ps done : List (Post σ)) (s : Shared) :
      ps.foldl (fun (ps, s) p => (ps ++ [g p], s)) (done, s) = (done ++ ps.map g, s) := by
    induction ps generalizing done with
    | nil => simp
    | cons p ps ih => simp [ih]
  unfold eachPost
  dsimp only
  rw [hfoldl]
  rfl

theorem leads_deliver (c : Coordinator σ) (time : Timestamp) (platform : String) (es : List VenueEvent) :
    c.Leads (c.deliver time platform es) := by
  have hpush : c.Leads
      { c with posts := c.posts.map fun p => if p.worker.platform = platform then p.push es else p } := by
    rw [← eachPost_eq_map]
    apply leads_eachPost
    intro p s
    split
    · exact Post.push_deeds c.derivation (c.now time) p s es
    · exact ⟨[], rfl⟩
  exact hpush.trans (leads_settle _ time)

theorem leads_shutdown (c : Coordinator σ) : c.Leads c.shutdown := by
  have hstop : c.Leads { c with posts := c.posts.map Post.stop } := by
    rw [← eachPost_eq_map]
    exact leads_eachPost fun p s => ⟨[(⟨c.clock, ⟨0, 0⟩⟩, .stop)], rfl⟩
  exact hstop.trans (.refl _ _ false)

/-! ## Commands and time -/

/-- A command reaches the first post of its platform. -/
theorem actOn_eq (d : Derivation) (now : Now) (platform i : String) (s : Shared) (ps : List (Post σ)) :
    (∃ n p, ps[n]? = some p ∧
      (actOn d now platform (.unsubscribe i) s ps).1 = ps.set n (p.deed d now s (.unsubscribe i)).post ∧
      (actOn d now platform (.unsubscribe i) s ps).2.1 = (p.deed d now s (.unsubscribe i)).shared) ∨
    (actOn d now platform (.unsubscribe i) s ps).1 = ps ∧ (actOn d now platform (.unsubscribe i) s ps).2.1 = s := by
  induction ps with
  | nil => exact Or.inr ⟨rfl, rfl⟩
  | cons p ps ih =>
    by_cases hname : p.worker.platform = platform
    · refine Or.inl ⟨0, p, rfl, ?_, ?_⟩
      · simp [actOn, hname, Post.deed]
      · simp [actOn, hname, Post.deed]
    · simp only [actOn, if_neg hname]
      rcases ih with ⟨n, q, hq, hposts, hshared⟩ | ⟨hposts, hshared⟩
      · exact Or.inl ⟨n + 1, q, hq, by simp [hposts], hshared⟩
      · exact Or.inr ⟨by rw [hposts], hshared⟩

theorem leads_unsubscribe (c : Coordinator σ) (time : Timestamp) (platform instrument : String) :
    c.Leads (c.unsubscribe time platform instrument).2 := by
  have hcommand : c.Leads
      { c with
        posts := (actOn c.derivation (c.now time) platform (.unsubscribe instrument) c.shared c.posts).1
        shared := (actOn c.derivation (c.now time) platform (.unsubscribe instrument) c.shared c.posts).2.1 } := by
    rcases actOn_eq c.derivation (c.now time) platform instrument c.shared c.posts with
      ⟨n, p, hp, hposts, hshared⟩ | ⟨hposts, hshared⟩
    · refine ⟨[.post n (c.now time) (.unsubscribe instrument)], c.clock, c.isOpen, ?_⟩
      have hrun (x : Action σ) : c.run [x] = c.after x := rfl
      rw [hposts, hshared, hrun, after_post hp]
    · rw [hposts, hshared]
      exact .refl c c.clock c.isOpen
  exact hcommand.trans (leads_settle _ time)

theorem leads_advanceTo (time : Timestamp) (target : Instant) (fuel : Nat) (c : Coordinator σ) :
    c.Leads (advanceTo time target fuel c) := by
  induction fuel generalizing c with
  | zero => exact .refl c target c.isOpen
  | succ fuel ih =>
    unfold advanceTo
    split
    · exact ((Leads.refl c _ c.isOpen).trans (leads_settle _ time)).trans (ih _)
    · exact .refl c target c.isOpen

/-- **Whatever a coordinator is told to do is a run.** The order in which it lets its posts take their turns, and
in which it stops for the retries that are due, is one of those in which their deeds can happen. -/
theorem every_call_is_a_run (c : Coordinator σ) (time : Timestamp) :
    c.Leads (c.start time) ∧ (∀ platform es, c.Leads (c.deliver time platform es)) ∧
      (∀ platform instrument, c.Leads (c.unsubscribe time platform instrument).2) ∧
      (∀ ms, c.Leads (c.advance time ms)) ∧ c.Leads c.shutdown :=
  ⟨leads_start c time, leads_deliver c time, leads_unsubscribe c time,
    fun ms => (leads_advanceTo time (c.clock + ms) maxTurns c).trans (leads_settle _ time), leads_shutdown c⟩

end Coordinator

end RateDesk
