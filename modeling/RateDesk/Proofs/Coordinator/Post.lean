import RateDesk.Coordinator
import RateDesk.Proofs.Worker.Run

/-!
# What a post does with its worker

* `Post.Leaves` : what neither effects nor the events of a venue change;
* `Venue.subscribeAll`, `Post.performAll_subscribes` : subscribing is carried through, whatever the venue answers;
* `Post.act_worker`, `Post.turn?_worker` : a post lets its worker step, and only as its loop admits;
* `Post.settle_steps` : as many turns as a post takes, they are a run of its worker.
-/

namespace RateDesk

def Venue.subscribeAll {σ : Type} [Venue σ] (is : List String) (v : σ) : σ :=
  is.foldl (fun v i => (Venue.subscribe i v).2) v

namespace Post

variable {σ : Type} {d : Derivation} {now : Now} {p p' p'' : Post σ} {s s' : Shared}

/-- The worker, its phase and what waits for it are the same. -/
structure Leaves (p p' : Post σ) : Prop where
  worker : p'.worker = p.worker
  phase : p'.phase = p.phase
  inbox : p'.inbox = p.inbox

theorem Leaves.refl (p : Post σ) : p.Leaves p := ⟨rfl, rfl, rfl⟩

theorem Leaves.trans (h : p.Leaves p') (h' : p'.Leaves p'') : p.Leaves p'' :=
  ⟨h'.worker.trans h.worker, h'.phase.trans h.phase, h'.inbox.trans h.inbox⟩

theorem push_worker (p : Post σ) (es : List VenueEvent) : (p.push es).worker = p.worker := by
  unfold push
  split <;> rfl

variable [Venue σ]

theorem leaves_perform (d : Derivation) (now : Now) (p : Post σ) (s : Shared) (e : Effect) :
    p.Leaves (perform d now p s e).post := by
  cases e <;> exact ⟨rfl, rfl, rfl⟩

theorem leaves_performAll (d : Derivation) (now : Now) (p : Post σ) (s : Shared) (es : List Effect) :
    p.Leaves (performAll d now p s es).post := by
  induction es generalizing p s with
  | nil => exact Leaves.refl p
  | cons e es ih =>
    have hfirst := leaves_perform d now p s e
    unfold performAll
    dsimp only
    split
    · exact hfirst
    · exact hfirst.trans (ih _ _)

theorem apply_worker (d : Derivation) (now : Now) (p : Post σ) (s : Shared) (decision : Worker × List Effect) :
    (apply d now p s decision).post.worker = decision.1 := by
  have hleaves := leaves_performAll d now { p with worker := decision.1 } s decision.2
  unfold apply
  dsimp only
  split <;> exact hleaves.worker

/-- Subscribing instruments one after the other is what it does to the venue, whatever the venue answers. -/
theorem performAll_subscribes (d : Derivation) (now : Now) (p : Post σ) (s : Shared) (is : List String)
    (es : List Effect) :
    performAll d now p s (is.map .subscribe ++ es) =
      performAll d now { p with venue := Venue.subscribeAll is p.venue } s es := by
  induction is generalizing p with
  | nil => rfl
  | cons i is ih => exact ih { p with venue := (Venue.subscribe i p.venue).2 }

/-- A post that runs lets its worker step, whatever faults the effects have. -/
theorem act_worker (h : p.phase = .running) (i : WorkerInput) :
    (p.act d now s i).post.worker = (p.worker.step now.instant i).1 := by
  rw [act, if_pos h]
  exact apply_worker d now p s _

/-- A turn lets the worker alone, or hands it an input that its loop admits. -/
theorem turn?_worker (h : turn? d now p s = some (p', s')) :
    p'.worker = p.worker ∨ ∃ i, p.worker.Admits i ∧ p'.worker = (p.worker.step now.instant i).1 := by
  unfold turn? at h
  split at h
  · rename_i e r hphase _
    obtain ⟨rfl, -⟩ := Prod.mk.inj (Option.some.inj h)
    exact Or.inr ⟨.event e, trivial, act_worker (p := { p with inbox := r }) hphase _⟩
  · split at h
    · obtain ⟨rfl, -⟩ := Prod.mk.inj (Option.some.inj h)
      exact Or.inl (push_worker _ _)
    · split at h
      · rename_i hdue
        obtain ⟨rfl, -⟩ := Prod.mk.inj (Option.some.inj h)
        refine Or.inr ⟨.retryDue, fun hnone => ?_, act_worker hdue.1 _⟩
        rw [hnone] at hdue
        cases hdue.2
      · cases h

/-- The turns of a post are a run of its worker. -/
theorem settle_steps (fuel : Nat) (p : Post σ) (s : Shared) :
    ∃ xs es, p.worker.Steps xs es (settle d now fuel p s).1.worker := by
  induction fuel generalizing p s with
  | zero => exact ⟨[], [], .refl⟩
  | succ fuel ih =>
    unfold settle
    cases hturn : turn? d now p s with
    | none => exact ⟨[], [], .refl⟩
    | some next =>
      obtain ⟨p', s'⟩ := next
      obtain ⟨xs, es, hrest⟩ := ih p' s'
      rcases turn?_worker hturn with hsame | ⟨i, hi, hstep⟩
      · exact ⟨xs, es, hsame ▸ hrest⟩
      · have hfirst := Worker.Steps.refl.next now.instant i hi
        rw [hstep] at hrest
        exact ⟨_, _, hfirst.trans hrest⟩

end Post

end RateDesk
