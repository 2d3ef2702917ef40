import RateDesk.Proofs.Worker.Run

/-!
# How often a worker connects

Every connect but the first is paid for by an attempt, and a success gives all attempts back.

* `Vain` : the connects of a worker that never succeeded;
* `Spent` : attempts, connects and successes in balance; kept by every move (`Spent.move`) and so along
  every run (`Steps.spent`);
* `Move.fits`, `Steps.fits` : what is shown of the attempts;
* `run_connects` : the bounds for a whole run.
-/

namespace RateDesk

/-- The state and the attempts that an effect shows. -/
def Effect.shown? : Effect → Option (PlatformState × Nat)
  | .enter s n => some (s, n)
  | .refresh s n => some (s, n)
  | _ => none

namespace Worker

variable {w w' : Worker} {now : Instant} {i : WorkerInput} {es : List Effect} {n k : Nat}

/-! ## The balance -/

/-- One for a worker whose timer is armed. -/
def armed (w : Worker) : Nat := if w.timer = none then 0 else 1

theorem armed_of_ne (h : w.timer ≠ none) : w.armed = 1 := if_neg h

/-- One for the news of a connect that succeeded. -/
def success (i : WorkerInput) : Nat := if i = .event (.connected true) then 1 else 0

/-- A worker that began `n` connects, none of which succeeded. -/
structure Vain (w : Worker) (n : Nat) : Prop where
  down : w.state ≠ .connected ∧ w.state ≠ .subscribed
  connecting : w.state = .connecting → n = w.retry.attempts + 1
  /-- The connect that the timer is armed for is paid already. -/
  waiting : w.state = .disconnected → w.timer ≠ none → n = w.retry.attempts
  failed : w.state = .failed → n = w.retry.limit + 1

/-- A worker that began `n` connects and heard of `k` successes. -/
structure Spent (w : Worker) (n k : Nat) : Prop where
  attempts_le : w.retry.attempts ≤ w.retry.limit
  connects_le : n + w.armed ≤ 1 + w.retry.limit * k + w.retry.attempts
  vain : k = 0 → w.Vain n

theorem spent_begin (p : PlatformSettings) (policy : RetrySettings) : (ofSettings p policy).begin.1.Spent 1 0 where
  attempts_le := Nat.zero_le _
  connects_le := Nat.le_refl _
  vain _ := ⟨⟨nofun, nofun⟩, fun _ => rfl, nofun, nofun⟩

/-! ## Without a success -/

theorem Vain.connecting_of_ne (h : w.Vain n) (hdisconnected : w.state ≠ .disconnected) (hfailed : w.state ≠ .failed) :
    w.state = .connecting := by
  cases hs : w.state with
  | disconnected => exact absurd hs hdisconnected
  | connecting => rfl
  | connected => exact absurd hs h.down.1
  | subscribed => exact absurd hs h.down.2
  | failed => exact absurd hs hfailed

theorem Vain.disconnected_of_armed (h : w.Vain n) (hs : w.Sound) (ht : w.timer ≠ none) : w.state = .disconnected := by
  cases hst : w.state with
  | disconnected => rfl
  | connecting => exact absurd (hs.unarmed (Or.inl hst)) ht
  | connected => exact absurd hst h.down.1
  | subscribed => exact absurd hst h.down.2
  | failed => exact absurd (hs.unarmed (Or.inr hst)) ht

theorem Vain.move (h : w.Vain n) (hs : w.Sound) (hle : w.retry.attempts ≤ w.retry.limit) (hm : w.Move now i w' es)
    (ha : w.Admits i) (hi : success i = 0) : w'.Vain (n + es.count .connect) := by
  rw [hm.count_connect]
  cases hm with
  | connected _ => cases hi
  | tooLate _ => cases hi
  | lost _ hdisconnected hfailed _ _ =>
    have hn := h.connecting (h.connecting_of_ne hdisconnected hfailed)
    exact ⟨⟨nofun, nofun⟩, nofun, fun _ _ => hn, nofun⟩
  | stranded _ hdisconnected hfailed _ _ =>
    have hunarmed := hs.unarmed (Or.inl (h.connecting_of_ne hdisconnected hfailed))
    exact ⟨⟨nofun, nofun⟩, nofun, fun _ hne => absurd hunarmed hne, nofun⟩
  | gaveUp _ hdisconnected hfailed hlimit =>
    have hn := h.connecting (h.connecting_of_ne hdisconnected hfailed)
    have hfull : w.retry.attempts = w.retry.limit := Nat.le_antisymm hle hlimit
    exact ⟨⟨nofun, nofun⟩, nofun, nofun, fun _ => hn.trans (congrArg (· + 1) hfull)⟩
  | retried =>
    have hn := h.waiting (h.disconnected_of_armed hs ha) ha
    exact ⟨⟨nofun, nofun⟩, fun _ => congrArg (· + 1) hn, nofun, nofun⟩
  | unsubscribed i => exact ⟨h.down, h.connecting, h.waiting, h.failed⟩
  | lostBefore _ _ => exact h
  | quoted _ _ _ => exact h
  | dropped _ _ => exact h

/-! ## Moves and runs -/

theorem Move.limit_eq (hm : w.Move now i w' es) : w'.retry.limit = w.retry.limit := by
  rw [hm.retry_eq]

/-- A move begins no more connects than it pays for with attempts, its own or those that a success gives back. -/
theorem Spent.connects_move (h : w.Spent n k) (hm : w.Move now i w' es) (ha : w.Admits i) :
    n + es.count .connect + w'.armed ≤ 1 + w.retry.limit * (k + success i) + w'.retry.attempts := by
  have hle := h.attempts_le
  have hpaid := h.connects_le
  have hgrows : w.retry.limit * k ≤ w.retry.limit * (k + success i) := Nat.mul_le_mul_left _ (Nat.le_add_right k _)
  rw [hm.count_connect]
  cases hm with
  | connected _ =>
    show n + 0 + w.armed ≤ 1 + w.retry.limit * (k + 1) + 0
    rw [Nat.mul_succ]
    omega
  | lost _ _ _ _ _ =>
    show n + 0 + 1 ≤ _ + (w.retry.attempts + 1)
    omega
  | stranded _ _ _ _ _ =>
    show n + 0 + w.armed ≤ _ + (w.retry.attempts + 1)
    omega
  | retried =>
    rw [armed_of_ne ha] at hpaid
    show n + 1 + 0 ≤ _ + w.retry.attempts
    omega
  | unsubscribed i => exact hpaid
  | gaveUp _ _ _ _ => exact Nat.le_trans hpaid (Nat.add_le_add_right (Nat.add_le_add_left hgrows 1) _)
  | tooLate _ => exact Nat.le_trans hpaid (Nat.add_le_add_right (Nat.add_le_add_left hgrows 1) _)
  | lostBefore _ _ => exact Nat.le_trans hpaid (Nat.add_le_add_right (Nat.add_le_add_left hgrows 1) _)
  | quoted _ _ _ => exact Nat.le_trans hpaid (Nat.add_le_add_right (Nat.add_le_add_left hgrows 1) _)
  | dropped _ _ => exact Nat.le_trans hpaid (Nat.add_le_add_right (Nat.add_le_add_left hgrows 1) _)

theorem Spent.attempts_move (h : w.Spent n k) (hm : w.Move now i w' es) : w'.retry.attempts ≤ w.retry.limit := by
  have hle := h.attempts_le
  cases hm with
  | connected _ => exact Nat.zero_le _
  | lost _ _ _ hlt _ => exact hlt
  | stranded _ _ _ hlt _ => exact hlt
  | gaveUp _ _ _ _ => exact hle
  | retried => exact hle
  | unsubscribed i => exact hle
  | tooLate _ => exact hle
  | lostBefore _ _ => exact hle
  | quoted _ _ _ => exact hle
  | dropped _ _ => exact hle

theorem Spent.move (h : w.Spent n k) (hs : w.Sound) (hm : w.Move now i w' es) (ha : w.Admits i) :
    w'.Spent (n + es.count .connect) (k + success i) where
  attempts_le := hm.limit_eq ▸ h.attempts_move hm
  connects_le := hm.limit_eq ▸ h.connects_move hm ha
  vain h0 := (h.vain (by omega)).move hs h.attempts_le hm ha (by omega)

/-- The successes that a worker heard of. -/
def successes (xs : List (Instant × WorkerInput)) : Nat := xs.countP fun x => x.2 = .event (.connected true)

theorem successes_append (xs : List (Instant × WorkerInput)) (now : Instant) (i : WorkerInput) :
    successes (xs ++ [(now, i)]) = successes xs + success i := by
  unfold successes success
  rw [List.countP_append, List.countP_singleton]
  simp only [decide_eq_true_eq]

theorem Steps.spent {xs : List (Instant × WorkerInput)} (h : w.Steps xs es w') (hs : w.Sound) (hw : w.Spent n k) :
    w'.Spent (n + es.count .connect) (k + successes xs) := by
  induction h with
  | refl => exact hw
  | next now i hsteps ha ih =>
    rw [List.count_append, successes_append, ← Nat.add_assoc, ← Nat.add_assoc]
    exact ih.move (hsteps.sound hs) (move_step _ now i) ha

theorem Steps.limit_eq {xs : List (Instant × WorkerInput)} (h : w.Steps xs es w') : w'.retry.limit = w.retry.limit := by
  induction h with
  | refl => rfl
  | next now i _ _ ih => exact (move_step _ now i).limit_eq.trans ih

/-! ## What is shown -/

/-- A number of attempts up to a limit, and none with a connection. -/
def Fits (limit : Nat) (x : PlatformState × Nat) : Prop :=
  x.2 ≤ limit ∧ (x.1 = .connected ∨ x.1 = .subscribed → x.2 = 0)

theorem fits_zero (limit : Nat) (s : PlatformState) : Fits limit (s, 0) := ⟨Nat.zero_le _, fun _ => rfl⟩

theorem Spent.fits (h : w.Spent n k) (hs : w.Sound) : Fits w.retry.limit (w.state, w.retry.attempts) :=
  ⟨h.attempts_le, hs.fresh⟩

theorem Move.fits (hm : w.Move now i w' es) (hw : Fits w.retry.limit (w.state, w.retry.attempts)) :
    ∀ x ∈ es.filterMap Effect.shown?, Fits w.retry.limit x := by
  cases hm with
  | connected _ =>
    have hquiet : (w.instruments.map Effect.subscribe).filterMap Effect.shown? = [] := by
      simp [Effect.shown?, List.filterMap_map]
    simp [Effect.shown?, hquiet, fits_zero]
  | lost _ _ _ hlt _ =>
    have hfits : Fits w.retry.limit (.disconnected, w.retry.attempts + 1) := ⟨hlt, nofun⟩
    simpa [Effect.shown?] using hfits
  | stranded _ _ _ hlt _ =>
    have hfits : Fits w.retry.limit (.disconnected, w.retry.attempts + 1) := ⟨hlt, nofun⟩
    simpa [Effect.shown?] using hfits
  | gaveUp _ _ _ _ =>
    have hfits : Fits w.retry.limit (.failed, w.retry.attempts) := ⟨hw.1, nofun⟩
    simpa [Effect.shown?] using hfits
  | retried =>
    have hfits : Fits w.retry.limit (.connecting, w.retry.attempts) := ⟨hw.1, nofun⟩
    simpa [Effect.shown?] using hfits
  | unsubscribed i => simpa [Effect.shown?] using hw
  | quoted _ _ _ => simp [Effect.shown?]
  | tooLate _ => nofun
  | lostBefore _ _ => nofun
  | dropped _ _ => nofun

theorem Steps.fits {xs : List (Instant × WorkerInput)} (h : w.Steps xs es w') (hs : w.Sound) (hw : w.Spent n k) :
    ∀ x ∈ es.filterMap Effect.shown?, Fits w.retry.limit x := by
  induction h with
  | refl => nofun
  | next now i hsteps _ ih =>
    have hfits := (hsteps.spent hs hw).fits (hsteps.sound hs)
    intro x hx
    rw [List.filterMap_append] at hx
    rcases List.mem_append.1 hx with hx | hx
    · exact ih x hx
    · rw [← hsteps.limit_eq]
      exact (move_step _ now i).fits hfits x hx

/-! ## The bounds -/

/-- A worker that waits takes no notice of further losses. -/
theorem step_of_waiting (hw : w.state = .disconnected) {e : VenueEvent} (he : e.isLoss = true) (now : Instant) :
    w.step now (.event e) = (w, []) := by
  have hlost : w.onLost now = (w, []) := if_pos (Or.inl hw)
  cases e with
  | connected ok =>
    cases ok with
    | true => cases he
    | false => exact hlost
  | disconnected => exact hlost
  | available i r => cases he
  | update i r => cases he

/-- **A worker connects once, and then once for each attempt.** In every run of the loop, whatever the
venue reports and in whatever order, the attempts stay within the limit, and there are none of them with
a connection, in the worker and in all that it shows. Connects are at most one more than the limit, and
as many as the limit again for each success; a worker that gave up without any success began exactly one
more than the limit. Losses that are reported to a worker that waits change nothing. -/
theorem run_connects (p : PlatformSettings) (policy : RetrySettings) {xs : List (Instant × WorkerInput)}
    {es : List Effect} {w : Worker} (h : (ofSettings p policy).begin.1.Steps xs es w) :
    let effects := (ofSettings p policy).begin.2 ++ es
    let limit := policy.limit.toNat
    (w.retry.attempts ≤ limit ∧ (w.state = .connected ∨ w.state = .subscribed → w.retry.attempts = 0)) ∧
    (∀ x ∈ effects.filterMap Effect.shown?, x.2 ≤ limit ∧ (x.1 = .connected ∨ x.1 = .subscribed → x.2 = 0)) ∧
    effects.count .connect ≤ 1 + limit * (1 + successes xs) ∧
    (w.state = .failed → successes xs = 0 → effects.count .connect = limit + 1) ∧
    ∀ now e, e.isLoss = true → w.state = .disconnected → w.step now (.event e) = (w, []) := by
  intro effects limit
  have hsound := sound_begin p policy
  have hlimit : w.retry.limit = limit := h.limit_eq
  have hspent := h.spent hsound (spent_begin p policy)
  have hcount : effects.count .connect = 1 + es.count .connect := List.count_append
  rw [Nat.zero_add] at hspent
  refine ⟨hlimit ▸ hspent.fits (h.sound hsound), fun x hx => ?_, ?_, fun hf h0 => ?_, fun now e he hw =>
    step_of_waiting hw he now⟩
  · rw [List.filterMap_append] at hx
    rcases List.mem_append.1 hx with hx | hx
    · rw [List.mem_singleton.1 hx]
      exact fits_zero limit .connecting
    · exact h.fits hsound (spent_begin p policy) x hx
  · have hpaid := hspent.connects_le
    have hle := hspent.attempts_le
    rw [hlimit] at hpaid hle
    rw [hcount, Nat.mul_add, Nat.mul_one]
    omega
  · rw [hcount, (hspent.vain h0).failed hf, hlimit]

theorem run_connects_refused :
    ∃ es w, (ofSettings solo ⟨1, 10⟩).begin.1.Steps
      [(20, .event (.connected false)), (25, .event .disconnected), (10020, .retryDue),
        (10030, .event (.connected false))] es w ∧
      w.state = .failed ∧ ((ofSettings solo ⟨1, 10⟩).begin.2 ++ es).count .connect = 2 := by
  have h₁ := (Steps.refl (w := (ofSettings solo ⟨1, 10⟩).begin.1)).next 20 (.event (.connected false)) trivial
  have h₂ := h₁.next 25 (.event .disconnected) trivial
  have h₃ := h₂.next 10020 .retryDue nofun
  have h₄ := h₃.next 10030 (.event (.connected false)) trivial
  exact ⟨_, _, h₄, rfl, (run_connects solo ⟨1, 10⟩ h₄).2.2.2.1 rfl (by decide)⟩

end Worker

end RateDesk
