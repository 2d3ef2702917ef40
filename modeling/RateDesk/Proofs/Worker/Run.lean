import RateDesk.Proofs.Worker.Move

/-!
# Runs of a worker

* `Steps` : runs of the loop of a worker under any events, commands and firings of the armed timer;
* `Sound` : what ties the timer and the attempts to the state, kept by every step;
* `run_failed_for_good` : giving up is final, and told to operators once.
-/

namespace RateDesk.Worker

variable {w w' : Worker} {now : Instant} {p : PlatformSettings} {policy : RetrySettings}

/-! ## Runs -/

/-- Whether the loop can hand over an input: the retry is due only while the timer is armed. -/
def Admits (w : Worker) : WorkerInput → Prop
  | .retryDue => w.timer ≠ none
  | _ => True

/-- A run of the loop: the inputs that are handled, each with the clock, and the effects they have. -/
inductive Steps (w : Worker) : List (Instant × WorkerInput) → List Effect → Worker → Prop where
  | refl : Steps w [] [] w
  | next {xs : List (Instant × WorkerInput)} {es : List Effect} {w' : Worker} (now : Instant) (i : WorkerInput) :
    Steps w xs es w' → w'.Admits i →
    Steps w (xs ++ [(now, i)]) (es ++ (w'.step now i).2) (w'.step now i).1

theorem Steps.trans {w₁ w₂ : Worker} {xs ys : List (Instant × WorkerInput)} {es fs : List Effect}
    (h : w.Steps xs es w₁) (h' : w₁.Steps ys fs w₂) : w.Steps (xs ++ ys) (es ++ fs) w₂ := by
  induction h' with
  | refl =>
    rw [List.append_nil, List.append_nil]
    exact h
  | next now i _ ha ih =>
    rw [← List.append_assoc, ← List.append_assoc]
    exact ih.next now i ha

/-! ## The invariant -/

/-- What holds between the steps of a worker that has begun. The timer may be armed after a connect
that nobody asked for, but never while the worker connects. -/
structure Sound (w : Worker) : Prop where
  unarmed : w.state = .connecting ∨ w.state = .failed → w.timer = none
  fresh : w.state = .connected ∨ w.state = .subscribed → w.retry.attempts = 0
  never : w.retry.limit = 0 → w.timer = none

theorem sound_begin (p : PlatformSettings) (policy : RetrySettings) : (ofSettings p policy).begin.1.Sound where
  unarmed _ := rfl
  fresh h := by rcases h with h | h <;> cases h
  never _ := rfl

/-- A worker that gives up connects, or has no attempts at all; in both cases its timer is not armed. -/
theorem Sound.unarmed_of_exhausted (h : w.Sound) (hdisconnected : w.state ≠ .disconnected)
    (hlimit : w.retry.limit ≤ w.retry.attempts) : w.timer = none := by
  cases hs : w.state with
  | disconnected => exact absurd hs hdisconnected
  | connecting => exact h.unarmed (Or.inl hs)
  | failed => exact h.unarmed (Or.inr hs)
  | connected =>
    have hfresh := h.fresh (Or.inl hs)
    exact h.never (by omega)
  | subscribed =>
    have hfresh := h.fresh (Or.inr hs)
    exact h.never (by omega)

theorem Sound.move {i : WorkerInput} {es : List Effect} (h : w.Sound) (hm : w.Move now i w' es) : w'.Sound := by
  cases hm with
  | connected _ => exact ⟨nofun, fun _ => rfl, h.never⟩
  | lost _ _ _ hlt _ => exact ⟨nofun, nofun, fun h0 => by dsimp only at h0; omega⟩
  | stranded _ _ _ hlt _ => exact ⟨nofun, nofun, h.never⟩
  -- Giving up leaves the timer as it is, so it must have been unarmed before.
  | gaveUp _ hdisconnected _ hlimit =>
    exact ⟨fun _ => h.unarmed_of_exhausted hdisconnected hlimit, nofun, h.never⟩
  | retried => exact ⟨fun _ => rfl, nofun, fun _ => rfl⟩
  | unsubscribed i => exact ⟨h.unarmed, h.fresh, h.never⟩
  | tooLate _ => exact h
  | lostBefore _ _ => exact h
  | quoted _ _ _ => exact h
  | dropped _ _ => exact h

theorem Steps.sound {xs : List (Instant × WorkerInput)} {es : List Effect} (h : w.Steps xs es w') (hw : w.Sound) :
    w'.Sound := by
  induction h with
  | refl => exact hw
  | next now i _ _ ih => exact ih.move (move_step _ now i)

/-! ## Giving up -/

/-- One for a worker that gave up. -/
def gaveUp (w : Worker) : Nat := if w.state = .failed then 1 else 0

theorem gaveUp_of_ne (h : w.state ≠ .failed) : w.gaveUp = 0 := if_neg h

/-- An alert is sent exactly by the step that gives up. -/
theorem Move.count_alert {i : WorkerInput} {es : List Effect} (hm : w.Move now i w' es) (ha : w.Admits i)
    (h : w.Sound) : w.gaveUp + es.count .alert = w'.gaveUp := by
  cases hm with
  | connected hfailed =>
    have hnone : Effect.alert ∉ .enter .connected 0 :: w.instruments.map .subscribe ++ [.enter .subscribed 0] := by
      simp
    rw [gaveUp_of_ne hfailed, List.count_eq_zero_of_not_mem hnone]
    rfl
  | lost _ _ hfailed _ _ =>
    rw [gaveUp_of_ne hfailed]
    rfl
  | stranded _ _ hfailed _ _ =>
    rw [gaveUp_of_ne hfailed]
    rfl
  | gaveUp _ _ hfailed _ =>
    rw [gaveUp_of_ne hfailed]
    rfl
  | retried =>
    have hfailed : w.state ≠ .failed := fun hf => ha (h.unarmed (Or.inr hf))
    rw [gaveUp_of_ne hfailed]
    rfl
  | unsubscribed i => rfl
  | tooLate _ => rfl
  | lostBefore _ _ => rfl
  | quoted _ _ _ => rfl
  | dropped _ _ => rfl

theorem Steps.count_alert {xs : List (Instant × WorkerInput)} {es : List Effect} (h : w.Steps xs es w')
    (hw : w.Sound) : w.gaveUp + es.count .alert = w'.gaveUp := by
  induction h with
  | refl => rfl
  | next now i hsteps ha ih =>
    have hlast := (move_step _ now i).count_alert ha (hsteps.sound hw)
    rw [List.count_append]
    omega

/-- A worker that gave up only gives instruments up. -/
theorem Move.of_failed {i : WorkerInput} {es : List Effect} (hm : w.Move now i w' es) (ha : w.Admits i)
    (hf : w.state = .failed) (ht : w.timer = none) :
    w'.state = .failed ∧ w'.timer = none ∧
      ∀ e ∈ es, (∃ x, e = .unsubscribe x) ∨ e = .refresh .failed w.retry.attempts := by
  cases hm with
  | connected hfailed => exact absurd hf hfailed
  | lost _ _ hfailed _ _ => exact absurd hf hfailed
  | stranded _ _ hfailed _ _ => exact absurd hf hfailed
  | gaveUp _ _ hfailed _ => exact absurd hf hfailed
  | quoted _ _ hfailed => exact absurd hf hfailed
  | retried => exact absurd ht ha
  | unsubscribed x => exact ⟨hf, ht, by simp [hf]⟩
  | tooLate _ => exact ⟨hf, ht, nofun⟩
  | lostBefore _ _ => exact ⟨hf, ht, nofun⟩
  | dropped _ _ => exact ⟨hf, ht, nofun⟩

theorem Steps.of_failed {xs : List (Instant × WorkerInput)} {es : List Effect} (h : w.Steps xs es w')
    (hf : w.state = .failed) (ht : w.timer = none) :
    w'.state = .failed ∧ w'.timer = none ∧ ∀ e ∈ es, (∃ x, e = .unsubscribe x) ∨ ∃ n, e = .refresh .failed n := by
  induction h with
  | refl => exact ⟨hf, ht, nofun⟩
  | next now i _ ha ih =>
    obtain ⟨hf', ht', hes⟩ := ih
    obtain ⟨hf'', ht'', hlast⟩ := (move_step _ now i).of_failed ha hf' ht'
    refine ⟨hf'', ht'', fun e he => ?_⟩
    rcases List.mem_append.1 he with he | he
    · exact hes e he
    · exact (hlast e he).imp_right fun h => ⟨_, h⟩

/-- **Giving up is final.** In every run of the loop, whatever the venue reports and in whatever order,
a worker that gave up stays so with its timer not armed, and from then on it neither connects nor
subscribes nor hands a quote to the desk; it has alerted operators once if it gave up, and never else. -/
theorem run_failed_for_good (p : PlatformSettings) (policy : RetrySettings) {xs : List (Instant × WorkerInput)}
    {es : List Effect} {w : Worker} (h : (ofSettings p policy).begin.1.Steps xs es w) :
    (w.state = .failed → w.timer = none ∧ ∀ ys fs w', w.Steps ys fs w' →
      w'.state = .failed ∧ w'.timer = none ∧ .connect ∉ fs ∧ (∀ i, .subscribe i ∉ fs) ∧
        (∀ first i r, .quote first i r ∉ fs) ∧ .alert ∉ fs) ∧
    ((ofSettings p policy).begin.2 ++ es).count .alert = if w.state = .failed then 1 else 0 := by
  have hsound := h.sound (sound_begin p policy)
  refine ⟨fun hf => ⟨hsound.unarmed (Or.inr hf), fun ys fs w' hw' => ?_⟩, ?_⟩
  · obtain ⟨hf', ht', hquiet⟩ := hw'.of_failed hf (hsound.unarmed (Or.inr hf))
    have hother : ∀ e, (∀ x, e ≠ .unsubscribe x) → (∀ n, e ≠ .refresh .failed n) → e ∉ fs := by
      intro e hunsubscribe hrefresh he
      rcases hquiet e he with ⟨x, hx⟩ | ⟨n, hn⟩
      · exact hunsubscribe x hx
      · exact hrefresh n hn
    exact ⟨hf', ht', hother _ nofun nofun, fun _ => hother _ nofun nofun, fun _ _ _ => hother _ nofun nofun,
      hother _ nofun nofun⟩
  · have hcount := h.count_alert (sound_begin p policy)
    have hbegin : (ofSettings p policy).begin.2.count .alert = 0 := rfl
    have hstart : (ofSettings p policy).begin.1.gaveUp = 0 := rfl
    rw [List.count_append, hbegin]
    unfold gaveUp at hcount hstart
    omega

def solo : PlatformSettings where
  name := "TCP"
  kind := "streaming"
  host := some "localhost"
  port := some 8081
  baseUrl := none
  username := "desk"
  password := "desk"
  instruments := ["USDTRY"]
  pollIntervalMs := PlatformSettings.defaultPollIntervalMs
  readTimeoutSecs := PlatformSettings.defaultReadTimeoutSecs
  maxPollFailures := PlatformSettings.defaultMaxPollFailures

theorem run_failed_without_attempts :
    ∃ es w, (ofSettings solo ⟨0, 10⟩).begin.1.Steps
      [(20, .event (.connected false)), (30, .unsubscribe "USDTRY"), (40, .event (.connected true))] es w ∧
      w.state = .failed ∧ w.timer = none ∧ ((ofSettings solo ⟨0, 10⟩).begin.2 ++ es).count .alert = 1 := by
  have h₁ := (Steps.refl (w := (ofSettings solo ⟨0, 10⟩).begin.1)).next 20 (.event (.connected false)) trivial
  have h₂ := h₁.next 30 (.unsubscribe "USDTRY") trivial
  have h₃ := h₂.next 40 (.event (.connected true)) trivial
  obtain ⟨hfinal, hcount⟩ := run_failed_for_good solo ⟨0, 10⟩ h₃
  exact ⟨_, _, h₃, rfl, (hfinal rfl).1, hcount.trans (if_pos rfl)⟩

end RateDesk.Worker
