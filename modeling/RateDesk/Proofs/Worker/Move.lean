import RateDesk.Platform.Worker
import RateDesk.Proofs.Time.Deadline

/-!
# What one input can do to a worker

* `VenueEvent.isLoss`, `VenueEvent.quote?`, `VenueEvent.AreQuotes` : the events that are handled alike;
* `Move` : everything that a worker can make of an input, guards included; `move_step` says that the
  step of a worker is one of these moves;
* `Move.of_connected`, `Move.of_quote`, `Move.of_loss` : what is left of them for a single event;
* `Move.halts_iff` : the losses that stop a worker.
-/

namespace RateDesk

namespace VenueEvent

/-- Whether an event says that there is no connection: it failed, or it was lost. -/
def isLoss : VenueEvent → Bool
  | connected ok => !ok
  | disconnected => true
  | _ => false

/-- The quote that an event brings, and whether it is the first for its instrument. -/
def quote? : VenueEvent → Option (Bool × String × Rate)
  | available i r => some (true, i, r)
  | update i r => some (false, i, r)
  | _ => none

theorem quote?_eq_none_of_isLoss {e : VenueEvent} (h : e.isLoss = true) : e.quote? = none := by
  cases e with
  | connected ok => rfl
  | disconnected => rfl
  | available i r => cases h
  | update i r => cases h

def AreQuotes (es : List VenueEvent) : Prop := ∀ e ∈ es, e.quote? ≠ none

theorem AreQuotes.nil : AreQuotes [] := nofun

theorem AreQuotes.snoc {es : List VenueEvent} {e : VenueEvent} (h : AreQuotes es) (he : e.quote? ≠ none) :
    AreQuotes (es ++ [e]) := by
  intro x hx
  rcases List.mem_append.1 hx with hx | hx
  · exact h x hx
  · rw [List.mem_singleton.1 hx]
    exact he

theorem AreQuotes.tail {es : List VenueEvent} {e : VenueEvent} (h : AreQuotes (e :: es)) : AreQuotes es :=
  fun x hx => h x (List.mem_cons_of_mem e hx)

end VenueEvent

/-- Whether an effect stops the worker with a fault. -/
def Effect.isHalt : Effect → Bool
  | .halt _ => true
  | _ => false

namespace Worker

/-- The retry state once another attempt was counted. -/
abbrev retried (w : Worker) : RetryState := { w.retry with attempts := w.retry.attempts + 1 }

/-- What a worker can make of an input. -/
inductive Move (w : Worker) (now : Instant) : WorkerInput → Worker → List Effect → Prop where
  | connected : w.state ≠ .failed →
    Move w now (.event (.connected true)) { w with state := .subscribed, retry := w.retry.reset }
      (.enter .connected 0 :: w.instruments.map .subscribe ++ [.enter .subscribed 0])
  | tooLate : w.state = .failed → Move w now (.event (.connected true)) w []
  | lost {e : VenueEvent} {due : Instant} : e.isLoss = true → w.state ≠ .disconnected → w.state ≠ .failed →
    w.retry.attempts < w.retry.limit → now.after w.retry.delay = .ok due →
    Move w now (.event e) { w with state := .disconnected, retry := w.retried, timer := some due }
      [.enter .disconnected (w.retry.attempts + 1)]
  | stranded {e : VenueEvent} {f : Fault} : e.isLoss = true → w.state ≠ .disconnected → w.state ≠ .failed →
    w.retry.attempts < w.retry.limit → now.after w.retry.delay = .error f →
    Move w now (.event e) { w with state := .disconnected, retry := w.retried }
      [.enter .disconnected (w.retry.attempts + 1), .halt f]
  | gaveUp {e : VenueEvent} : e.isLoss = true → w.state ≠ .disconnected → w.state ≠ .failed →
    w.retry.limit ≤ w.retry.attempts →
    Move w now (.event e) { w with state := .failed } [.enter .failed w.retry.attempts, .alert]
  | lostBefore {e : VenueEvent} : e.isLoss = true → w.state = .disconnected ∨ w.state = .failed →
    Move w now (.event e) w []
  | quoted {e : VenueEvent} {first : Bool} {i : String} {r : Rate} : e.quote? = some (first, i, r) →
    w.state ≠ .disconnected → w.state ≠ .failed → Move w now (.event e) w [.quote first i r]
  | dropped {e : VenueEvent} : e.quote? ≠ none → w.state = .disconnected ∨ w.state = .failed →
    Move w now (.event e) w []
  | unsubscribed (i : String) :
    Move w now (.unsubscribe i) { w with instruments := w.instruments.filter (· ≠ i) }
      [.unsubscribe i, .refresh w.state w.retry.attempts]
  | retried :
    Move w now .retryDue { w with state := .connecting, timer := none }
      [.enter .connecting w.retry.attempts, .countAttempt, .connect]

variable {w : Worker} {now : Instant}

theorem move_onConnected : w.Move now (.event (.connected true)) w.onConnected.1 w.onConnected.2 := by
  unfold onConnected
  split
  · exact .tooLate ‹_›
  · exact .connected ‹_›

theorem move_onLost {e : VenueEvent} (he : e.isLoss = true) :
    w.Move now (.event e) (w.onLost now).1 (w.onLost now).2 := by
  unfold onLost
  split
  · exact .lostBefore he ‹_›
  · rename_i hstate
    have hdisconnected : w.state ≠ .disconnected := fun h => hstate (Or.inl h)
    have hfailed : w.state ≠ .failed := fun h => hstate (Or.inr h)
    split
    · rename_i hlimit
      exact .gaveUp he hdisconnected hfailed (of_decide_eq_true hlimit)
    · rename_i hlimit
      have hlt : w.retry.attempts < w.retry.limit := Nat.lt_of_not_le fun h => hlimit (decide_eq_true h)
      dsimp only
      split
      · exact .lost he hdisconnected hfailed hlt ‹_›
      · exact .stranded he hdisconnected hfailed hlt ‹_›

theorem acceptsRates_iff (s : PlatformState) : s.acceptsRates = true ↔ s ≠ .disconnected ∧ s ≠ .failed := by
  cases s <;> simp [PlatformState.acceptsRates]

theorem move_onQuote {e : VenueEvent} {first : Bool} {i : String} {r : Rate} (he : e.quote? = some (first, i, r)) :
    w.Move now (.event e) (w.onQuote first i r).1 (w.onQuote first i r).2 := by
  unfold onQuote
  split
  · rename_i hstate
    obtain ⟨hdisconnected, hfailed⟩ := (acceptsRates_iff _).1 hstate
    exact .quoted he hdisconnected hfailed
  · rename_i hstate
    refine .dropped (by simp [he]) ?_
    rw [acceptsRates_iff] at hstate
    by_cases h : w.state = .disconnected
    · exact Or.inl h
    · exact Or.inr (Decidable.not_not.1 fun hf => hstate ⟨h, hf⟩)

/-- The step of a worker is one of its moves. -/
theorem move_step (w : Worker) (now : Instant) (i : WorkerInput) : w.Move now i (w.step now i).1 (w.step now i).2 := by
  cases i with
  | unsubscribe i => exact .unsubscribed i
  | retryDue => exact .retried
  | event e =>
    cases e with
    | connected ok =>
      cases ok with
      | true => exact move_onConnected
      | false => exact move_onLost rfl
    | disconnected => exact move_onLost rfl
    | available i r => exact move_onQuote rfl
    | update i r => exact move_onQuote rfl

/-! ## Single events -/

variable {w' : Worker} {i : WorkerInput} {e : VenueEvent} {es : List Effect}

/-- Connects are begun by the retry and by nothing else. -/
theorem Move.count_connect (hm : w.Move now i w' es) : es.count .connect = if i = .retryDue then 1 else 0 := by
  cases hm with
  | connected _ =>
    have hnone : Effect.connect ∉ .enter .connected 0 :: w.instruments.map .subscribe ++ [.enter .subscribed 0] := by
      simp
    rw [List.count_eq_zero_of_not_mem hnone]
    rfl
  | lost _ _ _ _ _ => rfl
  | stranded _ _ _ _ _ => rfl
  | gaveUp _ _ _ _ => rfl
  | retried => rfl
  | unsubscribed i => rfl
  | tooLate _ => rfl
  | lostBefore _ _ => rfl
  | quoted _ _ _ => rfl
  | dropped _ _ => rfl

/-- Of the retry state only the attempts change. -/
theorem Move.retry_eq (hm : w.Move now i w' es) : w'.retry = { w.retry with attempts := w'.retry.attempts } := by
  cases hm <;> rfl

theorem Move.delay_eq (hm : w.Move now i w' es) : w'.retry.delay = w.retry.delay := by
  rw [hm.retry_eq]
  rfl

theorem Move.platform_eq (hm : w.Move now i w' es) : w'.platform = w.platform := by
  cases hm <;> rfl

theorem Move.of_connected (hm : w.Move now (.event (.connected true)) w' es) (hf : w.state ≠ .failed) :
    w' = { w with state := .subscribed, retry := w.retry.reset } ∧ es.any Effect.isHalt = false := by
  cases hm with
  | connected _ => exact ⟨rfl, by simp [Effect.isHalt]⟩
  | tooLate hfailed => exact absurd hfailed hf
  | lost hloss _ _ _ _ => cases hloss
  | stranded hloss _ _ _ _ => cases hloss
  | gaveUp hloss _ _ _ => cases hloss
  | lostBefore hloss _ => cases hloss
  | quoted hquote _ _ => cases hquote
  | dropped hquote _ => exact absurd rfl hquote

theorem Move.of_quote (hm : w.Move now (.event e) w' es) (he : e.quote? ≠ none) :
    w' = w ∧ es.any Effect.isHalt = false := by
  cases hm with
  | connected _ => exact absurd rfl he
  | tooLate _ => exact ⟨rfl, rfl⟩
  | lost hloss _ _ _ _ => exact absurd (VenueEvent.quote?_eq_none_of_isLoss hloss) he
  | stranded hloss _ _ _ _ => exact absurd (VenueEvent.quote?_eq_none_of_isLoss hloss) he
  | gaveUp hloss _ _ _ => exact absurd (VenueEvent.quote?_eq_none_of_isLoss hloss) he
  | lostBefore _ _ => exact ⟨rfl, rfl⟩
  | quoted _ _ _ => exact ⟨rfl, rfl⟩
  | dropped _ _ => exact ⟨rfl, rfl⟩

/-- A loss arms the timer for a deadline that the clock can have, or ends the work for good. -/
theorem Move.of_loss (hm : w.Move now (.event e) w' es) (he : e.isLoss = true)
    (hstate : w.state ≠ .disconnected ∧ w.state ≠ .failed) :
    (w'.state = .disconnected ∧ w'.timer = some (now + w.retry.delay) ∧ es.any Effect.isHalt = false) ∨
    (w'.state = .disconnected ∧ w'.timer = w.timer ∧ es.any Effect.isHalt = true ∧
      Instant.secondsBound ≤ (now + w.retry.delay) / 1000) ∨
    (w'.state = .failed ∧ w'.timer = w.timer ∧ es.any Effect.isHalt = false) := by
  obtain ⟨hdisconnected, hfailed⟩ := hstate
  cases hm with
  | connected _ => cases he
  | tooLate _ => cases he
  | lost _ _ _ _ hdue => exact Or.inl ⟨rfl, congrArg some (Instant.after_eq_ok.1 hdue).2, rfl⟩
  | stranded _ _ _ _ hdue => exact Or.inr (Or.inl ⟨rfl, rfl, rfl, (Instant.after_eq_error.1 hdue).1⟩)
  | gaveUp _ _ _ _ => exact Or.inr (Or.inr ⟨rfl, rfl, rfl⟩)
  | lostBefore _ hbefore => exact (hbefore.elim hdisconnected hfailed).elim
  | quoted hquote _ _ =>
    rw [VenueEvent.quote?_eq_none_of_isLoss he] at hquote
    cases hquote
  | dropped hquote _ => exact absurd (VenueEvent.quote?_eq_none_of_isLoss he) hquote

/-- Only a loss stops a worker, if an attempt is left and the clock cannot have the deadline. -/
theorem Move.halts_iff (hm : w.Move now i w' es) : es.any Effect.isHalt = true ↔
    (∃ e : VenueEvent, i = .event e ∧ e.isLoss = true) ∧ (w.state ≠ .disconnected ∧ w.state ≠ .failed) ∧
      w.retry.attempts < w.retry.limit ∧ Instant.secondsBound ≤ (now + w.retry.delay) / 1000 := by
  have hnot {e : VenueEvent} (he : e.isLoss = false) : ¬ ∃ x : VenueEvent, WorkerInput.event e = .event x ∧ x.isLoss := by
    rintro ⟨x, ⟨⟩, hx⟩
    exact absurd (he.symm.trans hx) nofun
  have hquote {e : VenueEvent} (he : e.quote? ≠ none) : e.isLoss = false :=
    Bool.eq_false_iff.2 fun hloss => he (VenueEvent.quote?_eq_none_of_isLoss hloss)
  cases hm with
  | connected _ => exact ⟨fun h => by simp [Effect.isHalt] at h, fun h => absurd h.1 (hnot rfl)⟩
  | tooLate _ => exact ⟨nofun, fun h => absurd h.1 (hnot rfl)⟩
  | lost _ _ _ _ hdue =>
    exact ⟨nofun, fun h => absurd (Instant.after_eq_ok.1 hdue).1 (Nat.not_lt_of_le h.2.2.2)⟩
  | stranded hloss hdisconnected hfailed hlt hdue =>
    exact ⟨fun _ => ⟨⟨_, rfl, hloss⟩, ⟨hdisconnected, hfailed⟩, hlt, (Instant.after_eq_error.1 hdue).1⟩, fun _ => rfl⟩
  | gaveUp _ _ _ hlimit => exact ⟨nofun, fun h => absurd h.2.2.1 (Nat.not_lt_of_le hlimit)⟩
  | lostBefore _ hbefore => exact ⟨nofun, fun h => (hbefore.elim h.2.1.1 h.2.1.2).elim⟩
  | quoted he _ _ => exact ⟨nofun, fun h => absurd h.1 (hnot (hquote (by simp [he])))⟩
  | dropped he _ => exact ⟨nofun, fun h => absurd h.1 (hnot (hquote he))⟩
  | unsubscribed i => exact ⟨nofun, fun ⟨⟨_, he, _⟩, _⟩ => by cases he⟩
  | retried => exact ⟨nofun, fun ⟨⟨_, he, _⟩, _⟩ => by cases he⟩

end Worker

end RateDesk
