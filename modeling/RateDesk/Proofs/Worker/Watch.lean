import RateDesk.Proofs.Worker.Run

/-!
# A worker and its venue

The worker, the queue of events between it and its venue, and the connects that it began run side by
side.

* `Call` : how far a connect got; a venue reports every connect once, and then, if it succeeded,
  quotes and at most one end;
* `Watch`, `Watch.Step` : the three together, and what each of them may do next;
* `Backlog` : which events may wait in the queue, by the state of the worker and the last connect;
* `Kept` : the invariant, `Kept.step` and `Reachable.kept`;
* `reachable_retries` : the timer runs exactly while the worker waits, unless it was stopped, and every connect stands
  alone;
* `reachable_stranded` : a worker that was stopped waits without a timer.
-/

namespace RateDesk

/-- How far a connect got. -/
inductive Call where
  /-- It was not reported yet. -/
  | dialing
  /-- It succeeded, and its session lasts. -/
  | up
  /-- It failed, or its session ended. -/
  | over
deriving DecidableEq, Repr

/-- An input that a worker handled, with the clock and the state of the worker before. -/
structure Handled where
  time : Instant
  state : PlatformState
  input : WorkerInput

/-- Whether a loss was handled while the worker connected or had a session. -/
def Handled.IsLoss (h : Handled) : Prop :=
  (h.state = .connecting ∨ h.state = .subscribed) ∧ ∃ e : VenueEvent, h.input = .event e ∧ e.isLoss = true

/-- A worker with its venue. -/
structure Watch where
  worker : Worker
  /-- Whether a fault stopped the worker. -/
  halted : Bool
  /-- The events that wait to be handled, oldest first. -/
  queue : List VenueEvent
  /-- The connects that were begun, oldest first. -/
  calls : List Call
  clock : Instant
  /-- What was handled so far, oldest first. -/
  log : List Handled

namespace Watch

open VenueEvent (AreQuotes)

/-! ## Steps -/

def begun (es : List Effect) : List Call := List.replicate (es.count .connect) .dialing

def start (p : PlatformSettings) (policy : RetrySettings) (clock : Instant) : Watch where
  worker := (Worker.ofSettings p policy).begin.1
  halted := false
  queue := []
  calls := begun (Worker.ofSettings p policy).begin.2
  clock := clock
  log := []

/-- Whether the loop can hand an input to the worker: the oldest event, a command at any time, the
retry once it is due. -/
def Offers (s : Watch) : WorkerInput → Prop
  | .event e => s.halted = false ∧ s.queue.head? = some e
  | .unsubscribe _ => s.halted = false
  | .retryDue => s.halted = false ∧ ∃ due, s.worker.timer = some due ∧ due ≤ s.clock

def rest (s : Watch) : WorkerInput → List VenueEvent
  | .event _ => s.queue.tail
  | _ => s.queue

/-- What an input leaves if the worker makes `w` of it, with some effects. -/
def after (s : Watch) (i : WorkerInput) (w : Worker) (es : List Effect) : Watch where
  worker := w
  halted := es.any Effect.isHalt
  queue := s.rest i
  calls := s.calls ++ begun es
  clock := s.clock
  log := s.log ++ [⟨s.clock, s.worker.state, i⟩]

/-- What happens next: time passes, the worker handles an input, or the venue reports something of
one of the connects. -/
inductive Step (s : Watch) : Watch → Prop where
  | tick {t : Instant} : s.clock ≤ t → Step s { s with clock := t }
  | handle {i : WorkerInput} : s.Offers i →
    Step s (s.after i (s.worker.step s.clock i).1 (s.worker.step s.clock i).2)
  | report {n : Nat} (ok : Bool) : s.calls[n]? = some .dialing →
    Step s { s with queue := s.queue ++ [.connected ok], calls := s.calls.set n (if ok then .up else .over) }
  | quote {n : Nat} {e : VenueEvent} : s.calls[n]? = some .up → e.quote? ≠ none →
    Step s { s with queue := s.queue ++ [e] }
  | lose {n : Nat} : s.calls[n]? = some .up →
    Step s { s with queue := s.queue ++ [.disconnected], calls := s.calls.set n .over }

/-- What can become of a worker that begins, at any time, with its venue. -/
inductive Reachable (p : PlatformSettings) (policy : RetrySettings) : Watch → Prop where
  | start (clock : Instant) : Reachable p policy (start p policy clock)
  | step {s s' : Watch} : Reachable p policy s → s.Step s' → Reachable p policy s'

/-! ## The queue -/

/-- Which events may wait, given the state of the worker and the last connect. -/
inductive Backlog : PlatformState → Call → List VenueEvent → Prop where
  | dialing : Backlog .connecting .dialing []
  | refused : Backlog .connecting .over [.connected false]
  | greeted {qs : List VenueEvent} : AreQuotes qs → Backlog .connecting .up (.connected true :: qs)
  | brief {qs : List VenueEvent} : AreQuotes qs → Backlog .connecting .over (.connected true :: qs ++ [.disconnected])
  | up {qs : List VenueEvent} : AreQuotes qs → Backlog .subscribed .up qs
  | lost {qs : List VenueEvent} : AreQuotes qs → Backlog .subscribed .over (qs ++ [.disconnected])
  | waiting : Backlog .disconnected .over []
  | failed : Backlog .failed .over []

variable {st : PlatformState} {c : Call} {e : VenueEvent} {q : List VenueEvent}

theorem Backlog.report (h : Backlog st .dialing q) (ok : Bool) :
    Backlog st (if ok then .up else .over) (q ++ [.connected ok]) := by
  cases h with
  | dialing =>
    cases ok with
    | true => exact .greeted .nil
    | false => exact .refused

theorem Backlog.quote (h : Backlog st .up q) (he : e.quote? ≠ none) : Backlog st .up (q ++ [e]) := by
  cases h with
  | greeted hqs => exact .greeted (hqs.snoc he)
  | up hqs => exact .up (hqs.snoc he)

theorem Backlog.lose (h : Backlog st .up q) : Backlog st .over (q ++ [.disconnected]) := by
  cases h with
  | greeted hqs => exact .brief hqs
  | up hqs => exact .lost hqs

/-- The oldest event, and what waits behind it once the worker has handled it. -/
theorem Backlog.head (h : Backlog st c (e :: q)) :
    (st = .connecting ∧ e = .connected true ∧ Backlog .subscribed c q) ∨
    (st = .subscribed ∧ e.quote? ≠ none ∧ Backlog .subscribed c q) ∨
    (((st = .connecting ∧ e = .connected false) ∨ (st = .subscribed ∧ e = .disconnected)) ∧ c = .over ∧ q = []) := by
  generalize hq : e :: q = es at h
  cases h with
  | dialing => cases hq
  | waiting => cases hq
  | failed => cases hq
  | refused =>
    cases hq
    exact Or.inr (Or.inr ⟨Or.inl ⟨rfl, rfl⟩, rfl, rfl⟩)
  | greeted hqs =>
    cases hq
    exact Or.inl ⟨rfl, rfl, .up hqs⟩
  | brief hqs =>
    cases hq
    exact Or.inl ⟨rfl, rfl, .lost hqs⟩
  | up hqs =>
    subst hq
    exact Or.inr (Or.inl ⟨rfl, hqs e List.mem_cons_self, .up hqs.tail⟩)
  | @lost qs hqs =>
    cases qs with
    | nil =>
      cases hq
      exact Or.inr (Or.inr ⟨Or.inr ⟨rfl, rfl⟩, rfl, rfl⟩)
    | cons x qs =>
      cases hq
      exact Or.inr (Or.inl ⟨rfl, hqs e List.mem_cons_self, .lost hqs.tail⟩)

/-! ## The invariant -/

/-- A loss was handled so much before a deadline, and since then nothing but commands. -/
def LostBefore (log : List Handled) (delay : Nat) (due : Instant) : Prop :=
  ∃ before h since, log = before ++ h :: since ∧ h.IsLoss ∧ due = h.time + delay ∧
    ∀ x ∈ since, ∃ i, x.input = .unsubscribe i

theorem LostBefore.snoc {log : List Handled} {delay : Nat} {due : Instant} {h : Handled}
    (hl : LostBefore log delay due) {i : String} (hi : h.input = .unsubscribe i) :
    LostBefore (log ++ [h]) delay due := by
  obtain ⟨before, x, since, hlog, hx, hdue, hsince⟩ := hl
  refine ⟨before, x, since ++ [h], by rw [hlog, List.append_assoc, List.cons_append], hx, hdue, fun y hy => ?_⟩
  rcases List.mem_append.1 hy with hy | hy
  · exact hsince y hy
  · rw [List.mem_singleton.1 hy]
    exact ⟨i, hi⟩

/-- What holds of a worker and its venue at any time; `delay` is what the retry policy gives. -/
structure Kept (delay : Nat) (s : Watch) : Prop where
  delay_eq : s.worker.retry.delay = delay
  calls : ∃ past c, s.calls = past ++ [c] ∧ (∀ x ∈ past, x = .over) ∧ Backlog s.worker.state c s.queue
  armed : s.halted = false → (s.worker.timer ≠ none ↔ s.worker.state = .disconnected)
  halted : s.halted = true → s.worker.state = .disconnected ∧ s.worker.timer = none ∧
    ∃ before h, s.log = before ++ [h] ∧ h.IsLoss ∧ Instant.secondsBound ≤ (h.time + delay) / 1000
  due : ∀ due, s.worker.timer = some due → LostBefore s.log delay due
  count : s.calls.length = 1 + s.log.countP (·.input = .retryDue)

variable {delay n : Nat} {s s' : Watch} {i : WorkerInput} {w : Worker} {es : List Effect}

theorem kept_start (p : PlatformSettings) (policy : RetrySettings) (clock : Instant) :
    Kept (policy.delaySecs.toNat * 1000) (start p policy clock) where
  delay_eq := rfl
  calls := ⟨[], .dialing, rfl, nofun, .dialing⟩
  armed _ := ⟨fun h => absurd rfl h, nofun⟩
  halted h := by cases h
  due _ h := by cases h
  count := rfl

/-- Only the last connect can still have something to report. -/
theorem eq_last_of_live {past : List Call} {x : Call} (hpast : ∀ y ∈ past, y = .over)
    (hn : (past ++ [c])[n]? = some x) (hx : x ≠ .over) : n = past.length ∧ c = x := by
  obtain hlt | heq | hgt := Nat.lt_trichotomy n past.length
  · rw [List.getElem?_append_left hlt] at hn
    exact absurd (hpast x (List.mem_of_getElem? hn)) hx
  · subst heq
    simp only [List.getElem?_concat_length, Option.some.injEq] at hn
    exact ⟨rfl, hn⟩
  · rw [List.getElem?_eq_none (by rw [List.length_append]; exact hgt)] at hn
    cases hn

theorem Kept.live (h : s.Kept delay) {x : Call} (hn : s.calls[n]? = some x) (hx : x ≠ .over) :
    Backlog s.worker.state x s.queue ∧ ∀ y, ∃ past, s.calls.set n y = past ++ [y] ∧ ∀ z ∈ past, z = .over := by
  obtain ⟨past, c, hcalls, hpast, hback⟩ := h.calls
  rw [hcalls] at hn
  obtain ⟨rfl, rfl⟩ := eq_last_of_live hpast hn hx
  exact ⟨hback, fun y => ⟨past, by rw [hcalls]; simp, hpast⟩⟩

/-- A report of the venue keeps the invariant if it leaves the right backlog. -/
theorem Kept.reported (h : s.Kept delay) {x y : Call} {q : List VenueEvent} (hn : s.calls[n]? = some x)
    (hx : x ≠ .over) (hback : Backlog s.worker.state x s.queue → Backlog s.worker.state y q) :
    Kept delay { s with queue := q, calls := s.calls.set n y } := by
  obtain ⟨hlive, hset⟩ := h.live hn hx
  obtain ⟨past, hcalls, hpast⟩ := hset y
  exact ⟨h.delay_eq, ⟨past, y, hcalls, hpast, hback hlive⟩, h.armed, h.halted, h.due,
    (List.length_set ..).trans h.count⟩

theorem Kept.quoted (h : s.Kept delay) {e : VenueEvent} (hn : s.calls[n]? = some .up) (he : e.quote? ≠ none) :
    Kept delay { s with queue := s.queue ++ [e] } := by
  have hkept := h.reported (y := .up) hn nofun fun hback => hback.quote he
  obtain ⟨hlt, hget⟩ := List.getElem?_eq_some_iff.1 hn
  have hset : s.calls.set n .up = s.calls := by rw [← hget, List.set_getElem_self]
  rwa [hset] at hkept

/-- Handling an input keeps what does not depend on the state of the worker. -/
theorem Kept.count_after (h : s.Kept delay) (hm : s.worker.Move s.clock i w es) :
    (s.after i w es).calls.length = 1 + (s.after i w es).log.countP (·.input = .retryDue) := by
  have hcount := h.count
  unfold after begun
  rw [List.length_append, List.length_replicate, hm.count_connect, List.countP_append, List.countP_singleton]
  by_cases hi : i = .retryDue
  · simp only [hi, ite_true, decide_true]
    omega
  · simp only [hi, ite_false, decide_false, Bool.false_eq_true]
    omega

theorem Kept.unsubscribed (h : s.Kept delay) (hhalted : s.halted = false) (x : String)
    (hm : s.worker.Move s.clock (.unsubscribe x) w es) : Kept delay (s.after (.unsubscribe x) w es) := by
  have hcount := h.count_after hm
  cases hm with
  | unsubscribed =>
    obtain ⟨past, c, hcalls, hpast, hback⟩ := h.calls
    exact ⟨h.delay_eq, ⟨past, c, (List.append_nil _).trans hcalls, hpast, hback⟩, fun _ => h.armed hhalted, nofun,
      fun due hdue => (h.due due hdue).snoc rfl, hcount⟩

/-- While a worker waits, every connect is over and no event waits to be handled. -/
theorem Kept.waiting (h : s.Kept delay) (hst : s.worker.state = .disconnected) :
    (∀ c ∈ s.calls, c = .over) ∧ s.queue = [] := by
  obtain ⟨past, c, hcalls, hpast, hback⟩ := h.calls
  rw [hst] at hback
  generalize hq : s.queue = q at hback
  cases hback with
  | waiting =>
    refine ⟨fun x hx => ?_, rfl⟩
    rw [hcalls] at hx
    rcases List.mem_append.1 hx with hx | hx
    · exact hpast x hx
    · exact List.mem_singleton.1 hx

theorem Kept.retried (h : s.Kept delay) (hhalted : s.halted = false) (ht : s.worker.timer ≠ none)
    (hm : s.worker.Move s.clock .retryDue w es) : Kept delay (s.after .retryDue w es) := by
  have hcount := h.count_after hm
  obtain ⟨hover, hqueue⟩ := h.waiting ((h.armed hhalted).1 ht)
  cases hm with
  | retried =>
    have hdialing : Backlog .connecting .dialing s.queue := by
      rw [hqueue]
      exact .dialing
    exact ⟨h.delay_eq, ⟨s.calls, .dialing, rfl, hover, hdialing⟩, fun _ => ⟨fun hne => absurd rfl hne, nofun⟩, nofun,
      nofun, hcount⟩

theorem Kept.timer_eq_none (h : s.Kept delay) (hhalted : s.halted = false) (hne : s.worker.state ≠ .disconnected) :
    s.worker.timer = none :=
  Decidable.not_not.1 fun ht => hne ((h.armed hhalted).1 ht)

/-- Handling an event takes it from the queue and begins no connect. -/
theorem Kept.calls_after (h : s.Kept delay) (hq : s.queue = e :: q) (hm : s.worker.Move s.clock (.event e) w es) :
    ∃ past c, (s.after (.event e) w es).calls = past ++ [c] ∧ (∀ x ∈ past, x = .over) ∧
      (s.after (.event e) w es).queue = q ∧ Backlog s.worker.state c (e :: q) := by
  obtain ⟨past, c, hcalls, hpast, hback⟩ := h.calls
  have hbegun : begun es = [] := by
    rw [begun, hm.count_connect]
    rfl
  refine ⟨past, c, ?_, hpast, congrArg List.tail hq, hq ▸ hback⟩
  show s.calls ++ begun es = past ++ [c]
  rw [hbegun, List.append_nil, hcalls]

/-- An event keeps the invariant if it leaves the timer unarmed, the worker not waiting, and the right
backlog. -/
theorem Kept.event_unarmed (h : s.Kept delay) (hm : s.worker.Move s.clock (.event e) w es)
    (hback : ∃ past c, (s.after (.event e) w es).calls = past ++ [c] ∧ (∀ x ∈ past, x = .over) ∧
      Backlog w.state c (s.after (.event e) w es).queue)
    (ht : w.timer = none) (hst : w.state ≠ .disconnected) (hrun : es.any Effect.isHalt = false) :
    Kept delay (s.after (.event e) w es) where
  delay_eq := hm.delay_eq.trans h.delay_eq
  calls := hback
  armed _ := ⟨fun hne => absurd ht hne, fun hd => absurd hd hst⟩
  halted hhalt := absurd (hrun.symm.trans hhalt) nofun
  due _ hdue := absurd (ht.symm.trans hdue) nofun
  count := h.count_after hm

theorem Kept.lost (h : s.Kept delay) (hhalted : s.halted = false) (hq : s.queue = e :: q)
    (hm : s.worker.Move s.clock (.event e) w es) (hloss : e.isLoss = true)
    (hbusy : s.worker.state = .connecting ∨ s.worker.state = .subscribed)
    (hlast : ∀ c, Backlog s.worker.state c (e :: q) → c = .over ∧ q = []) :
    Kept delay (s.after (.event e) w es) := by
  have hstate : s.worker.state ≠ .disconnected ∧ s.worker.state ≠ .failed := by
    rcases hbusy with hs | hs <;> rw [hs] <;> exact ⟨nofun, nofun⟩
  have ht : s.worker.timer = none := h.timer_eq_none hhalted hstate.1
  have hlog : Handled.IsLoss ⟨s.clock, s.worker.state, .event e⟩ := ⟨hbusy, e, rfl, hloss⟩
  obtain ⟨past, c, hcalls, hpast, hqueue, hback⟩ := h.calls_after hq hm
  obtain ⟨rfl, rfl⟩ := hlast c hback
  obtain ⟨hw, hdue, hrun⟩ | ⟨hw, hdue, hrun, hbound⟩ | ⟨hw, hdue, hrun⟩ := hm.of_loss hloss hstate
  · have hwait : Backlog w.state .over (s.after (.event e) w es).queue := by
      rw [hw, hqueue]
      exact .waiting
    refine ⟨hm.delay_eq.trans h.delay_eq, ⟨past, .over, hcalls, hpast, hwait⟩, fun _ => ?_, fun hhalt => ?_,
      fun due hdue' => ?_, h.count_after hm⟩
    · exact ⟨fun _ => hw, fun _ hnone => absurd (hnone.symm.trans hdue) nofun⟩
    · exact absurd (hrun.symm.trans hhalt) nofun
    · have heq : due = s.clock + s.worker.retry.delay := Option.some.inj (hdue'.symm.trans hdue)
      exact ⟨s.log, _, [], rfl, hlog, by rw [heq, h.delay_eq], nofun⟩
  · have hwait : Backlog w.state .over (s.after (.event e) w es).queue := by
      rw [hw, hqueue]
      exact .waiting
    refine ⟨hm.delay_eq.trans h.delay_eq, ⟨past, .over, hcalls, hpast, hwait⟩, fun hhalt => ?_, fun _ => ?_,
      fun due hdue' => ?_, h.count_after hm⟩
    · exact absurd (hrun.symm.trans hhalt) nofun
    · exact ⟨hw, hdue.trans ht, s.log, _, rfl, hlog, by rw [← h.delay_eq]; exact hbound⟩
    · exact absurd ((hdue.trans ht).symm.trans hdue') nofun
  · have hfailed : Backlog w.state .over (s.after (.event e) w es).queue := by
      rw [hw, hqueue]
      exact .failed
    exact h.event_unarmed hm ⟨past, .over, hcalls, hpast, hfailed⟩ (hdue.trans ht) (by rw [hw]; nofun) hrun

theorem Kept.event (h : s.Kept delay) (hhalted : s.halted = false) (hq : s.queue = e :: q)
    (hm : s.worker.Move s.clock (.event e) w es) : Kept delay (s.after (.event e) w es) := by
  obtain ⟨past, c, hcalls, hpast, hqueue, hback⟩ := h.calls_after hq hm
  obtain ⟨hst, rfl, hback'⟩ | ⟨hst, hquote, hback'⟩ | ⟨hst, -, -⟩ := hback.head
  · obtain ⟨rfl, hrun⟩ := hm.of_connected (by rw [hst]; nofun)
    refine h.event_unarmed hm ⟨past, c, hcalls, hpast, ?_⟩ (h.timer_eq_none hhalted (by rw [hst]; nofun)) nofun hrun
    rw [hqueue]
    exact hback'
  · obtain ⟨rfl, hrun⟩ := hm.of_quote hquote
    have hne : s.worker.state ≠ .disconnected := by rw [hst]; nofun
    refine h.event_unarmed hm ⟨past, c, hcalls, hpast, ?_⟩ (h.timer_eq_none hhalted hne) hne hrun
    rw [hqueue, hst]
    exact hback'
  · refine h.lost hhalted hq hm ?_ (hst.imp And.left And.left) fun c' hc' => ?_
    · rcases hst with ⟨-, rfl⟩ | ⟨-, rfl⟩ <;> rfl
    · obtain ⟨-, rfl, -⟩ | ⟨-, hquote, -⟩ | ⟨-, hover, hnil⟩ := hc'.head
      · rcases hst with ⟨-, he⟩ | ⟨-, he⟩ <;> cases he
      · rcases hst with ⟨-, rfl⟩ | ⟨-, rfl⟩ <;> exact absurd rfl hquote
      · exact ⟨hover, hnil⟩

/-- Whatever happens next keeps the invariant. -/
theorem Kept.step (h : s.Kept delay) (hs : s.Step s') : s'.Kept delay := by
  cases hs with
  | tick _ => exact ⟨h.delay_eq, h.calls, h.armed, h.halted, h.due, h.count⟩
  | report ok hn => exact h.reported hn nofun fun hback => hback.report ok
  | quote hn he => exact h.quoted hn he
  | lose hn => exact h.reported hn nofun fun hback => hback.lose
  | @handle i ho =>
    have hm := s.worker.move_step s.clock i
    cases i with
    | unsubscribe x => exact h.unsubscribed ho x hm
    | retryDue =>
      obtain ⟨hhalted, due, ht, -⟩ := ho
      exact h.retried hhalted (by rw [ht]; nofun) hm
    | event e =>
      obtain ⟨hhalted, hq⟩ := ho
      obtain ⟨q, hq⟩ := List.head?_eq_some_iff.1 hq
      exact h.event hhalted hq hm

theorem Reachable.kept {p : PlatformSettings} {policy : RetrySettings} (h : Reachable p policy s) :
    s.Kept (policy.delaySecs.toNat * 1000) := by
  induction h with
  | start clock => exact kept_start p policy clock
  | step _ hs ih => exact ih.step hs

theorem Kept.armed_iff (h : s.Kept delay) :
    s.worker.timer.isSome = true ↔ s.worker.state = .disconnected ∧ s.halted = false := by
  rw [Option.isSome_iff_ne_none]
  cases hhalted : s.halted with
  | false => simpa using h.armed hhalted
  | true => simp [(h.halted hhalted).2.1]

/-- A worker that was stopped handles nothing any more. -/
theorem not_offers (h : s.halted = true) (i : WorkerInput) : ¬ s.Offers i := by
  intro ho
  cases i with
  | event e => exact absurd (h.symm.trans ho.1) nofun
  | unsubscribe x => exact absurd (h.symm.trans ho) nofun
  | retryDue => exact absurd (h.symm.trans ho.1) nofun

/-- The oldest event is a result of the last connect while connecting, and comes from its session else. -/
theorem Kept.head (h : s.Kept delay) (ho : s.Offers (.event e)) :
    (s.worker.state = .connecting ∧ ∃ ok, e = .connected ok) ∨
    (s.worker.state = .subscribed ∧ (e.quote? ≠ none ∨ e = .disconnected)) := by
  obtain ⟨q, hq⟩ := List.head?_eq_some_iff.1 ho.2
  obtain ⟨past, c, -, -, hback⟩ := h.calls
  rw [hq] at hback
  obtain ⟨hst, he, -⟩ | ⟨hst, he, -⟩ | ⟨⟨hst, he⟩ | ⟨hst, he⟩, -⟩ := hback.head
  · exact Or.inl ⟨hst, true, he⟩
  · exact Or.inr ⟨hst, Or.inl he⟩
  · exact Or.inl ⟨hst, false, he⟩
  · exact Or.inr ⟨hst, Or.inr he⟩

/-- A worker is stopped by a loss that it counts, if the clock cannot have the deadline. -/
theorem Kept.halts_iff (h : s.Kept delay) (ho : s.Offers i) :
    (s.worker.step s.clock i).2.any Effect.isHalt = true ↔
      (∃ e : VenueEvent, i = .event e ∧ e.isLoss = true) ∧ s.worker.retry.attempts < s.worker.retry.limit ∧
        Instant.secondsBound ≤ (s.clock + delay) / 1000 := by
  rw [(s.worker.move_step s.clock i).halts_iff, h.delay_eq]
  refine ⟨fun ⟨he, _, hlt, hbound⟩ => ⟨he, hlt, hbound⟩, ?_⟩
  rintro ⟨⟨e, rfl, he⟩, hlt, hbound⟩
  refine ⟨⟨e, rfl, he⟩, ?_, hlt, hbound⟩
  rcases h.head ho with ⟨hst, -⟩ | ⟨hst, -⟩
  · exact ⟨by rw [hst]; nofun, by rw [hst]; nofun⟩
  · exact ⟨by rw [hst]; nofun, by rw [hst]; nofun⟩

/-- **A worker waits exactly while its timer runs, and every connect stands alone.** The timer of a worker is armed
exactly while it is disconnected and was not stopped, and then it is due one delay after the last loss, with only
commands handled since. A loss stops the worker exactly if an attempt is left and the clock cannot have the deadline;
then it is disconnected for good, without a timer, and handles nothing any more. A connect is begun at the start and
whenever the timer is due, when every connect before it is over and nothing waits to be handled. What is reported of a
connect is handled while connecting, and the end of a session while subscribed. -/
theorem reachable_retries {p : PlatformSettings} {policy : RetrySettings} (h : Reachable p policy s) :
    (s.worker.timer.isSome = true ↔ s.worker.state = .disconnected ∧ s.halted = false) ∧
    (s.halted = true → s.worker.state = .disconnected ∧ (∀ i, ¬ s.Offers i) ∧
      ∃ before x, s.log = before ++ [x] ∧ x.IsLoss ∧ x.time.Overruns policy.delaySecs.toNat) ∧
    (∀ due, s.worker.timer = some due → LostBefore s.log (policy.delaySecs.toNat * 1000) due) ∧
    s.calls.length = 1 + s.log.countP (·.input = .retryDue) ∧
    ∀ i, s.Offers i →
      ((s.worker.step s.clock i).2.any Effect.isHalt = true ↔
        (∃ e : VenueEvent, i = .event e ∧ e.isLoss = true) ∧ s.worker.retry.attempts < s.worker.retry.limit ∧
          s.clock.Overruns policy.delaySecs.toNat) ∧
      (.connect ∈ (s.worker.step s.clock i).2 →
        i = .retryDue ∧ (∃ due, s.worker.timer = some due ∧ due ≤ s.clock) ∧ (∀ c ∈ s.calls, c = .over) ∧
          s.queue = []) ∧
      (∀ ok, i = .event (.connected ok) → s.worker.state = .connecting) ∧
      (i = .event .disconnected → s.worker.state = .subscribed) := by
  have hkept := h.kept
  refine ⟨hkept.armed_iff, fun hhalted => ?_, hkept.due, hkept.count, fun i ho => ⟨?_, ?_, ?_, ?_⟩⟩
  · obtain ⟨hst, -, before, x, hlog, hloss, hbound⟩ := hkept.halted hhalted
    exact ⟨hst, not_offers hhalted, before, x, hlog, hloss, Instant.overruns_iff.2 hbound⟩
  · rw [Instant.overruns_iff]
    exact hkept.halts_iff ho
  · intro hconnect
    have hcount := (s.worker.move_step s.clock i).count_connect
    have hpos := List.count_pos_iff.2 hconnect
    by_cases hi : i = .retryDue
    · subst hi
      obtain ⟨hhalted, due, ht, hdue⟩ := ho
      exact ⟨rfl, ⟨due, ht, hdue⟩, hkept.waiting ((hkept.armed hhalted).1 (by rw [ht]; nofun))⟩
    · rw [if_neg hi] at hcount
      omega
  · rintro ok rfl
    rcases hkept.head ho with ⟨hst, -⟩ | ⟨-, he | he⟩
    · exact hst
    · exact absurd rfl he
    · cases he
  · rintro rfl
    rcases hkept.head ho with ⟨-, ok, he⟩ | ⟨hst, -⟩
    · cases he
    · exact hst

theorem reachable_retries_refused :
    ∃ s, Reachable Worker.solo ⟨3, 10⟩ s ∧ s.halted = false ∧ s.worker.state = .disconnected ∧
      s.worker.timer = some 10020 ∧ LostBefore s.log 10000 10020 := by
  have hstart : Reachable Worker.solo ⟨3, 10⟩ _ := .start 20
  have hreport := hstart.step (.report (n := 0) false rfl)
  have hlost := hreport.step (.handle (i := .event (.connected false)) ⟨rfl, rfl⟩)
  exact ⟨_, hlost, rfl, rfl, rfl, (reachable_retries hlost).2.2.1 10020 rfl⟩

/-- With the longest delay that settings can have, the first loss leaves a worker that is disconnected without a timer,
and handles nothing any more. -/
theorem reachable_stranded :
    ∃ s, Reachable Worker.solo ⟨3, 18446744073709551615⟩ s ∧ s.worker.state = .disconnected ∧ s.worker.timer = none ∧
      ∀ i, ¬ s.Offers i := by
  have hstart : Reachable Worker.solo ⟨3, 18446744073709551615⟩ _ := .start 20
  have hreport := hstart.step (.report (n := 0) true rfl)
  have hup := hreport.step (.handle (i := .event (.connected true)) ⟨rfl, rfl⟩)
  have hend := hup.step (.lose (n := 0) rfl)
  have hlost := hend.step (.handle (i := .event .disconnected) ⟨rfl, rfl⟩)
  exact ⟨_, hlost, rfl, rfl, not_offers rfl⟩

end Watch

end RateDesk
