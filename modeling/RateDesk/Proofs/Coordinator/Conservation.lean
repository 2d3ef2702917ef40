import Mathlib.Algebra.BigOperators.Group.Finset.Piecewise
import RateDesk.Proofs.Coordinator.Run
import RateDesk.Proofs.Desk.Moderate
import RateDesk.Proofs.Desk.Quote

/-!
# No quote is lost

Every quote that a desk received was published or counted as rejected, whichever worker handed it over.

* `Balanced` : the counters of a desk agree with its messages;
* `Balanced.dealt` : they still do once a quote was dealt with;
* `run_balanced` : so they do in every state of a run of a coordinator.
-/

namespace RateDesk

namespace Message

def platform? : Message → Option String
  | raw p _ => some p
  | calculated _ => none

def output? : Message → Option String
  | raw .. => none
  | calculated x => some x.instrument

@[simp] theorem platform?_raw (p : String) (r : Rate) : (raw p r).platform? = some p := rfl
@[simp] theorem platform?_calculated (x : CalculatedRate) : (calculated x).platform? = none := rfl
@[simp] theorem output?_raw (p : String) (r : Rate) : (raw p r).output? = none := rfl
@[simp] theorem output?_calculated (x : CalculatedRate) : (calculated x).output? = some x.instrument := rfl

end Message

namespace Desk

variable {d d' : Desk} {p i : String} {r : Rate}

/-- The counters agree with the messages. -/
structure Balanced (d : Desk) : Prop where
  /-- What was received of a platform is what was published of it and what was rejected of it. -/
  received : ∀ p, ∃ is : Finset String, (∀ i ∉ is, d.metrics.value (.rejected p i) = 0) ∧
    d.metrics.value (.received p true) + d.metrics.value (.received p false) =
      d.published.countP (·.platform? = some p) + ∑ i ∈ is, d.metrics.value (.rejected p i)
  calculated : ∀ o, d.metrics.value (.calculated o) = d.published.countP (·.output? = some o)

theorem balanced_of_zero (hp : d.published = []) (hv : ∀ s, d.metrics.value s = 0) : d.Balanced where
  received p := ⟨∅, by simp [hp, hv]⟩
  calculated o := by simp [hp, hv]

/-- What is counted about connections is not part of the balance. -/
theorem Balanced.of_eq (h : d.Balanced) (hp : d'.published = d.published)
    (hv : ∀ s : Series, s.family ≠ .state ∧ s.family ≠ .attempts → d'.metrics.value s = d.metrics.value s) :
    d'.Balanced where
  received p := by
    have hreceived first := hv (.received p first) (by simp [Series.family])
    have hrejected i := hv (.rejected p i) (by simp [Series.family])
    simp only [hp, hreceived, hrejected]
    exact h.received p
  calculated o := by
    rw [hp, hv _ (by simp [Series.family]), h.calculated o]

/-! ## Quotes -/

theorem received_count (m : Metrics) (p : String) (first : Bool) (q : String) :
    (m.count (.received p first)).value (.received q true) + (m.count (.received p first)).value (.received q false) =
      m.value (.received q true) + m.value (.received q false) + if q = p then 1 else 0 := by
  cases first with
  | true => simp [Metrics.value_count]; omega
  | false => simp [Metrics.value_count]; omega

theorem count_calculated (rs : List CalculatedRate) (o : String) :
    (rs.map fun x => Series.calculated x.instrument).count (.calculated o) =
      (rs.map Message.calculated).countP (·.output? = some o) := by
  rw [List.count, List.countP_map, List.countP_map]
  congr 1
  funext x
  simp [Bool.beq_eq_decide_eq]

theorem Balanced.dealt {due : Instant} {first : Bool} (h : d.Balanced)
    (hd : Dealt { d with metrics := d.metrics.count (.received p first) } due p i r d') : d'.Balanced := by
  cases hd with
  | taken rs hd =>
    have hother (s : Series) (hs : s.family ≠ .calculated) :
        d'.metrics.value s = (d.metrics.count (.received p first)).value s := by
      rw [hd.counted, List.count_eq_zero_of_not_mem, Int.natCast_zero, Int.add_zero]
      intro hmem
      obtain ⟨x, -, rfl⟩ := List.mem_map.1 hmem
      exact hs rfl
    constructor
    · intro q
      obtain ⟨is, hzero, hsum⟩ := h.received q
      have hrejected j : d'.metrics.value (.rejected q j) = d.metrics.value (.rejected q j) := by
        rw [hother _ (by simp [Series.family]), Metrics.value_count]
        simp
      refine ⟨is, fun j hj => (hrejected j).trans (hzero j hj), ?_⟩
      rw [hother _ (by simp [Series.family]), hother _ (by simp [Series.family]), received_count, hsum, hd.published]
      simp only [hrejected, List.countP_append, List.countP_cons, List.countP_map]
      by_cases hq : q = p
      · subst hq
        simp [Function.comp_def]
        omega
      · simp [Function.comp_def, hq, Ne.symm hq]
    · intro o
      rw [hd.published, hd.counted, Metrics.value_count, count_calculated, h.calculated o]
      simp
  | rejected hd =>
    constructor
    · intro q
      obtain ⟨is, hzero, hsum⟩ := h.received q
      have hrejected j : d'.metrics.value (.rejected q j) =
          d.metrics.value (.rejected q j) + if q = p ∧ j = i then 1 else 0 := by
        rw [hd.counted, Metrics.value_count]
        by_cases hji : q = p ∧ j = i
        · simp [hji]
        · rw [if_neg hji, List.count_eq_zero_of_not_mem (by simpa using hji)]
          simp
      refine ⟨insert i is, ?_, ?_⟩
      · intro j hj
        rw [Finset.mem_insert, not_or] at hj
        rw [hrejected, hzero j hj.2]
        simp [hj.1]
      · have hreceived b : d'.metrics.value (.received q b) =
            (d.metrics.count (.received p first)).value (.received q b) := by
          rw [hd.counted]
          simp
        rw [hreceived, hreceived, received_count, hsum, hd.published]
        simp only [hrejected, List.append_nil, Finset.sum_add_distrib]
        rw [Finset.sum_insert_of_eq_zero_if_notMem (hzero i)]
        by_cases hq : q = p
        · subst hq
          simp [Finset.sum_ite_eq']
          omega
        · simp [hq]
    · intro o
      rw [hd.published, hd.counted, Metrics.value_count, h.calculated o]
      simp

end Desk

/-! ## Workers -/

/-- A worker that waits or gave up drops quotes. -/
theorem Worker.step_dropped (w : Worker) (t : Instant) {e : VenueEvent} (he : e.quote? ≠ none)
    (hs : w.state = .disconnected ∨ w.state = .failed) : w.step t (.event e) = (w, []) := by
  have hclosed : w.state.acceptsRates = false := by
    rcases hs with hs | hs
    · rw [hs]
      rfl
    · rw [hs]
      rfl
  cases e with
  | connected ok => exact absurd rfl he
  | disconnected => exact absurd rfl he
  | available i r => simp [step, onEvent, onQuote, hclosed]
  | update i r => simp [step, onEvent, onQuote, hclosed]

namespace Post

variable {σ : Type} {d : Derivation} {now : Now} {s : Shared} {name i : String} {first : Bool} {r : Rate}

/-- A quote that causes no fault is counted and dealt with. -/
theorem handQuote_dealt (h : (handQuote d now name first i r s).2 = none) :
    Desk.Dealt { s.desk with metrics := s.desk.metrics.count (.received name first) } (s.desk.expiry now) name i r
      (handQuote d now name first i r s).1.desk := by
  unfold handQuote at h ⊢
  simp only [Desk.run_bind_ok (Desk.run_count _ _)] at h ⊢
  cases first with
  | true =>
    simp only [if_true] at h ⊢
    split at h
    · rename_i hrun
      exact Desk.dealt_first hrun
    · cases h
  | false =>
    simp only [Bool.false_eq_true, if_false] at h ⊢
    split at h
    · rename_i hrun
      obtain ⟨o, d', hupdate, hend⟩ := Desk.run_bind_eq_ok hrun
      cases hend
      exact Desk.dealt_update hupdate
    · cases h

variable [Venue σ]

theorem perform_balanced (p : Post σ) (e : Effect) (hs : s.desk.Balanced)
    (hfault : (perform d now p s e).fault = none) : (perform d now p s e).shared.desk.Balanced := by
  cases e with
  | enter state attempts =>
    refine hs.of_eq (by rfl) ?_
    intro x hx
    exact (Metrics.value_set ..).trans (if_neg fun h => hx.1 (by rw [h]; rfl))
  | countAttempt =>
    refine hs.of_eq (by rfl) ?_
    intro x hx
    refine (Metrics.value_count ..).trans ?_
    rw [if_neg fun h => hx.2 (by rw [h]; rfl), Int.add_zero]
  | quote first i r => exact hs.dealt (handQuote_dealt hfault)
  | refresh state attempts => exact hs
  | connect => exact hs
  | subscribe i => exact hs
  | unsubscribe i => exact hs
  | alert => exact hs
  | halt f => exact hs

end Post

namespace Coordinator

variable {σ : Type} [Venue σ] {c : Coordinator σ} {s : Settings} {build : PlatformSettings → Except Failure σ}
  {time : Timestamp} {as : List (Action σ)}

theorem after_balanced (x : Action σ) (hc : c.shared.desk.Balanced)
    (hcalm : ((c.outcome? x).bind Post.Outcome.fault) = none) : (c.after x).shared.desk.Balanced := by
  cases x with
  | sweep now => exact hc.of_eq rfl fun _ _ => rfl
  | post n now a =>
    cases hp : c.posts[n]? with
    | none =>
      rw [after_post_none hp]
      exact hc
    | some p =>
      rw [after_post hp]
      have hfault : (p.deed c.derivation now c.shared a).fault = none := by
        simpa [outcome?, hp] using hcalm
      -- a fault may leave a quote half dealt with, so the balance is kept only as long as there is none
      have hkept := Post.deed_shared (I := fun s f => f = none → s.desk.Balanced) c.derivation now p a
        (fun q s e _ _ hs => Post.perform_balanced q e (hs rfl)) fun _ => hc
      exact hkept hfault

theorem run_balanced_of_calm (hc : c.shared.desk.Balanced) (hcalm : c.Calm as) : (c.run as).shared.desk.Balanced := by
  induction as generalizing c with
  | nil => exact hc
  | cons x as ih => exact ih (after_balanced x hc hcalm.1) hcalm.2

/-- **No quote is lost.** Whatever happens to any number of workers over one desk, in whatever order and as
long as no fault ends one of them: of every platform as many quotes were received as raw rates were
published and quotes rejected, over all instruments; and of every calculated rate as many were counted as
were published. A quote that is handled by a worker that waits or gave up changes nothing of this. -/
theorem run_balanced (hc : ofSettings s build time = .ok c) (hcalm : c.Calm as) :
    (c.run as).shared.desk.Balanced ∧
    ∀ n p e now, (c.run as).posts[n]? = some p → p.phase = .running → p.inbox.head? = some e → e.quote? ≠ none →
      p.worker.state = .disconnected ∨ p.worker.state = .failed →
      (((c.run as).after (.post n now .handle)).posts[n]?.map Post.inbox) = some p.inbox.tail ∧
        ((c.run as).after (.post n now .handle)).shared = (c.run as).shared := by
  constructor
  · apply run_balanced_of_calm _ hcalm
    apply Desk.balanced_of_zero
    · rw [(ofSettings_eq_ok hc).2.2]
      rfl
    · exact value_ofSettings hc
  · intro n p e now hp hphase hhead he hstate
    have hdecision : p.decision? now.instant .handle = some (p.worker, []) := by
      simp [Post.decision?, Post.input?, hphase, hhead, Worker.step_dropped _ _ he hstate]
    have hdeed (d : Derivation) (s : Shared) :
        p.deed d now s .handle = ⟨{ p with inbox := p.inbox.tail }, s, none, none⟩ := by
      rw [Post.deed_eq, hdecision]
      simp [Post.apply, Post.performAll, Post.made, hphase]
    rw [after_post hp, hdeed]
    simp [(List.getElem?_eq_some_iff.1 hp).1]

/-- Two platforms quote the same instrument far apart; the first of them is lost, and a quote of it is left. -/
def disagreement : List (Action ScriptedVenue) :=
  opening 0 ++ opening 1 ++ delivery 0 (.available "USDTRY" (Desk.tenths "USDTRY" 320 324)) ++
    delivery 1 (.update "USDTRY" (Desk.tenths "USDTRY" 420 424)) ++ delivery 0 .disconnected ++
    [.post 0 ⟨5, ⟨0, 0⟩⟩ (.report (.update "USDTRY" (Desk.tenths "USDTRY" 321 325)))]

theorem run_balanced_disagreement :
    ofSettings (watching pair) (fun _ => .ok (ScriptedVenue.start [] [])) ⟨0, 0⟩ = .ok (rehearsed pair) ∧
      (rehearsed pair).Calm disagreement ∧ ((rehearsed pair).run disagreement).shared.desk.Balanced ∧
      ((rehearsed pair).run disagreement).shared.desk.published = [.raw "TCP" (Desk.tenths "USDTRY" 320 324)] ∧
      ((rehearsed pair).run disagreement).shared.desk.metrics.value (.rejected "REST" "USDTRY") = 1 ∧
      (((rehearsed pair).run disagreement).after (.post 0 ⟨6, ⟨0, 0⟩⟩ .handle)).shared =
        ((rehearsed pair).run disagreement).shared := by
  have hc := ofSettings_watching pair
  have hcalm : (rehearsed pair).Calm disagreement :=
    ⟨rfl, rfl, rfl, rfl, rfl, rfl, rfl, rfl, rfl, rfl, rfl, rfl, rfl, trivial⟩
  obtain ⟨hbalanced, hdropped⟩ := run_balanced hc hcalm
  exact ⟨hc, hcalm, hbalanced, rfl, rfl, (hdropped 0 _ _ ⟨6, ⟨0, 0⟩⟩ rfl rfl rfl nofun (Or.inl rfl)).2⟩

end Coordinator

end RateDesk
