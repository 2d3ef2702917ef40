import Mathlib.Data.List.Induction
import Mathlib.Tactic.ByContra
import RateDesk.Proofs.Venue.Jobs

/-!
# Outages of a polled venue

Calls, replies to logins and results of polls come in any order.

* `PollingRun`, `PollingRun.Step` : the venue, the logins and polls on their way, and what may come next;
* `Reachable.connect` : a connect that nothing interrupts is the whole call;
* `Told` : in which order a venue may report connections, quotes and outages;
* `Kept` : the invariant of a run;
* `reachable_outages` : an outage is reported once, and nothing comes from the venue until it is over.
-/

namespace RateDesk

/-- What a polled venue shows. -/
inductive PollSign where
  | event (e : VenueEvent)
  /-- The answer to a subscribe: why it is refused, if it is. -/
  | answer (refusal : Option Failure)
deriving DecidableEq

/-- A polled venue with all that is on its way. -/
structure PollingRun where
  venue : PollingVenue
  /-- How many connects wait for the reply to their login. -/
  logins : Nat
  /-- The jobs whose poll has no result yet, also those that were cancelled since it began. -/
  tasks : List PollTask
  /-- What was shown so far, oldest first. -/
  signs : List PollSign

namespace PollingRun

open PollingVenue

/-! ## Steps -/

def start (v : PollingVenue) : PollingRun := ⟨v, 0, [], []⟩

def started : Except Failure (Option PollTask) → List PollTask
  | .ok (some t) => [t]
  | _ => []

def refusal : Except Failure (Option PollTask) → Option Failure
  | .ok _ => none
  | .error f => some f

/-- What may come next. A connect forgets the session before and waits for the reply to its login;
meanwhile anything else may come, another connect too. -/
inductive Step (s : PollingRun) : PollingRun → Prop where
  | connect : Step s { s with venue := s.venue.reset, logins := s.logins + 1 }
  | login {n : Nat} (login : Except LoginFailure String) : s.logins = n + 1 →
    Step s { s with venue := (s.venue.loggedIn login).2, logins := n,
                    signs := s.signs ++ (s.venue.loggedIn login).1.map .event }
  | subscribe (i : String) :
    Step s { s with venue := (s.venue.subscribe i).2, tasks := started (s.venue.subscribe i).1 ++ s.tasks,
                    signs := s.signs ++ [.answer (refusal (s.venue.subscribe i).1)] }
  | unsubscribe (i : String) : Step s { s with venue := s.venue.unsubscribe i }
  | disconnect : Step s { s with venue := s.venue.disconnect }
  | settle {t : PollTask} (r : PollResult) : t ∈ s.tasks →
    Step s { s with venue := (s.venue.settle t r).2.2, tasks := (s.venue.settle t r).2.1.toList ++ s.tasks.erase t,
                    signs := s.signs ++ (s.venue.settle t r).1.map .event }

/-- What can become of a venue that is made from settings. -/
inductive Reachable (zone : Time.Zone) (p : PlatformSettings) : PollingRun → Prop where
  | start {v : PollingVenue} : PollingVenue.ofSettings zone p = .ok v → Reachable zone p (start v)
  | step {s s' : PollingRun} : Reachable zone p s → s.Step s' → Reachable zone p s'

variable {zone : Time.Zone} {p : PlatformSettings} {s s' : PollingRun} {name : String} {up up' : Bool}
  {signs xs ys zs : List PollSign} {x : PollSign}

/-- A connect that nothing interrupts. -/
theorem Reachable.connect (h : Reachable zone p s) (login : Except LoginFailure String) :
    Reachable zone p { s with venue := (s.venue.connect login).2.2,
                              signs := s.signs ++ (s.venue.connect login).2.1.map .event } := by
  rw [connect_eq]
  exact (h.step .connect).step (.login login rfl)

/-! ## Order of the signs -/

/-- What may be shown while the venue is connected (`up`) or not, and whether it is connected then. -/
inductive Turn (name : String) : Bool → PollSign → Bool → Prop where
  | connected (up : Bool) : Turn name up (.event (.connected true)) true
  | refused (up : Bool) : Turn name up (.event (.connected false)) up
  | quoted {e : VenueEvent} : e.quote? ≠ none → Turn name true (.event e) true
  | lost : Turn name true (.event .disconnected) false
  | answered {up : Bool} {a : Option Failure} : (up = false → a = some (.notConnected name)) →
    Turn name up (.answer a) up

/-- Signs that may be shown one after another. -/
inductive Told (name : String) : Bool → List PollSign → Prop where
  | start : Told name false []
  | next {up up' : Bool} {signs : List PollSign} {x : PollSign} :
    Told name up signs → Turn name up x up' → Told name up' (signs ++ [x])

theorem Told.snoc (h : Told name up' (signs ++ [x])) : ∃ up, Told name up signs ∧ Turn name up x up' := by
  generalize heq : signs ++ [x] = all at h
  cases h with
  | start => simp at heq
  | next h ht =>
    obtain ⟨rfl, hx⟩ := List.append_inj' heq rfl
    cases hx
    exact ⟨_, h, ht⟩

theorem Told.of_append (h : Told name up (xs ++ ys)) : ∃ up', Told name up' xs := by
  induction ys using List.reverseRecOn generalizing up with
  | nil => exact ⟨up, by simpa using h⟩
  | append_singleton ys y ih =>
    rw [← List.append_assoc] at h
    obtain ⟨up₁, h, -⟩ := h.snoc
    exact ih h

theorem Told.count_le (h : Told name up signs) :
    signs.count (.event .disconnected) + up.toNat ≤ signs.count (.event (.connected true)) := by
  induction h with
  | start => simp
  | next _ ht ih =>
    rw [List.count_append, List.count_append]
    cases ht with
    | connected up =>
      have hup := Bool.toNat_le up
      simp
      omega
    | refused up => simpa using ih
    | @quoted e he =>
      have hd : e ≠ .disconnected := fun hd => he (by rw [hd]; rfl)
      have hc : e ≠ .connected true := fun hc => he (by rw [hc]; rfl)
      simpa [hd, hc] using ih
    | lost =>
      simp at ih ⊢
      omega
    | answered _ => simpa using ih

/-- Between an outage and the next connection there are only refusals. -/
theorem Told.after_lost (h : Told name up (xs ++ .event .disconnected :: ys)) (hc : .event (.connected true) ∉ ys) :
    up = false ∧ ∀ x ∈ ys, x = .event (.connected false) ∨ x = .answer (some (.notConnected name)) := by
  induction ys using List.reverseRecOn generalizing up with
  | nil =>
    obtain ⟨_, -, ht⟩ := h.snoc
    cases ht with
    | quoted he => exact absurd rfl he
    | lost => exact ⟨rfl, nofun⟩
  | append_singleton ys y ih =>
    rw [← List.cons_append, ← List.append_assoc] at h
    obtain ⟨up₁, h, ht⟩ := h.snoc
    obtain ⟨rfl, hquiet⟩ := ih h fun hm => hc (List.mem_append_left _ hm)
    have hlast : up = false ∧ (y = .event (.connected false) ∨ y = .answer (some (.notConnected name))) := by
      cases ht with
      | connected _ => exact absurd (List.mem_append_right ys List.mem_cons_self) hc
      | refused _ => exact ⟨rfl, Or.inl rfl⟩
      | answered ha => exact ⟨rfl, Or.inr (by rw [ha rfl])⟩
    refine ⟨hlast.1, fun x hx => ?_⟩
    rcases List.mem_append.1 hx with hx | hx
    · exact hquiet x hx
    · rw [List.mem_singleton.1 hx]
      exact hlast.2

/-! ## The invariant -/

/-- What holds between any two steps. -/
structure Kept (name : String) (s : PollingRun) : Prop where
  sound : s.venue.Sound
  owns : ∀ t ∈ s.tasks, s.venue.Owns t
  platform : s.venue.platform = name
  /-- There is a token only while the last that was heard of the connection is that it was made. -/
  told : ∃ up, Told name up s.signs ∧ (s.venue.token ≠ none → up = true)

theorem kept_start {v : PollingVenue} (h : PollingVenue.ofSettings zone p = .ok v) : Kept p.name (start v) := by
  cases hb : p.resolvedBaseUrl with
  | error f =>
    rw [PollingVenue.ofSettings, hb] at h
    cases h
  | ok url =>
    rw [PollingVenue.ofSettings, hb] at h
    cases h
    exact ⟨⟨List.nodup_nil, fun _ => rfl, nofun, nofun⟩, nofun, rfl, false, .start, fun hn => absurd rfl hn⟩

theorem Kept.reset (h : s.Kept name) (n : Nat) : Kept name { s with venue := s.venue.reset, logins := n } where
  sound := sound_reset s.venue s.venue.disconnecting
  owns t ht := (h.owns t ht).reset s.venue.disconnecting
  platform := h.platform
  told := by
    obtain ⟨up, htold, -⟩ := h.told
    exact ⟨up, htold, fun hn => absurd rfl hn⟩

theorem Kept.login (h : s.Kept name) (n : Nat) (login : Except LoginFailure String) :
    Kept name { s with venue := (s.venue.loggedIn login).2, logins := n,
                       signs := s.signs ++ (s.venue.loggedIn login).1.map .event } where
  sound := h.sound.loggedIn login
  owns t ht := (h.owns t ht).loggedIn login
  platform := by cases login <;> exact h.platform
  told := by
    obtain ⟨up, htold, hup⟩ := h.told
    cases login with
    | ok token => exact ⟨true, htold.next (.connected up), fun _ => rfl⟩
    | error f => exact ⟨up, htold.next (.refused up), hup⟩

theorem Kept.subscribe (h : s.Kept name) (i : String) :
    Kept name { s with venue := (s.venue.subscribe i).2, tasks := started (s.venue.subscribe i).1 ++ s.tasks,
                       signs := s.signs ++ [.answer (refusal (s.venue.subscribe i).1)] } where
  sound := h.sound.subscribe i
  owns t ht := by
    rcases List.mem_append.1 ht with ht | ht
    · cases ha : (s.venue.subscribe i).1 with
      | error f =>
        rw [ha] at ht
        cases ht
      | ok o =>
        rw [ha] at ht
        cases o with
        | none => cases ht
        | some u =>
          rw [List.mem_singleton.1 ht]
          exact owns_subscribed ha
    · exact (h.owns t ht).subscribe i
  platform := (platform_subscribe s.venue i).trans h.platform
  told := by
    obtain ⟨up, htold, hup⟩ := h.told
    refine ⟨up, htold.next (.answered fun hdown => ?_), fun hn => hup (token_subscribe s.venue i ▸ hn)⟩
    have hnone : s.venue.token = none := by
      by_contra hn
      rw [hup hn] at hdown
      cases hdown
    rw [subscribe_refused hnone, ← h.platform]
    rfl

theorem Kept.unsubscribe (h : s.Kept name) (i : String) : Kept name { s with venue := s.venue.unsubscribe i } where
  sound := h.sound.unsubscribe i
  owns t ht := h.sound.owns_unsubscribe (h.owns t ht) i
  platform := (platform_unsubscribe s.venue i).trans h.platform
  told := by
    obtain ⟨up, htold, hup⟩ := h.told
    exact ⟨up, htold, fun hn => hup (token_unsubscribe s.venue i ▸ hn)⟩

theorem Kept.settle (h : s.Kept name) {t : PollTask} (ht : t ∈ s.tasks) (r : PollResult) :
    Kept name { s with venue := (s.venue.settle t r).2.2, tasks := (s.venue.settle t r).2.1.toList ++ s.tasks.erase t,
                       signs := s.signs ++ (s.venue.settle t r).1.map .event } := by
  have hsettled := h.sound.settle (h.owns t ht) r
  refine ⟨hsettled.sound, fun u hu => ?_, hsettled.platform.trans h.platform, ?_⟩
  · rcases List.mem_append.1 hu with hu | hu
    · exact hsettled.next_owns u (Option.mem_toList.1 hu)
    · exact hsettled.owns u (h.owns u (List.mem_of_mem_erase hu))
  · obtain ⟨up, htold, hup⟩ := h.told
    dsimp only
    rcases hsettled.events with ⟨hes, htoken⟩ | ⟨e, hes, hquote, htoken⟩ | ⟨hes, htoken, hnone⟩
    · rw [hes, List.map_nil, List.append_nil]
      exact ⟨up, htold, fun hn => hup (htoken hn)⟩
    · rw [hes]
      obtain rfl := hup htoken
      exact ⟨true, htold.next (.quoted hquote), fun _ => rfl⟩
    · rw [hes]
      obtain rfl := hup htoken
      exact ⟨false, htold.next .lost, fun hn => absurd hnone hn⟩

/-- Whatever comes next keeps the invariant. -/
theorem Kept.step (h : s.Kept name) (hs : s.Step s') : s'.Kept name := by
  cases hs with
  | connect => exact h.reset _
  | login l _ => exact h.login _ l
  | subscribe i => exact h.subscribe i
  | unsubscribe i => exact h.unsubscribe i
  | disconnect => exact h.reset _
  | settle r ht => exact h.settle ht r

/-- No step makes a task lose its job without cancelling it. -/
theorem Kept.owns_step (h : s.Kept name) (hs : s.Step s') {t : PollTask} (ht : s.venue.Owns t) : s'.venue.Owns t := by
  cases hs with
  | connect => exact ht.reset s.venue.disconnecting
  | login l _ => exact ht.loggedIn l
  | subscribe i => exact ht.subscribe i
  | unsubscribe i => exact h.sound.owns_unsubscribe ht i
  | disconnect => exact ht.reset s.venue.disconnecting
  | settle r hu => exact (h.sound.settle (h.owns _ hu) r).owns t ht

theorem Reachable.kept (h : Reachable zone p s) : s.Kept p.name := by
  induction h with
  | start hv => exact kept_start hv
  | step _ hs ih => exact ih.step hs

/-! ## Outages -/

/-- **An outage is reported once.** However calls, replies to logins and results of polls follow each
other: without a token there are no jobs, and only the quotes of subscribed instruments are marked; the
flag of an outage is up only while there is no token, so a job that reaches its limit takes the platform
down; outages are never more than connections, there is a connection between any two of them, and from
an outage until the next connection no quote is reported and every subscribe is refused. -/
theorem reachable_outages (h : Reachable zone p s) :
    (s.venue.token = none → s.venue.jobs = [] ∧ ∀ t ∈ s.tasks, t.mark ∈ s.venue.cancelled) ∧
    (∀ i ∈ s.venue.seen, i ∈ s.venue.subscribed) ∧
    (s.venue.disconnecting = true → s.venue.token = none) ∧
    (∀ t ∈ s.tasks, t.mark ∉ s.venue.cancelled → s.venue.maxFailures ≤ t.failures + 1 →
      s.venue.settle t .failed = ([.disconnected], none, { s.venue.reset with disconnecting := true })) ∧
    s.signs.count (.event .disconnected) ≤ s.signs.count (.event (.connected true)) ∧
    (∀ xs ys zs, s.signs = xs ++ .event .disconnected :: (ys ++ .event .disconnected :: zs) →
      .event (.connected true) ∈ ys) ∧
    ∀ xs ys zs, s.signs = xs ++ .event .disconnected :: (ys ++ zs) → .event (.connected true) ∉ ys →
      (∀ e, .event e ∈ ys → e = .connected false) ∧ ∀ a, .answer a ∈ ys → a = some (.notConnected p.name) := by
  have hkept := h.kept
  obtain ⟨up, htold, -⟩ := hkept.told
  have hquiet : ∀ xs ys zs, s.signs = xs ++ .event .disconnected :: (ys ++ zs) → .event (.connected true) ∉ ys →
      ∀ x ∈ ys, x = .event (.connected false) ∨ x = .answer (some (.notConnected p.name)) := by
    intro xs ys zs heq hc
    rw [heq, ← List.cons_append, ← List.append_assoc] at htold
    obtain ⟨up₁, htold⟩ := htold.of_append
    exact (htold.after_lost hc).2
  refine ⟨fun hnone => ⟨hkept.sound.idle hnone, fun t ht => ?_⟩, fun i hi => ?_, hkept.sound.down,
    fun t ht hc hlimit => hkept.sound.settle_down (hkept.owns t ht) hc hlimit,
    Nat.le_trans (Nat.le_add_right _ _) htold.count_le, fun xs ys zs heq => ?_, fun xs ys zs heq hc => ⟨fun e he => ?_,
    fun a ha => ?_⟩⟩
  · by_contra hc
    exact (hkept.sound.up (hkept.owns t ht) hc).1 hnone
  · exact List.mem_mergeSort.2 (hkept.sound.seen i hi)
  · by_contra hc
    have hlast : PollSign.event .disconnected ∈ ys ++ [.event .disconnected] := List.mem_append_right _ List.mem_cons_self
    have hall := hquiet xs (ys ++ [.event .disconnected]) zs (by simpa using heq) (by simpa using hc) _ hlast
    simp at hall
  · simpa using hquiet xs ys zs heq hc _ he
  · simpa using hquiet xs ys zs heq hc _ ha

/-- A polled platform that goes down with the first failure. -/
def brittle : PlatformSettings where
  name := "REST"
  kind := PollingVenue.kindName
  host := none
  port := none
  baseUrl := some "http://localhost:8082"
  username := "desk"
  password := "desk"
  instruments := ["USDTRY"]
  pollIntervalMs := PlatformSettings.defaultPollIntervalMs
  readTimeoutSecs := PlatformSettings.defaultReadTimeoutSecs
  maxPollFailures := 1

theorem reachable_outages_refused :
    ∃ s a, Reachable .utc brittle s ∧
      s.signs = [.event (.connected true), .answer none, .event .disconnected, .answer a] ∧
      a = some (.notConnected "REST") := by
  have hstart : Reachable .utc brittle _ := .start rfl
  have hup := (hstart.step .connect).step (.login (.ok "key") rfl)
  have hpoll := hup.step (.subscribe "USDTRY")
  have hdown := hpoll.step (@Step.settle _ ⟨1, "USDTRY", "key", 0⟩ .failed List.mem_cons_self)
  obtain ⟨s, a, hs, hsigns⟩ : ∃ s a, Reachable .utc brittle s ∧
      s.signs = [.event (.connected true), .answer none, .event .disconnected, .answer a] :=
    ⟨_, _, hdown.step (.subscribe "EURUSD"), rfl⟩
  obtain ⟨-, -, -, -, -, -, hquiet⟩ := reachable_outages hs
  have hrefused := (hquiet [.event (.connected true), .answer none] [.answer a] [] hsigns (by simp)).2
  exact ⟨s, a, hs, hsigns, hrefused a List.mem_cons_self⟩

end PollingRun

end RateDesk
