import RateDesk.Proofs.Coordinator.Station
import RateDesk.Proofs.Venue.Connect

/-!
# What is shown of the subscriptions

The status of a platform repeats the subscriptions of its venue. A streaming venue changes them only where a worker
learns of it. A polled venue drops an instrument that it does not know, and nobody is told.

* `Race.Turn`, `StreamingRun`, `StreamingRun.conduct` : what a streaming venue does of its own accord;
* `PollingRun.Reply`, `PollingRun.conduct` : the same of a polled venue;
* `shown_subscriptions` : what is shown when nothing is under way.
-/

namespace RateDesk

namespace Venue.Turn

variable {subs subs' : List String} {c c' : Call} {e : VenueEvent}

theorem of_eq (hc : c' = c) (hs : subs' = subs) : Venue.Turn subs c [] [] c' subs' := by
  subst hc hs
  exact .quiet _

theorem of_quoted (hc : c = .up) (he : e.quote? ≠ none) : Venue.Turn subs c [e] [] c subs := by
  subst hc
  exact .quoted he

theorem of_dropped {i : String} (hc : c = .up) (hc' : c' = .up) (hi : i ∈ subs) (hs : subs' = subs.filter (· ≠ i)) :
    Venue.Turn subs c [] [i] c' subs' := by
  subst hc hc' hs
  exact .dropped hi

theorem of_answered (ok : Bool) (hc : c = .dialing) (hc' : c' = if ok then .up else .over) :
    Venue.Turn subs c [.connected ok] [] c' subs' := by
  subst hc hc'
  exact .answered ok _

theorem of_lost (hc : c = .up) (hc' : c' = .over) : Venue.Turn subs c [.disconnected] [] c' subs' := by
  subst hc hc'
  exact .lost _

end Venue.Turn

/-! ## Streaming venues -/

/-- What happens at a streaming venue of its own accord: a connect that is under way goes on, or a reader does
something. -/
inductive Race.Turn (s : Race) : Race → Prop where
  | connect {s' : Race} : s.connecting ≠ .idle → s.Step s' → s'.connecting ≠ s.connecting → Turn s s'
  | ends {id : Nat} {s' : Race} : s.Ends id s' → Turn s s'
  | abort {id : Nat} : s.readers id = .reading → id ∈ s.venue.claimed → Turn s { s with readers := s.move id .over }
  | line {id : Nat} (l : List Char) : s.readers id = .reading →
    Turn s { s with venue := (s.venue.handleLine l).2,
                    events := s.events ++ Race.tagged (some id) (s.venue.handleLine l).1 }

/-- A streaming venue with its connects and its readers. -/
structure StreamingRun where
  race : Race
  /-- Why the next commands cannot be written, if they cannot. -/
  breaks : List (Option String)

namespace StreamingRun

instance : Venue StreamingRun where
  kind _ := StreamingVenue.kindName
  connect s := ([], { s with race := { s.race.take with connecting := .took s.race.venue.session } })
  subscribe i s :=
    let (r, v) := s.race.venue.subscribe i s.breaks.head?.join
    (r, ⟨{ s.race with venue := v }, s.breaks.tail⟩)
  unsubscribe i s :=
    let (r, v) := s.race.venue.unsubscribe i s.breaks.head?.join
    (r, ⟨{ s.race with venue := v }, s.breaks.tail⟩)
  disconnect s := { s with race := { s.race with venue := s.race.venue.disconnect } }
  subscriptions s := s.race.venue.subscribed

end StreamingRun

namespace Race

open StreamingVenue

variable {s s' : Race} {id : Nat}

theorem Turn.step (h : s.Turn s') : s.Step s' := by
  cases h with
  | connect _ hs _ => exact hs
  | ends he => exact .ends he
  | abort hr hc => exact .abort hr hc
  | line l hr => exact .line l hr

def call (s : Race) : Call :=
  match s.connecting with
  | .idle => if s.venue.session.isSome then .up else .over
  | _ => .dialing

/-- Without a session there are no subscriptions. -/
def Bare (s : Race) : Prop := s.venue.session = none → s.venue.subscriptions = []

theorem call_of_session (h : s.Kept) (hsession : s.venue.session ≠ none) : s.call = .up := by
  have hidle : s.connecting = .idle := by
    by_contra hc
    exact hsession (h.empty hc)
  simp [call, hidle, Option.isSome_iff_ne_none.2 hsession]

theorem idle_of_over (h : s.call = .over) : s.connecting = .idle ∧ s.venue.session = none := by
  unfold call at h
  split at h
  · rename_i hidle
    split at h
    · cases h
    · rename_i hnone
      exact ⟨hidle, by simpa using hnone⟩
  · cases h

theorem call_of_idle (hidle : s.connecting = .idle) (hnone : s.venue.session = none) : s.call = .over := by
  simp [call, hidle, hnone]

theorem call_of_connecting (hc : s.connecting ≠ .idle) : s.call = .dialing := by
  unfold call
  split
  · exact absurd ‹_› hc
  · rfl

/-- A line comes to nothing, or it is a quote for something that is subscribed. -/
theorem handleLine_cases (v : StreamingVenue) (l : List Char) :
    v.handleLine l = ([], v) ∨
      ∃ e seen, v.handleLine l = ([e], { v with seen := seen }) ∧ e.quote? ≠ none ∧ v.subscriptions ≠ [] := by
  unfold handleLine
  split
  · dsimp only
    split
    · rename_i h
      refine Or.inr ?_
      have hne : v.subscriptions ≠ [] := List.ne_nil_of_mem h.2
      unfold StreamingVenue.report
      split
      · exact ⟨_, v.seen, rfl, nofun, hne⟩
      · exact ⟨_, _, rfl, nofun, hne⟩
    · exact Or.inl rfl
  · exact Or.inl rfl

structure Conducts (s s' : Race) (es : List VenueEvent) : Prop where
  events : s'.events.map Prod.snd = s.events.map Prod.snd ++ es
  bare : s'.Bare
  turn : Venue.Turn s.venue.subscribed s.call es [] s'.call s'.venue.subscribed

/-- As long as session and subscriptions stay, nothing is to be told. -/
theorem Conducts.of_same (hbare : s.Bare) (hevents : s'.events = s.events) (hcall : s'.call = s.call)
    (hsession : s'.venue.session = s.venue.session) (hsubs : s'.venue.subscriptions = s.venue.subscriptions) :
    s.Conducts s' [] where
  events := by rw [hevents, List.append_nil]
  bare hnone := hsubs.trans (hbare (hsession.symm.trans hnone))
  turn := .of_eq hcall (by rw [subscribed, subscribed, hsubs])

theorem subscriptions_claim (v : StreamingVenue) (id : Nat) : (v.claim id).2.subscriptions = v.subscriptions := by
  obtain ⟨claimed, hclaim⟩ := v.claim_snd id
  rw [hclaim]

theorem subscriptions_parted (v : StreamingVenue) (x : Option StreamSession) :
    (v.parted x).subscriptions = v.subscriptions ∧ (v.parted x).session = v.session := by
  cases x with
  | none => exact ⟨rfl, rfl⟩
  | some x => exact ⟨subscriptions_claim v x.id, session_claim v x.id⟩

theorem subscriptions_opened (v : StreamingVenue) (d : Dial) : (v.opened d).subscriptions = v.subscriptions := by
  unfold opened
  split <;> rfl

/-- A connect that goes on tells of its end, and nothing else. -/
theorem conducts_connect (hk : s.Kept) (hbare : s.Bare) (hc : s.connecting ≠ .idle) (hs : s.Step s')
    (hne : s'.connecting ≠ s.connecting) : ∃ es, s.Conducts s' es := by
  have hnone := hk.empty hc
  have hcall := call_of_connecting hc
  cases hs with
  | take hidle => exact absurd hidle hc
  | part hx =>
    obtain ⟨hsubs, hsession⟩ := subscriptions_parted s.venue _
    exact ⟨[], .of_same hbare rfl (hcall.symm ▸ call_of_connecting (by simp)) hsession hsubs⟩
  | clear _ => exact ⟨[], .of_same hbare rfl (hcall.symm ▸ call_of_connecting (by simp)) rfl (hbare hnone).symm⟩
  | greet _ _ =>
    exact ⟨[], .of_same hbare rfl (hcall.symm ▸ call_of_connecting (by simp)) (session_opened ..)
      (subscriptions_opened ..)⟩
  | @refuse d f _ _ =>
    have hnone' : (s.venue.opened d).session = none := (session_opened ..).trans hnone
    exact ⟨[.connected false], by simp [tagged], fun _ => (subscriptions_opened ..).trans (hbare hnone),
      .of_answered false hcall (call_of_idle rfl hnone')⟩
  | store _ =>
    exact ⟨[.connected true], by simp [tagged, StreamingVenue.store], by simp [Bare, StreamingVenue.store], .of_answered true hcall rfl⟩
  | closeTake => exact absurd rfl hne
  | closePart _ => exact absurd rfl hne
  | closeClear _ => exact absurd rfl hne
  | ends he => cases he <;> exact absurd rfl hne
  | abort _ _ => exact absurd rfl hne
  | line _ _ => exact absurd rfl hne
  | subscribe _ _ => exact absurd rfl hne
  | unsubscribe _ _ => exact absurd rfl hne

theorem conducts_ends (hk : s.Kept) (hbare : s.Bare) (he : s.Ends id s') : ∃ es, s.Conducts s' es := by
  cases he with
  | claim _ =>
    have hsession := session_claim s.venue id
    exact ⟨[], .of_same hbare rfl (by simp only [call, hsession]) hsession (subscriptions_claim s.venue id)⟩
  | report _ =>
    by_cases hstored : s.venue.sessionId? = some id
    · have hsession : s.venue.session ≠ none := by
        rintro hnone
        rw [sessionId?, hnone] at hstored
        cases hstored
      have hup := call_of_session hk hsession
      have hidle : s.connecting = .idle := by
        by_contra hc
        exact hsession (hk.empty hc)
      rw [reportEnd_stored hstored]
      exact ⟨[.disconnected], by simp [tagged], fun _ => rfl, .of_lost hup (call_of_idle hidle rfl)⟩
    · rw [reportEnd_stale hstored]
      exact ⟨[], .of_same hbare (by simp [tagged]) rfl rfl rfl⟩

/-- Whatever happens at a streaming venue of its own accord, its worker is told. -/
theorem Turn.conducts (h : s.Turn s') (hk : s.Kept) (hbare : s.Bare) : ∃ es, s.Conducts s' es := by
  cases h with
  | connect hc hs hne => exact conducts_connect hk hbare hc hs hne
  | ends he => exact conducts_ends hk hbare he
  | abort _ _ => exact ⟨[], .of_same hbare rfl rfl rfl rfl⟩
  | line l _ =>
    obtain hline | ⟨e, seen, hline, hquote, hne⟩ := handleLine_cases s.venue l
    · rw [hline]
      exact ⟨[], .of_same hbare (by simp [tagged]) rfl rfl rfl⟩
    · have hup := call_of_session hk (mt hbare hne)
      rw [hline]
      exact ⟨[e], by simp [tagged], hbare, .of_quoted hup hquote⟩

end Race

namespace StreamingRun

open StreamingVenue

/-- What holds of a streaming venue at any time. -/
structure Sound (s : StreamingRun) : Prop where
  kept : s.race.Kept
  bare : s.race.Bare

theorem bare_subscribe {s : Race} (h : s.Bare) (i : String) (broken : Option String) :
    Race.Bare { s with venue := (s.venue.subscribe i broken).2 } := by
  intro hnone
  have hsession := (keeps_subscribe s.venue i broken).session.symm.trans hnone
  rw [subscribe_refused hsession (h hsession)]
  exact h hsession

theorem bare_unsubscribe {s : Race} (h : s.Bare) (i : String) (broken : Option String) :
    Race.Bare { s with venue := (s.venue.unsubscribe i broken).2 } := by
  intro hnone
  have hsubs := h ((keeps_unsubscribe s.venue i broken).session.symm.trans hnone)
  simp [StreamingVenue.unsubscribe, hsubs]

theorem call_keeps {s : Race} {v : StreamingVenue} (h : s.venue.Keeps v) :
    Race.call { s with venue := v } = s.call := by
  simp only [Race.call, h.session]

def conduct : Conduct StreamingRun where
  Sound := Sound
  call s := s.race.call
  Turns s es gone s' := gone = [] ∧ s.race.Turn s'.race ∧
    s'.race.events.map Prod.snd = s.race.events.map Prod.snd ++ es
  connect s h hover := by
    obtain ⟨hidle, hnone⟩ := Race.idle_of_over hover
    exact ⟨rfl, ⟨h.kept.step (.take hidle), fun _ => h.bare hnone⟩, rfl⟩
  subscribe i s h := ⟨⟨h.kept.step (.subscribe i _), bare_subscribe h.bare i _⟩, call_keeps (keeps_subscribe ..)⟩
  unsubscribe i s h :=
    ⟨⟨h.kept.step (.unsubscribe i _), bare_unsubscribe h.bare i _⟩, call_keeps (keeps_unsubscribe ..)⟩
  turn s es gone s' h ht := by
    obtain ⟨rfl, hturn, hevents⟩ := ht
    obtain ⟨es', hconducts⟩ := hturn.conducts h.kept h.bare
    obtain rfl : es' = es := List.append_cancel_left (hconducts.events.symm.trans hevents)
    exact ⟨⟨h.kept.step hturn.step, hconducts.bare⟩, hconducts.turn⟩

end StreamingRun

/-! ## Polled venues -/

namespace PollingVenue

variable {v : PollingVenue} {t : PollTask}

/-- Sorting and leaving some out can be done in either order. -/
theorem mergeSort_filter (f : String → Bool) (is : List String) :
    (is.filter f).mergeSort (fun a b => decide (a ≤ b)) = (is.mergeSort fun a b => decide (a ≤ b)).filter f := by
  have hsorted (js : List String) :
      (js.mergeSort fun a b => decide (a ≤ b)).Pairwise fun a b => decide (a ≤ b) = true := by
    refine List.pairwise_mergeSort (fun a b c hab hbc => ?_) (fun a b => ?_) js
    · simp only [decide_eq_true_eq] at hab hbc ⊢
      exact String.le_trans hab hbc
    · simpa using String.le_total a b
  refine List.Perm.eq_of_pairwise (fun a b _ _ hab hba => ?_) (hsorted _) ((hsorted is).filter f) ?_
  · simp only [decide_eq_true_eq] at hab hba
    exact String.le_antisymm hab hba
  · exact (List.mergeSort_perm _ _).trans ((List.mergeSort_perm is _).filter f).symm

/-- A job that ends by itself takes its instrument along. -/
theorem Sound.subscribed_retire (h : v.Sound) (ht : v.Owns t) (hc : t.mark ∉ v.cancelled) :
    (v.retire t).subscribed = v.subscribed.filter (· ≠ t.instrument) ∧ t.instrument ∈ v.subscribed := by
  constructor
  · rw [subscribed, subscribed, ← mergeSort_filter, PollingVenue.retire, if_pos (h.lookup ht hc), List.filter_map]
    rfl
  · exact List.mem_mergeSort.2 (List.mem_map_of_mem (f := Prod.fst) (ht.job hc))

end PollingVenue

namespace PollingRun

open PollingVenue

variable {s s' : PollingRun} {name : String}

/-- The instruments that a venue drops unasked when a poll has a result: that of a job that goes on, if the venue
does not know it. -/
def dropped (s : PollingRun) (t : PollTask) (r : PollResult) : List String :=
  if r = .notOffered ∧ t.mark ∉ s.venue.cancelled then [t.instrument] else []

/-- What happens at a polled venue of its own accord: the login has a result, or a poll. -/
inductive Reply (s : PollingRun) : List VenueEvent → List String → PollingRun → Prop where
  | login {n : Nat} (login : Except LoginFailure String) : s.logins = n + 1 →
    Reply s (s.venue.loggedIn login).1 []
      { s with venue := (s.venue.loggedIn login).2, logins := n,
               signs := s.signs ++ (s.venue.loggedIn login).1.map .event }
  | poll {t : PollTask} (r : PollResult) : t ∈ s.tasks →
    Reply s (s.venue.settle t r).1 (s.dropped t r)
      { s with venue := (s.venue.settle t r).2.2, tasks := (s.venue.settle t r).2.1.toList ++ s.tasks.erase t,
               signs := s.signs ++ (s.venue.settle t r).1.map .event }

instance : Venue PollingRun where
  kind _ := PollingVenue.kindName
  connect s := ([], { s with venue := s.venue.reset, logins := s.logins + 1 })
  subscribe i s :=
    ((s.venue.subscribe i).1.map fun _ => (),
      { s with venue := (s.venue.subscribe i).2, tasks := started (s.venue.subscribe i).1 ++ s.tasks,
               signs := s.signs ++ [.answer (refusal (s.venue.subscribe i).1)] })
  unsubscribe i s := (.ok (), { s with venue := s.venue.unsubscribe i })
  disconnect s := { s with venue := s.venue.disconnect }
  subscriptions s := s.venue.subscribed

def call (s : PollingRun) : Call :=
  if s.logins = 0 then if s.venue.token.isSome then .up else .over else .dialing

/-- What holds of a polled venue with a single worker at any time. -/
structure Sound (name : String) (s : PollingRun) : Prop where
  kept : s.Kept name
  single : s.logins ≤ 1
  tokenless : s.logins = 1 → s.venue.token = none

theorem Reply.step {es : List VenueEvent} {gone : List String} (h : s.Reply es gone s') : s.Step s' := by
  cases h with
  | login l hn => exact .login l hn
  | poll r ht => exact .settle r ht

theorem call_congr (hlogins : s'.logins = s.logins) (htoken : s'.venue.token = s.venue.token) : s'.call = s.call := by
  rw [call, call, hlogins, htoken]

/-- A poll of a job that goes on finds the venue connected. -/
theorem Sound.up (h : s.Sound name) {t : PollTask} (ht : t ∈ s.tasks) (hc : t.mark ∉ s.venue.cancelled) :
    s.logins = 0 ∧ s.call = .up := by
  have htoken := (h.kept.sound.up (h.kept.owns t ht) hc).1
  have hzero : s.logins = 0 := by
    have hone : s.logins ≠ 1 := fun hone => htoken (h.tokenless hone)
    have hle := h.single
    omega
  exact ⟨hzero, by rw [call, if_pos hzero, if_pos (Option.isSome_iff_ne_none.2 htoken)]⟩

theorem Sound.login (h : s.Sound name) {n : Nat} (login : Except LoginFailure String) (hn : s.logins = n + 1) :
    let s' : PollingRun := { s with venue := (s.venue.loggedIn login).2, logins := n,
                                    signs := s.signs ++ (s.venue.loggedIn login).1.map .event }
    s'.Sound name ∧
      Venue.Turn s.venue.subscribed s.call (s.venue.loggedIn login).1 [] s'.call s'.venue.subscribed := by
  have hzero : n = 0 := by
    have hle := h.single
    omega
  have hnone := h.tokenless (by omega)
  have hdialing : s.call = .dialing := by rw [call, if_neg (by omega)]
  have hkept := h.kept.step (.login login hn)
  subst hzero
  refine ⟨⟨hkept, Nat.zero_le 1, nofun⟩, ?_⟩
  cases login with
  | ok token => exact .of_answered true hdialing rfl
  | error f => exact .of_answered false hdialing (by simp [call, loggedIn, hnone])

/-- When a poll has a result the worker is told, unless the venue does not know the instrument. -/
theorem Sound.poll (h : s.Sound name) {t : PollTask} (r : PollResult) (ht : t ∈ s.tasks) :
    let s' : PollingRun := { s with venue := (s.venue.settle t r).2.2,
                                    tasks := (s.venue.settle t r).2.1.toList ++ s.tasks.erase t,
                                    signs := s.signs ++ (s.venue.settle t r).1.map .event }
    s'.Sound name ∧
      Venue.Turn s.venue.subscribed s.call (s.venue.settle t r).1 (s.dropped t r) s'.call s'.venue.subscribed := by
  have hkept := h.kept.step (.settle r ht)
  have howns := h.kept.owns t ht
  by_cases hc : t.mark ∈ s.venue.cancelled
  · have hnone : s.dropped t r = [] := by simp [dropped, hc]
    rw [settle_cancelled hc] at hkept ⊢
    rw [hnone]
    exact ⟨⟨hkept, h.single, h.tokenless⟩, .of_eq rfl rfl⟩
  · obtain ⟨hzero, hup⟩ := h.up ht hc
    refine ⟨⟨hkept, h.single, fun hone => by dsimp only at hone; omega⟩, ?_⟩
    cases r with
    | quote r =>
      obtain ⟨e, seen, hreport, hquote, -⟩ := s.venue.report_eq t.instrument r
      rw [settle_quote hc, hreport]
      exact .of_quoted hup hquote
    | notOffered =>
      obtain ⟨hsubs, hmem⟩ := h.kept.sound.subscribed_retire howns hc
      have hdropped : s.dropped t .notOffered = [t.instrument] := by simp [dropped, hc]
      rw [settle_notOffered hc, hdropped]
      exact .of_dropped hup hup hmem hsubs
    | malformed =>
      rw [settle_malformed hc]
      exact .of_eq rfl rfl
    | failed =>
      by_cases hlimit : s.venue.maxFailures ≤ t.failures + 1
      · rw [h.kept.sound.settle_down howns hc hlimit]
        exact .of_lost hup (by simp [call, hzero, reset])
      · rw [settle_failed hc hlimit]
        exact .of_eq rfl rfl

def conduct (name : String) : Conduct PollingRun where
  Sound := Sound name
  call := call
  Turns := Reply
  connect s h hover := by
    have hzero : s.logins = 0 := by
      by_contra hne
      rw [call, if_neg hne] at hover
      cases hover
    refine ⟨rfl, ⟨h.kept.step .connect, ?_, fun _ => rfl⟩, ?_⟩
    · exact Nat.le_of_eq (congrArg (· + 1) hzero)
    · exact if_neg (Nat.succ_ne_zero _)
  subscribe i s h :=
    ⟨⟨h.kept.step (.subscribe i), h.single, fun hone => (token_subscribe s.venue i).trans (h.tokenless hone)⟩,
      call_congr rfl (token_subscribe s.venue i)⟩
  unsubscribe i s h :=
    ⟨⟨h.kept.step (.unsubscribe i), h.single, fun hone => (token_unsubscribe s.venue i).trans (h.tokenless hone)⟩,
      call_congr rfl (token_unsubscribe s.venue i)⟩
  turn s es gone s' h ht := by
    cases ht with
    | login l hn => exact h.login l hn
    | poll r ht => exact h.poll r ht

end PollingRun

/-! ## Both -/

theorem StreamingRun.sound_start {zone : Time.Zone} {x : PlatformSettings} {v : StreamingVenue}
    (h : StreamingVenue.ofSettings zone x = .ok v) (breaks : List (Option String)) :
    Sound ⟨.start v, breaks⟩ ∧ Race.call (.start v) = .over ∧ v.subscribed = [] := by
  have hkept := Race.kept_start h
  cases ha : x.socketAddress with
  | error f =>
    rw [StreamingVenue.ofSettings, ha] at h
    cases h
  | ok a =>
    rw [StreamingVenue.ofSettings, ha] at h
    cases h
    exact ⟨⟨hkept, fun _ => rfl⟩, rfl, by simp [StreamingVenue.subscribed]⟩

theorem PollingRun.sound_start {zone : Time.Zone} {x : PlatformSettings} {v : PollingVenue}
    (h : PollingVenue.ofSettings zone x = .ok v) :
    Sound x.name (start v) ∧ (start v).call = .over ∧ v.subscribed = [] := by
  have hkept := kept_start h
  cases hb : x.resolvedBaseUrl with
  | error f =>
    rw [PollingVenue.ofSettings, hb] at h
    cases h
  | ok url =>
    rw [PollingVenue.ofSettings, hb] at h
    cases h
    exact ⟨⟨hkept, Nat.zero_le 1, fun hone => absurd hone Nat.zero_ne_one⟩, rfl, by simp [PollingVenue.subscribed]⟩

/-- **What is shown of the subscriptions is what they are, until a polled venue does not know one.** In every run of
a worker with its venue, and whenever the worker lives, has nothing to do and waits for nothing: for a streaming
venue the status shows its subscriptions. For a polled venue it shows those that the venue has and those that it
dropped since, because it did not know the instrument, so it is right exactly if there are none of the latter. -/
theorem shown_subscriptions (zone : Time.Zone) (x : PlatformSettings) (policy : RetrySettings) :
    (∀ v breaks s, StreamingVenue.ofSettings zone x = .ok v →
      Station.Reachable StreamingRun.conduct x policy ⟨.start v, breaks⟩ s → s.Quiet StreamingRun.conduct →
      s.post.status.subscriptions = Venue.subscriptions s.post.venue) ∧
    ∀ v s, PollingVenue.ofSettings zone x = .ok v →
      Station.Reachable (PollingRun.conduct x.name) x policy (.start v) s → s.Quiet (PollingRun.conduct x.name) →
      Venue.subscriptions s.post.venue = s.post.status.subscriptions.filter (· ∉ s.gone) ∧
        (s.post.status.subscriptions = Venue.subscriptions s.post.venue ↔ s.gone = []) := by
  constructor
  · intro v breaks s hv hs hquiet
    obtain ⟨hsound, hcall, hnone⟩ := StreamingRun.sound_start hv breaks
    have hmatches := (hs.kept hsound hcall hnone).matches hquiet
    have hgone := hs.gone_nil fun _ _ _ _ hturn => hturn.1
    simpa [hgone] using hmatches.subscriptions.symm
  · intro v s hv hs hquiet
    obtain ⟨hsound, hcall, hnone⟩ := PollingRun.sound_start hv
    have hmatches := (hs.kept hsound hcall hnone).matches hquiet
    refine ⟨hmatches.subscriptions, fun heq => ?_, fun hgone => ?_⟩
    · refine List.eq_nil_iff_forall_not_mem.2 fun i hi => ?_
      have hmem := hmatches.gone i hi
      rw [heq, hmatches.subscriptions] at hmem
      simpa [hi] using (List.mem_filter.1 hmem).2
    · simpa [hgone] using hmatches.subscriptions.symm

def StreamingRun.fresh : StreamingVenue := ⟨"TCP", "desk", "desk", 60, .utc, none, 0, [], [], [], []⟩

def PollingRun.fresh : PollingVenue :=
  ⟨"REST", "http://localhost:8082", "desk", "desk", .utc, 1, none, [], 0, [], [], false⟩

def Station.empty : Shared := ⟨Desk.empty 1800, []⟩

theorem StreamingRun.reachable_subscribed :
    ∃ s, Station.Reachable conduct Race.steady .standard ⟨.start fresh, []⟩ s ∧ s.Quiet conduct ∧
      Venue.subscriptions s.post.venue = ["USDTRY"] := by
  have hgreet : Dial.outcome .utc (.greeted "SUCCESS|CONNECTED".toList) = .ok () := rfl
  have hstart : Station.Reachable conduct Race.steady .standard ⟨.start fresh, []⟩ _ := .start ⟨0, 0⟩
  obtain ⟨g, hbegun⟩ := hstart.deed (a := .begin) .standard ⟨0, ⟨0, 0⟩⟩ Station.empty rfl
  have hparted := (hbegun.step (.dial rfl)).step (.turn (v := ⟨_, []⟩) ⟨rfl, .connect nofun (.part rfl) nofun, rfl⟩)
  have hcleared := hparted.step (.turn (v := ⟨_, []⟩) ⟨rfl, .connect nofun (.clear rfl) nofun, rfl⟩)
  have hgreeted := hcleared.step (.turn (v := ⟨_, []⟩) ⟨rfl, .connect nofun (.greet rfl hgreet) nofun, rfl⟩)
  have hstored := hgreeted.step (.turn (v := ⟨_, []⟩) ⟨rfl, .connect nofun (.store rfl) nofun, rfl⟩)
  obtain ⟨g', hsubscribed⟩ := hstored.deed (a := .handle) .standard ⟨1, ⟨0, 0⟩⟩ Station.empty rfl
  exact ⟨_, hsubscribed, ⟨nofun, rfl, rfl, rfl, nofun⟩, List.mergeSort_singleton "USDTRY"⟩

/-- A polled venue does not know the instrument that its worker subscribed, and the worker goes on showing it. -/
theorem PollingRun.reachable_dropped :
    ∃ s, Station.Reachable (conduct "REST") brittle .standard (start fresh) s ∧ s.Quiet (conduct "REST") ∧
      s.post.status.subscriptions = ["USDTRY"] ∧ Venue.subscriptions s.post.venue = [] := by
  have hstart : Station.Reachable (conduct "REST") brittle .standard (start fresh) _ := .start ⟨0, 0⟩
  obtain ⟨g, hbegun⟩ := hstart.deed (a := .begin) .standard ⟨0, ⟨0, 0⟩⟩ Station.empty rfl
  have hup := (hbegun.step (.dial rfl)).step (.turn (.login (.ok "key") rfl))
  obtain ⟨g', hsubscribed⟩ := hup.deed (a := .handle) .standard ⟨1, ⟨0, 0⟩⟩ Station.empty rfl
  have hdropped := hsubscribed.step (.turn (.poll (t := ⟨1, "USDTRY", "key", 0⟩) .notOffered List.mem_cons_self))
  exact ⟨_, hdropped, ⟨nofun, rfl, rfl, rfl, nofun⟩, List.mergeSort_singleton "USDTRY", List.mergeSort_nil⟩

theorem shown_subscriptions_quiet :
    (∃ s, Station.Reachable StreamingRun.conduct Race.steady .standard ⟨.start StreamingRun.fresh, []⟩ s ∧
      s.post.status.subscriptions = ["USDTRY"]) ∧
    ∃ s, Station.Reachable (PollingRun.conduct "REST") PollingRun.brittle .standard (.start PollingRun.fresh) s ∧
      s.gone ≠ [] := by
  obtain ⟨hstreaming, -⟩ := shown_subscriptions .utc Race.steady .standard
  obtain ⟨-, hpolling⟩ := shown_subscriptions .utc PollingRun.brittle .standard
  constructor
  · obtain ⟨s, hs, hquiet, hsubs⟩ := StreamingRun.reachable_subscribed
    exact ⟨s, hs, (hstreaming _ _ s rfl hs hquiet).trans hsubs⟩
  · obtain ⟨s, hs, hquiet, hshown, hsubs⟩ := PollingRun.reachable_dropped
    refine ⟨s, hs, fun hgone => ?_⟩
    have heq := (hpolling _ s rfl hs hquiet).2.2 hgone
    rw [hshown, hsubs] at heq
    cases heq

/-- What is shown of a polled venue can be wrong for good. -/
theorem shown_subscriptions_stale :
    ¬ ∀ zone x policy v s, PollingVenue.ofSettings zone x = .ok v →
      Station.Reachable (PollingRun.conduct x.name) x policy (.start v) s → s.Quiet (PollingRun.conduct x.name) →
      s.post.status.subscriptions = Venue.subscriptions s.post.venue := by
  intro h
  obtain ⟨s, hs, hquiet, hshown, hsubs⟩ := PollingRun.reachable_dropped
  have heq := h .utc PollingRun.brittle .standard PollingRun.fresh s rfl hs hquiet
  rw [hshown, hsubs] at heq
  cases heq

end RateDesk
