import RateDesk.Proofs.Venue.Life
import RateDesk.Proofs.Venue.Outage

/-!
# Connects

A connect forgets the session before, reports how it went, and leaves a new session or none. Nothing of it
depends on how the venue was left, nor on what the venue answers.

* `StreamingVenue.connect_session`, `connect_idle`, `connect_stale` : what a connect leaves of a streaming venue;
* `Race.Connects` : a connect while readers and other calls go on; `Race.Connects.reports` : it reports once;
* `PollingVenue.Sound.connect_cancelled`, `PollingRun.Connects` : the same of a polled venue;
* `reachable_connects` : both together.
-/

namespace RateDesk

/-! ## Streaming venues -/

namespace StreamingVenue

variable {v : StreamingVenue} {d : Dial} {i : String} {id : Nat}

theorem subscribe_refused (hsession : v.session = none) (hnone : v.subscriptions = []) (i : String)
    (broken : Option String) : v.subscribe i broken = (.error (.notConnected v.platform), v) := by
  have hsame : { v with session := none, subscriptions := [] } = v := by rw [← hsession, ← hnone]
  simp [subscribe, send, hsession, hnone, hsame]

/-- Without subscriptions feed lines come to nothing. -/
theorem handleLine_of_nil (hnone : v.subscriptions = []) (line : List Char) : v.handleLine line = ([], v) := by
  unfold handleLine
  split
  · simp [hnone]
  · rfl

/-- Once its session is not the stored one, a reader that ends leaves its claim and nothing else. -/
theorem readerEnds_stale (h : v.sessionId? ≠ some id) :
    ∃ claimed, v.readerEnds id = ([], { v with claimed := claimed }) := by
  have hsession : (v.claim id).2.sessionId? ≠ some id := by rwa [sessionId?, session_claim]
  unfold readerEnds
  dsimp only
  rw [reportEnd_stale hsession, ite_self]
  obtain ⟨claimed, hclaim⟩ := v.claim_snd id
  exact ⟨claimed, congrArg (Prod.mk []) hclaim⟩

theorem session_closed (v : StreamingVenue) : v.closeSession.session = none := by
  rw [closeSession_eq]
  cases v.session with
  | none => rfl
  | some x => exact session_claim v.take.2 x.id

theorem lastId_closed (v : StreamingVenue) : v.closeSession.lastId = v.lastId := by
  rw [closeSession_eq]
  cases v.session with
  | none => rfl
  | some x => exact lastId_claim v.take.2 x.id

theorem claimed_closed (h : v.sessionId? = some id) : id ∈ v.closeSession.claimed := by
  obtain ⟨x, hx, rfl⟩ := Option.map_eq_some_iff.1 h
  rw [closeSession_eq, hx]
  exact (claimed_claim v.take.2 x.id x.id).2 (Or.inl rfl)

/-- What a connect leaves, apart from the session. -/
theorem connect_idle (v : StreamingVenue) (d : Dial) :
    (v.connect d).2.1 = [.connected (v.connect d).1.isOk] ∧ (v.connect d).2.2.subscriptions = [] ∧
      (v.connect d).2.2.seen = [] ∧ ∀ id, v.sessionId? = some id → id ∈ (v.connect d).2.2.claimed := by
  have hclaimed : ∀ id, v.sessionId? = some id → id ∈ (v.closeSession.reset.opened d).claimed := by
    intro id hid
    rw [claimed_opened]
    exact claimed_closed hid
  have hidle : (v.closeSession.reset.opened d).subscriptions = [] ∧ (v.closeSession.reset.opened d).seen = [] := by
    unfold opened
    split <;> exact ⟨rfl, rfl⟩
  rw [connect_eq]
  split
  · exact ⟨rfl, hidle.1, hidle.2, hclaimed⟩
  · exact ⟨rfl, hidle.1, hidle.2, hclaimed⟩

/-- A connect leaves a session of its own if it succeeds, and none otherwise. -/
theorem connect_session (v : StreamingVenue) (d : Dial) :
    ((v.connect d).1 = .ok () → (v.connect d).2.2.session = some ⟨v.lastId + 1, []⟩) ∧
      ((v.connect d).1 ≠ .ok () → (v.connect d).2.2.session = none) := by
  rw [connect_eq]
  split
  · refine ⟨nofun, fun _ => ?_⟩
    rw [session_opened]
    exact session_closed v
  · rename_i hd
    refine ⟨fun _ => ?_, fun h => absurd rfl h⟩
    have hlast : (v.closeSession.reset.opened d).lastId = v.lastId + 1 :=
      (lastId_opened hd).trans (congrArg (· + 1) (lastId_closed v))
    exact congrArg (fun n => some (StreamSession.mk n [])) hlast

end StreamingVenue

namespace Race

open StreamingVenue

variable {zone : Time.Zone} {p : PlatformSettings} {s t : Race} {id : Nat} {d : Dial}

/-- The session of a connect is not one of those before. -/
theorem Reachable.connect_stale (h : Reachable zone p s) (hid : s.readers id ≠ .absent) :
    (s.venue.connect d).2.2.sessionId? ≠ some id := by
  have hborn := h.kept.born id hid
  obtain ⟨hok, herror⟩ := connect_session s.venue d
  by_cases hd : (s.venue.connect d).1 = .ok ()
  · rw [sessionId?, hok hd]
    simp
    omega
  · simp [sessionId?, herror hd]

/-- A connect from its beginning until it returns, while everything else goes on. -/
inductive Connects (s : Race) : Race → Prop where
  | take : s.connecting = .idle → Connects s { s.take with connecting := .took s.venue.session }
  | next {t t' : Race} : Connects s t → t.connecting ≠ .idle → t.Step t' → Connects s t'

theorem Connects.reachable (h : s.Connects t) (hs : Reachable zone p s) : Reachable zone p t := by
  induction h with
  | take hc => exact hs.step (.take hc)
  | next _ _ hstep ih => exact ih.step hstep

/-- While a connect is under way there is no session, so nothing but quotes is reported until it returns. -/
theorem Kept.underway (h : s.Kept) (hc : s.connecting ≠ .idle) (hs : s.Step t) :
    (t.connecting ≠ .idle ∧ ∃ es, t.events = s.events ++ es ∧ VenueEvent.AreQuotes (es.map Prod.snd)) ∨
      (t.connecting = .idle ∧ ∃ o ok, t.events = s.events ++ [(o, .connected ok)] ∧
        t.venue.sessionId? = if ok then some t.venue.lastId else none) := by
  have hnone := h.empty hc
  have hquiet : t.connecting ≠ .idle → t.events = s.events → t.connecting ≠ .idle ∧
      ∃ es, t.events = s.events ++ es ∧ VenueEvent.AreQuotes (es.map Prod.snd) :=
    fun ht he => ⟨ht, [], by rw [he, List.append_nil], .nil⟩
  cases hs with
  | take hidle => exact absurd hidle hc
  | part _ => exact Or.inl (hquiet (by simp) rfl)
  | clear _ => exact Or.inl (hquiet (by simp) rfl)
  | greet _ _ => exact Or.inl (hquiet (by simp) rfl)
  | refuse _ _ => exact Or.inr ⟨rfl, none, false, rfl, by rw [sessionId?, session_opened, hnone]; rfl⟩
  | store _ => exact Or.inr ⟨rfl, some s.venue.lastId, true, rfl, rfl⟩
  | closeTake => exact Or.inl (hquiet hc rfl)
  | closePart _ => exact Or.inl (hquiet hc rfl)
  | closeClear _ => exact Or.inl (hquiet hc rfl)
  | abort _ _ => exact Or.inl (hquiet hc rfl)
  | subscribe _ _ => exact Or.inl (hquiet hc rfl)
  | unsubscribe _ _ => exact Or.inl (hquiet hc rfl)
  | @line id l _ =>
    refine Or.inl ⟨hc, _, rfl, ?_⟩
    rw [map_snd_tagged]
    exact (keeps_handleLine s.venue l).2
  | @ends id _ he =>
    cases he with
    | claim _ => exact Or.inl (hquiet hc rfl)
    | report _ =>
      have hstale : s.venue.sessionId? ≠ some id := by simp [sessionId?, hnone]
      refine Or.inl (hquiet hc ?_)
      rw [reportEnd_stale hstale]
      exact List.append_nil _

/-- A connect reports how it went when it returns, and before that there are quotes at the most. -/
theorem Connects.reports (h : s.Connects t) (hs : Reachable zone p s) :
    ∃ es, VenueEvent.AreQuotes (es.map Prod.snd) ∧
      ((t.connecting ≠ .idle ∧ t.events = s.events ++ es) ∨
        (t.connecting = .idle ∧ ∃ o ok, t.events = s.events ++ es ++ [(o, .connected ok)] ∧
          t.venue.sessionId? = if ok then some t.venue.lastId else none)) := by
  induction h with
  | take _ => exact ⟨[], .nil, Or.inl ⟨nofun, (List.append_nil _).symm⟩⟩
  | @next t t' ht hc hstep ih =>
    obtain ⟨es, hes, ⟨-, hevents⟩ | ⟨hidle, -⟩⟩ := ih
    · rcases (ht.reachable hs).kept.underway hc hstep with ⟨hc', fs, hfs, hquotes⟩ | ⟨hidle, o, ok, hlast, hsession⟩
      · refine ⟨es ++ fs, ?_, Or.inl ⟨hc', by rw [hfs, hevents, List.append_assoc]⟩⟩
        rw [List.map_append]
        exact fun e he => (List.mem_append.1 he).elim (hes e) (hquotes e)
      · exact ⟨es, hes, Or.inr ⟨hidle, o, ok, by rw [hlast, hevents], hsession⟩⟩
    · exact absurd hidle hc

end Race

/-! ## Polled venues -/

namespace PollingVenue

variable {v : PollingVenue} {t : PollTask}

/-- What a connect leaves, whatever comes of the login. -/
theorem connect_empty (v : PollingVenue) (login : Except LoginFailure String) :
    (v.connect login).2.1 = [.connected (v.connect login).1.isOk] ∧ (v.connect login).2.2.jobs = [] ∧
      (v.connect login).2.2.seen = [] ∧ (v.connect login).2.2.token = login.toOption := by
  cases login <;> exact ⟨rfl, rfl, rfl, rfl⟩

/-- A connect cancels every job. -/
theorem Owns.connect (h : v.Owns t) (login : Except LoginFailure String) :
    t.mark ∈ (v.connect login).2.2.cancelled := by
  have howns := (h.reset v.disconnecting).loggedIn login
  rw [connect_eq]
  refine howns.resolve_right ?_
  cases login <;> nofun

end PollingVenue

namespace PollingRun

open PollingVenue

variable {zone : Time.Zone} {p : PlatformSettings} {s t : PollingRun} {name : String}

/-- A connect from its beginning until it returns, while everything else goes on but another connect. -/
inductive Connects (s : PollingRun) : PollingRun → Prop where
  | reset : s.logins = 0 → Connects s { s with venue := s.venue.reset, logins := s.logins + 1 }
  | next {t t' : PollingRun} : Connects s t → t.logins = 1 → t.Step t' → t'.logins ≤ 1 → Connects s t'

theorem Connects.reachable (h : s.Connects t) (hs : Reachable zone p s) : Reachable zone p t := by
  induction h with
  | reset _ => exact hs.step .connect
  | next _ _ hstep _ ih => exact ih.step hstep

/-- What was reported, without the answers to calls. -/
def reports (s : PollingRun) : List VenueEvent :=
  s.signs.filterMap fun
    | .event e => some e
    | .answer _ => none

theorem reports_event (s : PollingRun) (es : List VenueEvent) :
    ({ s with signs := s.signs ++ es.map .event } : PollingRun).reports = s.reports ++ es := by
  unfold reports
  rw [List.filterMap_append, List.filterMap_map]
  exact congrArg _ List.filterMap_some

theorem reports_answer (s : PollingRun) (a : Option Failure) :
    ({ s with signs := s.signs ++ [.answer a] } : PollingRun).reports = s.reports := by
  simp [reports, List.filterMap_append]

/-- Without a token no task is left that was not cancelled. -/
theorem Kept.cancelled (h : s.Kept name) (hnone : s.venue.token = none) {u : PollTask} (hu : u ∈ s.tasks) :
    u.mark ∈ s.venue.cancelled := by
  by_contra hc
  exact (h.sound.up (h.owns u hu) hc).1 hnone

/-- While a connect waits for its login there is no token, so nothing is reported until it returns. -/
theorem Kept.underway (h : s.Kept name) (hnone : s.venue.token = none) (hl : s.logins = 1) (hs : s.Step t)
    (hone : t.logins ≤ 1) :
    (t.logins = 1 ∧ t.venue.token = none ∧ t.reports = s.reports) ∨
      (t.logins = 0 ∧ t.venue.jobs = [] ∧ t.venue.seen = [] ∧ (∀ u ∈ t.tasks, u.mark ∈ t.venue.cancelled) ∧
        ∃ ok, t.reports = s.reports ++ [.connected ok] ∧ t.venue.token.isSome = ok ∧
          (ok = true → t.venue.disconnecting = false)) := by
  cases hs with
  | connect =>
    dsimp only at hone
    omega
  | @login n login hn =>
    have hjobs : s.venue.jobs = [] := h.sound.idle hnone
    have hseen : s.venue.seen = [] := by
      refine List.eq_nil_iff_forall_not_mem.2 fun i hi => ?_
      have hjob := h.sound.seen i hi
      rw [hjobs] at hjob
      cases hjob
    have hcancelled := fun u hu => h.cancelled hnone (u := u) hu
    refine Or.inr ⟨by dsimp only; omega, ?_⟩
    have hreports :=
      reports_event { s with venue := (s.venue.loggedIn login).2, logins := n } (s.venue.loggedIn login).1
    cases login with
    | ok token => exact ⟨hjobs, hseen, hcancelled, true, hreports, rfl, fun _ => rfl⟩
    | error f => exact ⟨hjobs, hseen, hcancelled, false, hreports, by rw [loggedIn, hnone]; rfl, nofun⟩
  | subscribe i => exact Or.inl ⟨hl, (token_subscribe s.venue i).trans hnone, reports_answer _ _⟩
  | unsubscribe i => exact Or.inl ⟨hl, (token_unsubscribe s.venue i).trans hnone, rfl⟩
  | disconnect => exact Or.inl ⟨hl, rfl, rfl⟩
  | settle r hu =>
    rw [settle_cancelled (h.cancelled hnone hu)]
    exact Or.inl ⟨hl, hnone, by simp [reports]⟩

/-- A connect reports how it went when it returns, and then everything from before it is gone. -/
theorem Connects.reports (h : s.Connects t) (hs : Reachable zone p s) :
    (t.logins = 1 ∧ t.venue.token = none ∧ t.reports = s.reports) ∨
      (t.logins = 0 ∧ t.venue.jobs = [] ∧ t.venue.seen = [] ∧ (∀ u ∈ t.tasks, u.mark ∈ t.venue.cancelled) ∧
        ∃ ok, t.reports = s.reports ++ [.connected ok] ∧ t.venue.token.isSome = ok ∧
          (ok = true → t.venue.disconnecting = false)) := by
  induction h with
  | reset hzero => exact Or.inl ⟨by simp [hzero], rfl, rfl⟩
  | @next t t' ht hl hstep hone ih =>
    obtain ⟨-, hnone, hreports⟩ | ⟨hzero, -⟩ := ih
    · rw [← hreports]
      exact (ht.reachable hs).kept.underway hnone hl hstep hone
    · omega

end PollingRun

/-! ## Both -/

/-- What is left of a streaming venue when a connect has returned `r`, whatever was before. -/
structure Race.Renewed (s : Race) (r : Except Failure Unit) (es : List VenueEvent) (v : StreamingVenue) : Prop where
  events : es = [.connected r.isOk]
  subscriptions : v.subscriptions = []
  seen : v.seen = []
  session : r = .ok () → v.session = some ⟨s.venue.lastId + 1, []⟩
  refused : r ≠ .ok () → v.session = none ∧
    ∀ i broken, v.subscribe i broken = (.error (.notConnected v.platform), v)
  /-- The reader of the session before is told to stop. -/
  claimed : ∀ id, s.venue.sessionId? = some id → id ∈ v.claimed
  /-- And what any reader from before does yet comes to nothing. -/
  stale : ∀ id, s.readers id ≠ .absent → v.sessionId? ≠ some id ∧
    ∃ claimed, v.readerEnds id = ([], { v with claimed := claimed })
  lines : ∀ line, v.handleLine line = ([], v)

/-- What is left of a polled venue when a connect has returned `r`, whatever was before. -/
structure PollingRun.Renewed (s : PollingRun) (r : Except LoginFailure Unit) (es : List VenueEvent)
    (v : PollingVenue) : Prop where
  events : es = [.connected r.isOk]
  jobs : v.jobs = []
  seen : v.seen = []
  token : r = .ok () → v.token.isSome ∧ v.disconnecting = false
  refused : r ≠ .ok () → v.token = none ∧ ∀ i, v.subscribe i = (.error (.notConnected v.platform), v)
  /-- The jobs from before are cancelled, and what they learn yet comes to nothing. -/
  cancelled : ∀ t ∈ s.tasks, t.mark ∈ v.cancelled ∧ ∀ x, v.settle t x = ([], none, v)

theorem Race.Reachable.renewed {zone : Time.Zone} {p : PlatformSettings} {s : Race} (h : Race.Reachable zone p s)
    (d : Dial) : s.Renewed (s.venue.connect d).1 (s.venue.connect d).2.1 (s.venue.connect d).2.2 := by
  obtain ⟨hevents, hsubscriptions, hseen, hclaimed⟩ := s.venue.connect_idle d
  obtain ⟨hok, herror⟩ := s.venue.connect_session d
  exact
    { events := hevents
      subscriptions := hsubscriptions
      seen := hseen
      session := hok
      refused := fun hr => ⟨herror hr, StreamingVenue.subscribe_refused (herror hr) hsubscriptions⟩
      claimed := hclaimed
      stale := fun id hid => ⟨h.connect_stale hid, StreamingVenue.readerEnds_stale (h.connect_stale hid)⟩
      lines := StreamingVenue.handleLine_of_nil hsubscriptions }

theorem PollingRun.Reachable.renewed {zone : Time.Zone} {p : PlatformSettings} {s : PollingRun}
    (h : PollingRun.Reachable zone p s) (login : Except LoginFailure String) :
    s.Renewed (s.venue.connect login).1 (s.venue.connect login).2.1 (s.venue.connect login).2.2 := by
  obtain ⟨hevents, hjobs, hseen, htoken⟩ := s.venue.connect_empty login
  have hcancelled := fun t ht => (h.kept.owns t ht).connect login
  refine ⟨hevents, hjobs, hseen, fun hr => ?_, fun hr => ?_,
    fun t ht => ⟨hcancelled t ht, PollingVenue.settle_cancelled (hcancelled t ht)⟩⟩
  · cases login with
    | ok token => exact ⟨rfl, rfl⟩
    | error f => cases hr
  · cases login with
    | ok token => exact absurd rfl hr
    | error f => exact ⟨rfl, PollingVenue.subscribe_refused rfl⟩

/-- **A connect starts afresh and reports once.** From every state that a venue can be in, and whatever the venue
does about it: a connect reports that it went well exactly if it did, and nothing else; the session or the token
from before, with its reader or its jobs, is gone; a session or a token is there exactly if the connect went well,
with no subscriptions and no marks, and otherwise every subscribe is refused. And if other things go on while it
is under way, still nothing comes of an outage, and its one report comes with its return. -/
theorem reachable_connects (zone : Time.Zone) (p : PlatformSettings) :
    (∀ s d, Race.Reachable zone p s → s.connecting = .idle →
      s.Renewed (s.venue.connect d).1 (s.venue.connect d).2.1 (s.venue.connect d).2.2) ∧
    (∀ s reply, PollingRun.Reachable zone p s →
      let login := readLogin reply
      s.Renewed (s.venue.connect login).1 (s.venue.connect login).2.1 (s.venue.connect login).2.2) ∧
    (∀ s t, Race.Reachable zone p s → s.Connects t →
      ∃ es, VenueEvent.AreQuotes (es.map Prod.snd) ∧
        ((t.connecting ≠ .idle ∧ t.events = s.events ++ es) ∨
          (t.connecting = .idle ∧ ∃ o ok, t.events = s.events ++ es ++ [(o, .connected ok)] ∧
            t.venue.sessionId? = if ok then some t.venue.lastId else none))) ∧
    ∀ s t, PollingRun.Reachable zone p s → s.Connects t →
      (t.logins = 1 ∧ t.venue.token = none ∧ t.reports = s.reports) ∨
        (t.logins = 0 ∧ t.venue.jobs = [] ∧ t.venue.seen = [] ∧ (∀ u ∈ t.tasks, u.mark ∈ t.venue.cancelled) ∧
          ∃ ok, t.reports = s.reports ++ [.connected ok] ∧ t.venue.token.isSome = ok ∧
            (ok = true → t.venue.disconnecting = false)) :=
  ⟨fun _ d hs _ => hs.renewed d, fun _ reply hs => hs.renewed (readLogin reply), fun _ _ hs hc => hc.reports hs,
    fun _ _ hs hc => hc.reports hs⟩

def Race.steady : PlatformSettings where
  name := "TCP"
  kind := StreamingVenue.kindName
  host := some "localhost"
  port := some 8081
  baseUrl := none
  username := "desk"
  password := "desk"
  instruments := ["USDTRY"]
  pollIntervalMs := PlatformSettings.defaultPollIntervalMs
  readTimeoutSecs := PlatformSettings.defaultReadTimeoutSecs
  maxPollFailures := PlatformSettings.defaultMaxPollFailures

theorem reachable_connects_again :
    (∃ s t, Race.Reachable .utc Race.steady s ∧ s.venue.subscriptions = ["USDTRY"] ∧
      (s.venue.connect .timedOut).2.1 = [.connected false] ∧
      (s.venue.connect .timedOut).2.2.subscribe "USDTRY" none =
        (.error (.notConnected "TCP"), (s.venue.connect .timedOut).2.2) ∧
      s.Connects t ∧ t.readers 1 = .over ∧ ∃ es o ok, t.events = s.events ++ es ++ [(o, .connected ok)]) ∧
    ∃ s t, PollingRun.Reachable .utc PollingRun.brittle s ∧ s.venue.jobs = [("USDTRY", 1)] ∧
      (s.venue.connect (readLogin .dropped)).2.1 = [.connected false] ∧
      s.Connects t ∧ t.venue.jobs = [] ∧ ∃ ok, t.reports = s.reports ++ [.connected ok] := by
  obtain ⟨hstreaming, -, hraces, -⟩ := reachable_connects .utc Race.steady
  obtain ⟨-, hpolling, -, hruns⟩ := reachable_connects .utc PollingRun.brittle
  constructor
  · have hgreet : Dial.outcome .utc (.greeted "SUCCESS|CONNECTED".toList) = .ok () := rfl
    have hstart : Race.Reachable .utc Race.steady _ := .start rfl
    have hclear := ((hstart.step (.take rfl)).step (.part rfl)).step (.clear rfl)
    have hstore := (hclear.step (.greet rfl hgreet)).step (.store rfl)
    have hs := hstore.step (.subscribe "USDTRY" none)
    have hrenewed := hstreaming _ .timedOut hs rfl
    have htake {s : Race} (_ : Race.Reachable .utc Race.steady s) (hc : s.connecting = .idle) := Race.Connects.take hc
    have hends := ((htake hs rfl).next nofun (.ends (@Race.Ends.claim _ 1 rfl))).next nofun
      (.ends (@Race.Ends.report _ 1 rfl))
    have hcleared := (hends.next nofun (.part rfl)).next nofun (.clear rfl)
    have hconnects := (hcleared.next nofun (.greet rfl hgreet)).next nofun (.store rfl)
    obtain ⟨es, -, ⟨hunderway, -⟩ | ⟨-, o, ok, hevents, -⟩⟩ := hraces _ _ hs hconnects
    · exact absurd rfl hunderway
    · exact ⟨_, _, hs, rfl, hrenewed.events, (hrenewed.refused nofun).2 _ _, hconnects, rfl, es, o, ok, hevents⟩
  · have hstart : PollingRun.Reachable .utc PollingRun.brittle _ := .start rfl
    have hup := (hstart.step .connect).step (.login (.ok "key") rfl)
    have hs := hup.step (.subscribe "USDTRY")
    have hrenewed := hpolling _ .dropped hs
    have hreset {s : PollingRun} (_ : PollingRun.Reachable .utc PollingRun.brittle s) (hl : s.logins = 0) :=
      PollingRun.Connects.reset hl
    have hsettled := (hreset hs rfl).next rfl
      (@PollingRun.Step.settle _ ⟨1, "USDTRY", "key", 0⟩ .failed List.mem_cons_self) (Nat.le_refl 1)
    have hconnects := hsettled.next rfl (.login (.ok "key") rfl) (Nat.zero_le 1)
    obtain ⟨hunderway, -⟩ | ⟨-, hjobs, -, -, ok, hreports, -⟩ := hruns _ _ hs hconnects
    · cases hunderway
    · exact ⟨_, _, hs, rfl, hrenewed.events, hconnects, hjobs, ok, hreports⟩

end RateDesk
