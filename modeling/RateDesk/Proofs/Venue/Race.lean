import RateDesk.Proofs.Venue.Session

/-!
# Calls and readers that race

Connects, one after another, disconnects, and the readers of all sessions work on one venue, and
between any two of their parts any other part may come.

* `Race`, `Race.Step`, `Race.Ends` : the venue, how far every call and every reader got, and what may
  come next;
* `Reachable.connect`, `Reachable.disconnect`, `Reachable.readerEnds` : parts that follow each other
  without a race make up the whole call.
-/

namespace RateDesk

open StreamingVenue

/-- How far the reader of a session got. -/
inductive Reader where
  /-- There is no such session yet. -/
  | absent
  | reading
  /-- Its stream ended, and it was the first to claim the end. -/
  | ending
  | over
deriving DecidableEq, Repr

/-- How far a connect got. -/
inductive Connecting where
  | idle
  /-- It took the stored session, if there was one. -/
  | took (x : Option StreamSession)
  | parted
  | cleared
  | greeted

/-- How far a disconnect got. -/
inductive Closing where
  | took (x : Option StreamSession)
  | parted
  | over

/-- A venue with its calls and its readers. -/
structure Race where
  venue : StreamingVenue
  /-- Connects come one after another. -/
  connecting : Connecting
  /-- The disconnects so far, oldest first. -/
  closing : List Closing
  /-- The readers, by the numbers of their sessions. -/
  readers : Nat → Reader
  /-- The sessions that were taken by a connect or a disconnect. -/
  taken : List Nat
  /-- What was reported so far, oldest first, each with the number of its session, if it has one. -/
  events : List (Option Nat × VenueEvent)

namespace Race

/-! ## Steps -/

def start (v : StreamingVenue) : Race where
  venue := v
  connecting := .idle
  closing := []
  readers _ := .absent
  taken := []
  events := []

def tagged (id : Option Nat) (es : List VenueEvent) : List (Option Nat × VenueEvent) := es.map fun e => (id, e)

def take (s : Race) : Race :=
  { s with venue := s.venue.take.2, taken := s.venue.sessionId?.toList ++ s.taken }

/-- The reader of a session gets somewhere. -/
def move (s : Race) (id : Nat) (r : Reader) : Nat → Reader := fun j => if j = id then r else s.readers j

/-- What the reader of a session does once its stream ends: it claims the end, and if it was the first
to do so, it reports the end unless the session was taken. -/
inductive Ends (s : Race) (id : Nat) : Race → Prop where
  | claim : s.readers id = .reading →
    Ends s id { s with venue := (s.venue.claim id).2,
                       readers := s.move id (if (s.venue.claim id).1 then .over else .ending) }
  | report : s.readers id = .ending →
    Ends s id { s with venue := (s.venue.reportEnd id).2, readers := s.move id .over,
                       events := s.events ++ tagged (some id) (s.venue.reportEnd id).1 }

inductive Step (s : Race) : Race → Prop where
  | take : s.connecting = .idle → Step s { s.take with connecting := .took s.venue.session }
  | part {x : Option StreamSession} : s.connecting = .took x →
    Step s { s with venue := s.venue.parted x, connecting := .parted }
  | clear : s.connecting = .parted → Step s { s with venue := s.venue.reset, connecting := .cleared }
  | greet {d : Dial} : s.connecting = .cleared → d.outcome s.venue.zone = .ok () →
    Step s { s with venue := s.venue.opened d, connecting := .greeted }
  | refuse {d : Dial} {f : Failure} : s.connecting = .cleared → d.outcome s.venue.zone = .error f →
    Step s { s with venue := s.venue.opened d, connecting := .idle,
                    events := s.events ++ tagged none [.connected false] }
  | store : s.connecting = .greeted →
    Step s { s with venue := s.venue.store.2, connecting := .idle, readers := s.move s.venue.lastId .reading,
                    events := s.events ++ tagged (some s.venue.lastId) s.venue.store.1 }
  | closeTake : Step s { s.take with closing := s.closing ++ [.took s.venue.session] }
  | closePart {n : Nat} {x : Option StreamSession} : s.closing[n]? = some (.took x) →
    Step s { s with venue := s.venue.parted x, closing := s.closing.set n .parted }
  | closeClear {n : Nat} : s.closing[n]? = some .parted →
    Step s { s with venue := s.venue.reset, closing := s.closing.set n .over }
  | ends {id : Nat} {s' : Race} : s.Ends id s' → Step s s'
  /-- Whoever took a session and was the first to claim its end stops the reader. -/
  | abort {id : Nat} : s.readers id = .reading → id ∈ s.venue.claimed → Step s { s with readers := s.move id .over }
  | line {id : Nat} (l : List Char) : s.readers id = .reading →
    Step s { s with venue := (s.venue.handleLine l).2,
                    events := s.events ++ tagged (some id) (s.venue.handleLine l).1 }
  | subscribe (i : String) (broken : Option String) : Step s { s with venue := (s.venue.subscribe i broken).2 }
  | unsubscribe (i : String) (broken : Option String) : Step s { s with venue := (s.venue.unsubscribe i broken).2 }

/-- What can become of a venue that is made from settings. -/
inductive Reachable (zone : Time.Zone) (p : PlatformSettings) : Race → Prop where
  | start {v : StreamingVenue} : StreamingVenue.ofSettings zone p = .ok v → Reachable zone p (start v)
  | step {s s' : Race} : Reachable zone p s → s.Step s' → Reachable zone p s'

/-! ## Without a race -/

variable {zone : Time.Zone} {p : PlatformSettings} {s : Race} {id : Nat}

theorem map_snd_tagged (o : Option Nat) (es : List VenueEvent) : (tagged o es).map Prod.snd = es := by
  rw [tagged, List.map_map]
  exact List.map_id es

/-- A connect that nothing interrupts. -/
theorem Reachable.connect (h : Reachable zone p s) (hc : s.connecting = .idle) (d : Dial) :
    ∃ s', Reachable zone p s' ∧ s'.connecting = .idle ∧ s'.venue = (s.venue.connect d).2.2 ∧
      s'.events.map Prod.snd = s.events.map Prod.snd ++ (s.venue.connect d).2.1 := by
  have hclear := ((h.step (.take hc)).step (.part rfl)).step (.clear rfl)
  have hvenue : (s.venue.take.2.parted s.venue.session).reset = s.venue.closeSession.reset := by rw [closeSession_eq]
  rw [connect_eq]
  cases hd : d.outcome s.venue.closeSession.reset.zone with
  | error f =>
    refine ⟨_, hclear.step (.refuse (d := d) (f := f) rfl (by rw [← hd, ← hvenue]; rfl)), rfl, ?_, ?_⟩
    · exact congrArg (·.opened d) hvenue
    · rw [List.map_append, map_snd_tagged]
      rfl
  | ok u =>
    have hstore := (hclear.step (.greet (d := d) rfl (by rw [← hd, ← hvenue]; rfl))).step (.store rfl)
    refine ⟨_, hstore, rfl, ?_, ?_⟩
    · exact congrArg (fun v => (v.opened d).store.2) hvenue
    · rw [List.map_append, map_snd_tagged]
      rfl

theorem Reachable.disconnect (h : Reachable zone p s) :
    ∃ s', Reachable zone p s' ∧ s'.connecting = s.connecting ∧ s'.venue = s.venue.disconnect ∧
      s'.events = s.events := by
  have htake := h.step .closeTake
  have hpart := htake.step (.closePart (n := s.closing.length) (x := s.venue.session) (by simp))
  have hclear := hpart.step (.closeClear (n := s.closing.length) (by simp))
  refine ⟨_, hclear, rfl, ?_, rfl⟩
  rw [StreamingVenue.disconnect, closeSession_eq]
  rfl

theorem Reachable.readerEnds (h : Reachable zone p s) (hr : s.readers id = .reading) :
    ∃ s', Reachable zone p s' ∧ s'.venue = (s.venue.readerEnds id).2 ∧
      s'.events.map Prod.snd = s.events.map Prod.snd ++ (s.venue.readerEnds id).1 := by
  have hclaim := h.step (.ends (.claim hr))
  unfold StreamingVenue.readerEnds
  cases hbefore : (s.venue.claim id).1 with
  | true =>
    refine ⟨_, hclaim, ?_, ?_⟩
    · simp [hbefore]
    · simp [hbefore]
  | false =>
    refine ⟨_, hclaim.step (.ends (@Ends.report _ id ?_)), ?_, ?_⟩
    · simp [move, hbefore]
    · simp [hbefore]
    · rw [List.map_append, map_snd_tagged]
      simp [hbefore]

end Race

end RateDesk
