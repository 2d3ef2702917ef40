import RateDesk.Proofs.Worker.Move
import RateDesk.Venue.Streaming

/-!
# The session of a streaming venue

* `Keeps` : what leaves the stored session, the claims and the numbers of connections alone; commands,
  feed lines and forgetting do;
* `parted`, `opened` : the venue once a taken session was ended on purpose, and once it was dialed;
  `closeSession_eq` and `connect_eq` take the calls apart;
* `reportEnd_stored`, `reportEnd_stale` : what the reader of a session reports.
-/

namespace RateDesk.StreamingVenue

variable {v v' v'' : StreamingVenue}

def sessionId? (v : StreamingVenue) : Option Nat := v.session.map StreamSession.id

/-! ## What sessions do not depend on -/

/-- The stored session, the claims and the numbers of connections are the same. -/
structure Keeps (v v' : StreamingVenue) : Prop where
  session : v'.session = v.session
  claimed : v'.claimed = v.claimed
  lastId : v'.lastId = v.lastId

theorem Keeps.refl (v : StreamingVenue) : v.Keeps v := ⟨rfl, rfl, rfl⟩

theorem keeps_reset (v : StreamingVenue) : v.Keeps v.reset := ⟨rfl, rfl, rfl⟩

theorem keeps_send (v : StreamingVenue) (c : FeedCommand) (broken : Option String) : v.Keeps (v.send c broken).2 := by
  unfold send
  split <;> exact ⟨rfl, rfl, rfl⟩

theorem keeps_subscribe (v : StreamingVenue) (i : String) (broken : Option String) :
    v.Keeps (v.subscribe i broken).2 := by
  unfold subscribe
  split
  · exact Keeps.refl v
  · have hsend := keeps_send { v with subscriptions := i :: v.subscriptions } (.subscribe v.platform i) broken
    dsimp only
    split <;> exact ⟨hsend.session, hsend.claimed, hsend.lastId⟩

theorem keeps_unsubscribe (v : StreamingVenue) (i : String) (broken : Option String) :
    v.Keeps (v.unsubscribe i broken).2 := by
  unfold unsubscribe
  split
  · have hsend := keeps_send
      { v with subscriptions := v.subscriptions.filter (· ≠ i), seen := v.seen.filter (· ≠ i) }
      (.unsubscribe v.platform i) broken
    exact ⟨hsend.session, hsend.claimed, hsend.lastId⟩
  · exact Keeps.refl v

/-- A quote is reported, and nothing but its mark changes. -/
theorem keeps_report (v : StreamingVenue) (i : String) (r : Rate) :
    v.Keeps (v.report i r).2 ∧ VenueEvent.AreQuotes (v.report i r).1 := by
  unfold report
  split
  · exact ⟨Keeps.refl v, by simp [VenueEvent.AreQuotes, VenueEvent.quote?]⟩
  · exact ⟨⟨rfl, rfl, rfl⟩, by simp [VenueEvent.AreQuotes, VenueEvent.quote?]⟩

/-- A feed line leads to quotes and to nothing else. -/
theorem keeps_handleLine (v : StreamingVenue) (line : List Char) :
    v.Keeps (v.handleLine line).2 ∧ VenueEvent.AreQuotes (v.handleLine line).1 := by
  unfold handleLine
  split
  · dsimp only
    split
    · exact keeps_report v _ _
    · exact ⟨Keeps.refl v, .nil⟩
  · exact ⟨Keeps.refl v, .nil⟩

/-! ## Parts of calls -/

/-- The venue once a session that was taken from it is ended on purpose. -/
def parted (v : StreamingVenue) : Option StreamSession → StreamingVenue
  | none => v
  | some x => (v.claim x.id).2.write x.id (.disconnect v.username v.password)

/-- The venue once it was dialed. -/
def opened (v : StreamingVenue) (d : Dial) : StreamingVenue := if d.connects then v.dial else v

theorem closeSession_eq (v : StreamingVenue) : v.closeSession = v.take.2.parted v.session := by
  unfold closeSession take
  cases v.session <;> rfl

theorem zone_opened (v : StreamingVenue) (d : Dial) : (v.opened d).zone = v.zone := by
  unfold opened
  split <;> rfl

theorem connect_eq (v : StreamingVenue) (d : Dial) :
    v.connect d =
      match d.outcome v.closeSession.reset.zone with
      | .error f => (.error f, [.connected false], v.closeSession.reset.opened d)
      | .ok _ => (.ok (), (v.closeSession.reset.opened d).store.1, (v.closeSession.reset.opened d).store.2) := by
  rw [← zone_opened _ d]
  rfl

theorem claimed_claim (v : StreamingVenue) (id : Nat) (j : Nat) :
    j ∈ (v.claim id).2.claimed ↔ j = id ∨ j ∈ v.claimed := by
  unfold claim
  dsimp only
  split
  · rename_i h
    exact ⟨Or.inr, fun hj => hj.elim (fun he => he ▸ h) fun hj => hj⟩
  · exact List.mem_cons

/-- A claim adds to the claims and does nothing else. -/
theorem claim_snd (v : StreamingVenue) (id : Nat) : ∃ claimed, (v.claim id).2 = { v with claimed := claimed } := by
  unfold claim
  dsimp only
  split
  · exact ⟨v.claimed, rfl⟩
  · exact ⟨id :: v.claimed, rfl⟩

theorem session_claim (v : StreamingVenue) (id : Nat) : (v.claim id).2.session = v.session := by
  obtain ⟨claimed, hclaim⟩ := v.claim_snd id
  rw [hclaim]

theorem lastId_claim (v : StreamingVenue) (id : Nat) : (v.claim id).2.lastId = v.lastId := by
  obtain ⟨claimed, hclaim⟩ := v.claim_snd id
  rw [hclaim]

theorem session_opened (v : StreamingVenue) (d : Dial) : (v.opened d).session = v.session := by
  unfold opened
  split <;> rfl

theorem claimed_opened (v : StreamingVenue) (d : Dial) : (v.opened d).claimed = v.claimed := by
  unfold opened
  split <;> rfl

theorem lastId_le_opened (v : StreamingVenue) (d : Dial) : v.lastId ≤ (v.opened d).lastId := by
  unfold opened
  split
  · exact Nat.le_succ _
  · exact Nat.le_refl _

/-- A session can begin only on a connection. -/
theorem connects_of_outcome {zone : Time.Zone} {d : Dial} (h : d.outcome zone = .ok ()) : d.connects = true := by
  cases d with
  | refused why => cases h
  | broken why => rfl
  | timedOut => rfl
  | closed => rfl
  | greeted line => rfl

theorem lastId_opened {zone : Time.Zone} {d : Dial} (h : d.outcome zone = .ok ()) :
    (v.opened d).lastId = v.lastId + 1 := by
  rw [opened, if_pos (connects_of_outcome h)]
  rfl

/-! ## The end of a session -/

theorem reportEnd_stored {id : Nat} (h : v.sessionId? = some id) :
    v.reportEnd id = ([.disconnected], { v with session := none }.reset) := if_pos h

theorem reportEnd_stale {id : Nat} (h : v.sessionId? ≠ some id) : v.reportEnd id = ([], v) := if_neg h

end RateDesk.StreamingVenue
