import RateDesk.Proofs.Feed.Delivery
import RateDesk.Proofs.Venue.Connect

/-!
# What a streaming venue reports over its history

A history lists what happened to a venue, the newest first.

* `StreamInput`, `StreamingVenue.handle`, `after`, `reported` : a venue along a history;
* `Settled` : without a session nothing is subscribed, and only what is subscribed is marked as seen; kept by
  whatever happens (`Settled.handle`);
* `told`, `due` : by the history alone, whether a quote for an instrument was reported already, and which
  quotes are to be reported;
* `holds` : by the history alone, whether an instrument is subscribed;
* `seen_after`, `subscriptions_after` : the venue's own marks and subscriptions say the same;
* `quotes_reported` : so exactly the quotes that are due are reported.
-/

namespace RateDesk

inductive StreamInput where
  | connect (d : Dial)
  | subscribe (instrument : String) (broken : Option String)
  | unsubscribe (instrument : String) (broken : Option String)
  | disconnect
  | line (l : List Char)
  /-- The reader of a session comes to the end of its stream. -/
  | ended (id : Nat)

namespace StreamingVenue

variable {v : StreamingVenue} {x : StreamInput} {xs : List StreamInput} {i j : String} {l : List Char} {q : FeedQuote}

/-- What a venue reports when something happens to it, and what it is then. -/
def handle (v : StreamingVenue) : StreamInput → List VenueEvent × StreamingVenue
  | .connect d => (v.connect d).2
  | .subscribe i broken => ([], (v.subscribe i broken).2)
  | .unsubscribe i broken => ([], (v.unsubscribe i broken).2)
  | .disconnect => ([], v.disconnect)
  | .line l => v.handleLine l
  | .ended id => v.readerEnds id

def after (v : StreamingVenue) : List StreamInput → StreamingVenue
  | [] => v
  | x :: xs => ((v.after xs).handle x).2

/-- What a venue reported in the course of a history, oldest first. -/
def reported (v : StreamingVenue) : List StreamInput → List VenueEvent
  | [] => []
  | x :: xs => v.reported xs ++ ((v.after xs).handle x).1

/-! ## The books of a venue -/

/-- Without a session nothing is subscribed, and only what is subscribed is marked as seen. -/
structure Settled (v : StreamingVenue) : Prop where
  idle : v.session = none → v.subscriptions = []
  marked : ∀ i ∈ v.seen, i ∈ v.subscriptions

theorem send_books (v : StreamingVenue) (c : FeedCommand) (broken : Option String) :
    (v.send c broken).2.seen = v.seen ∧ (v.send c broken).2.subscriptions = v.subscriptions := by
  unfold send
  split <;> exact ⟨rfl, rfl⟩

/-- A subscription that succeeds enters its instrument; one that fails leaves the books as they were. -/
theorem subscribe_books (v : StreamingVenue) (i : String) (broken : Option String) :
    (v.subscribe i broken).2.seen = v.seen ∧
      ((v.subscribe i broken).1 = .ok () →
        ∀ j, j ∈ (v.subscribe i broken).2.subscriptions ↔ j = i ∨ j ∈ v.subscriptions) ∧
      ((v.subscribe i broken).1 ≠ .ok () →
        i ∉ v.subscriptions ∧ (v.subscribe i broken).2.subscriptions = v.subscriptions) := by
  unfold subscribe
  by_cases hi : i ∈ v.subscriptions
  · rw [if_pos hi]
    refine ⟨rfl, fun _ j => ⟨Or.inr, fun hj => ?_⟩, fun h => absurd rfl h⟩
    rcases hj with rfl | hj
    · exact hi
    · exact hj
  · obtain ⟨hseen, hsubs⟩ := send_books { v with subscriptions := i :: v.subscriptions }
      (.subscribe v.platform i) broken
    rw [if_neg hi]
    dsimp only
    split
    · rename_i h
      refine ⟨hseen, fun _ j => ?_, fun hne => absurd h hne⟩
      rw [hsubs]
      exact List.mem_cons
    · rename_i h
      refine ⟨hseen, fun hok => ?_, fun _ => ⟨hi, ?_⟩⟩
      · rw [h] at hok
        cases hok
      · show List.filter _ _ = _
        rw [hsubs, List.filter_cons_of_neg (by simp), List.filter_eq_self]
        intro j hj
        simpa using fun heq : j = i => hi (heq ▸ hj)

theorem subscribe_idle (h : v.Settled) (hsession : v.session = none) (i : String) (broken : Option String) :
    (v.subscribe i broken).1 ≠ .ok () := by
  rw [subscribe_refused hsession (h.idle hsession)]
  nofun

/-- An unsubscription removes its instrument and the mark of it, and nothing else, whether it succeeds or not. -/
theorem unsubscribe_books (h : v.Settled) (i : String) (broken : Option String) :
    (∀ j, j ∈ (v.unsubscribe i broken).2.subscriptions ↔ j ≠ i ∧ j ∈ v.subscriptions) ∧
      ∀ j, j ∈ (v.unsubscribe i broken).2.seen ↔ j ≠ i ∧ j ∈ v.seen := by
  have hfilter : ∀ (is : List String) (j : String), j ∈ is.filter (· ≠ i) ↔ j ≠ i ∧ j ∈ is := by
    intro is j
    rw [List.mem_filter]
    simp [and_comm]
  unfold unsubscribe
  by_cases hi : i ∈ v.subscriptions
  · obtain ⟨hseen, hsubs⟩ := send_books
      { v with subscriptions := v.subscriptions.filter (· ≠ i), seen := v.seen.filter (· ≠ i) }
      (.unsubscribe v.platform i) broken
    rw [if_pos hi]
    dsimp only
    rw [hseen, hsubs]
    exact ⟨hfilter v.subscriptions, hfilter v.seen⟩
  · rw [if_neg hi]
    have hne : ∀ j ∈ v.subscriptions, j ≠ i := fun j hj heq => hi (heq ▸ hj)
    exact ⟨fun j => ⟨fun hj => ⟨hne j hj, hj⟩, And.right⟩,
      fun j => ⟨fun hj => ⟨hne j (h.marked j hj), hj⟩, And.right⟩⟩

/-- A reader that ends says nothing and leaves session and books as they are, or it reports the end of the stored
session and empties the books. -/
theorem readerEnds_books (v : StreamingVenue) (id : Nat) :
    ((v.readerEnds id).1 = [] ∧ (v.readerEnds id).2.session = v.session ∧
      (v.readerEnds id).2.subscriptions = v.subscriptions ∧ (v.readerEnds id).2.seen = v.seen) ∨
    ((v.readerEnds id).1 = [.disconnected] ∧ (v.readerEnds id).2.session = none ∧
      (v.readerEnds id).2.subscriptions = [] ∧ (v.readerEnds id).2.seen = []) := by
  have hclaim : (v.claim id).2.session = v.session ∧ (v.claim id).2.subscriptions = v.subscriptions ∧
      (v.claim id).2.seen = v.seen := by
    obtain ⟨claimed, hclaim⟩ := v.claim_snd id
    rw [hclaim]
    exact ⟨rfl, rfl, rfl⟩
  unfold readerEnds
  dsimp only
  split
  · exact Or.inl ⟨rfl, hclaim⟩
  · unfold reportEnd
    split
    · exact Or.inr ⟨rfl, rfl, rfl, rfl⟩
    · exact Or.inl ⟨rfl, hclaim⟩

/-! ## Lines -/

/-- The quote in a line that a platform has to report: for the platform itself, its name in whatever case, and for
something that is subscribed. -/
def wanted? (zone : Time.Zone) (platform : String) (subscriptions : List String) (l : List Char) : Option FeedQuote :=
  match FeedMessage.read zone l with
  | .ok (.quote q) =>
    if lower q.platform = lower platform.toList ∧ String.ofList q.instrument ∈ subscriptions then some q else none
  | _ => none

theorem mem_of_wanted? {zone : Time.Zone} {platform : String} {subscriptions : List String}
    (h : wanted? zone platform subscriptions l = some q) : String.ofList q.instrument ∈ subscriptions := by
  unfold wanted? at h
  split at h
  · split at h
    · rename_i hq
      cases h
      exact hq.2
    · cases h
  · cases h

theorem handleLine_eq (v : StreamingVenue) (l : List Char) :
    v.handleLine l =
      match wanted? v.zone v.platform v.subscriptions l with
      | none => ([], v)
      | some q => v.report (String.ofList q.instrument) q.toRate := by
  unfold handleLine wanted?
  rcases FeedMessage.read v.zone l with e | m
  · rfl
  · cases m with
    | quote q =>
      dsimp only
      split <;> rfl
    | success _ => rfl
    | error _ => rfl
    | info _ => rfl
    | unknown _ => rfl

theorem handleLine_of_unwanted (h : wanted? v.zone v.platform v.subscriptions l = none) :
    v.handleLine l = ([], v) := by
  rw [handleLine_eq, h]

theorem handleLine_of_wanted (h : wanted? v.zone v.platform v.subscriptions l = some q) :
    v.handleLine l = v.report (String.ofList q.instrument) q.toRate := by
  rw [handleLine_eq, h]

theorem report_books (v : StreamingVenue) (i : String) (r : Rate) :
    (v.report i r).2.session = v.session ∧ (v.report i r).2.subscriptions = v.subscriptions ∧
      ∀ j, j ∈ (v.report i r).2.seen ↔ j = i ∨ j ∈ v.seen := by
  unfold report
  split
  · rename_i hi
    refine ⟨rfl, rfl, fun j => ⟨Or.inr, fun hj => ?_⟩⟩
    rcases hj with rfl | hj
    · exact hi
    · exact hj
  · exact ⟨rfl, rfl, fun j => List.mem_cons⟩

theorem subscriptions_handleLine (v : StreamingVenue) (l : List Char) :
    (v.handleLine l).2.subscriptions = v.subscriptions := by
  cases hq : wanted? v.zone v.platform v.subscriptions l with
  | none => rw [handleLine_of_unwanted hq]
  | some q =>
    rw [handleLine_of_wanted hq]
    exact (report_books v _ _).2.1

/-! ## Whatever happens -/

theorem Settled.of_empty (hsubs : v.subscriptions = []) (hseen : v.seen = []) : v.Settled where
  idle _ := hsubs
  marked i hi := by
    rw [hseen] at hi
    cases hi

theorem Settled.subscribe (h : v.Settled) (i : String) (broken : Option String) :
    (v.subscribe i broken).2.Settled := by
  obtain ⟨hseen, hok, herror⟩ := subscribe_books v i broken
  have hsession := (keeps_subscribe v i broken).session
  by_cases hi : (v.subscribe i broken).1 = .ok ()
  · refine ⟨fun hnone => absurd hi (subscribe_idle h (hsession.symm.trans hnone) i broken), fun j hj => ?_⟩
    exact (hok hi j).2 (Or.inr (h.marked j (hseen ▸ hj)))
  · refine ⟨fun hnone => (herror hi).2.trans (h.idle (hsession.symm.trans hnone)), fun j hj => ?_⟩
    rw [(herror hi).2]
    exact h.marked j (hseen ▸ hj)

theorem Settled.unsubscribe (h : v.Settled) (i : String) (broken : Option String) :
    (v.unsubscribe i broken).2.Settled := by
  obtain ⟨hsubs, hseen⟩ := unsubscribe_books h i broken
  have hsession := (keeps_unsubscribe v i broken).session
  refine ⟨fun hnone => List.eq_nil_iff_forall_not_mem.2 fun j hj => ?_, fun j hj => ?_⟩
  · rw [hsubs, h.idle (hsession.symm.trans hnone)] at hj
    cases hj.2
  · obtain ⟨hne, hj⟩ := (hseen j).1 hj
    exact (hsubs j).2 ⟨hne, h.marked j hj⟩

theorem Settled.line (h : v.Settled) (l : List Char) : (v.handleLine l).2.Settled := by
  cases hq : wanted? v.zone v.platform v.subscriptions l with
  | none =>
    rw [handleLine_of_unwanted hq]
    exact h
  | some q =>
    obtain ⟨hsession, hsubs, hseen⟩ := report_books v (String.ofList q.instrument) q.toRate
    rw [handleLine_of_wanted hq]
    refine ⟨fun hnone => hsubs.trans (h.idle (hsession.symm.trans hnone)), fun j hj => ?_⟩
    rw [hsubs]
    rcases (hseen j).1 hj with rfl | hj
    · exact mem_of_wanted? hq
    · exact h.marked j hj

theorem Settled.ended (h : v.Settled) (id : Nat) : (v.readerEnds id).2.Settled := by
  obtain ⟨-, hsession, hsubs, hseen⟩ | ⟨-, -, hsubs, hseen⟩ := readerEnds_books v id
  · refine ⟨fun hnone => hsubs.trans (h.idle (hsession.symm.trans hnone)), fun j hj => ?_⟩
    rw [hsubs]
    exact h.marked j (hseen ▸ hj)
  · exact .of_empty hsubs hseen

theorem Settled.handle (h : v.Settled) (x : StreamInput) : (v.handle x).2.Settled := by
  cases x with
  | connect d => exact .of_empty (connect_idle v d).2.1 (connect_idle v d).2.2.1
  | subscribe i broken => exact h.subscribe i broken
  | unsubscribe i broken => exact h.unsubscribe i broken
  | disconnect => exact .of_empty rfl rfl
  | line l => exact h.line l
  | ended id => exact h.ended id

theorem Settled.after (h : v.Settled) (xs : List StreamInput) : (v.after xs).Settled := by
  induction xs with
  | nil => exact h
  | cons x xs ih => exact ih.handle x

/-! ## What never changes -/

/-- The zone in which a venue reads times, and the name of its platform. -/
def identity (v : StreamingVenue) : Time.Zone × String := (v.zone, v.platform)

/-- What never changes of a venue: its identity, and how it logs in. -/
def profile (v : StreamingVenue) : (Time.Zone × String) × String × String := (v.identity, v.username, v.password)

theorem profile_claim (v : StreamingVenue) (id : Nat) : (v.claim id).2.profile = v.profile := by
  obtain ⟨claimed, hclaim⟩ := v.claim_snd id
  rw [hclaim]
  rfl

theorem profile_closeSession (v : StreamingVenue) : v.closeSession.profile = v.profile := by
  rw [closeSession_eq]
  cases v.session with
  | none => rfl
  | some x => exact profile_claim v.take.2 x.id

theorem profile_send (v : StreamingVenue) (c : FeedCommand) (broken : Option String) :
    (v.send c broken).2.profile = v.profile := by
  unfold send
  split <;> rfl

theorem profile_subscribe (v : StreamingVenue) (i : String) (broken : Option String) :
    (v.subscribe i broken).2.profile = v.profile := by
  unfold subscribe
  split
  · rfl
  · have hsend := profile_send { v with subscriptions := i :: v.subscriptions } (.subscribe v.platform i) broken
    dsimp only
    split <;> exact hsend

theorem profile_unsubscribe (v : StreamingVenue) (i : String) (broken : Option String) :
    (v.unsubscribe i broken).2.profile = v.profile := by
  unfold unsubscribe
  split
  · exact profile_send _ _ _
  · rfl

theorem profile_handleLine (v : StreamingVenue) (l : List Char) : (v.handleLine l).2.profile = v.profile := by
  cases hq : wanted? v.zone v.platform v.subscriptions l with
  | none => rw [handleLine_of_unwanted hq]
  | some q =>
    rw [handleLine_of_wanted hq]
    unfold report
    split <;> rfl

theorem profile_readerEnds (v : StreamingVenue) (id : Nat) : (v.readerEnds id).2.profile = v.profile := by
  have hclaim := profile_claim v id
  unfold readerEnds reportEnd
  dsimp only
  split
  · exact hclaim
  · split <;> exact hclaim

theorem profile_handle (v : StreamingVenue) (x : StreamInput) : (v.handle x).2.profile = v.profile := by
  cases x with
  | connect d =>
    show (v.connect d).2.2.profile = _
    have hopened : (v.closeSession.reset.opened d).profile = v.profile := by
      rw [← profile_closeSession v]
      unfold opened
      split <;> rfl
    rw [connect_eq]
    split <;> exact hopened
  | subscribe i broken => exact profile_subscribe v i broken
  | unsubscribe i broken => exact profile_unsubscribe v i broken
  | disconnect => exact profile_closeSession v
  | line l => exact profile_handleLine v l
  | ended id => exact profile_readerEnds v id

theorem profile_after (v : StreamingVenue) (xs : List StreamInput) : (v.after xs).profile = v.profile := by
  induction xs with
  | nil => rfl
  | cons x xs ih => exact (profile_handle _ x).trans ih

theorem identity_after (v : StreamingVenue) (xs : List StreamInput) : (v.after xs).identity = v.identity :=
  congrArg Prod.fst (profile_after v xs)

/-! ## What a history asks for -/

/-- The quote in a line that a venue has to report after a history. -/
def wantedAfter (v : StreamingVenue) (xs : List StreamInput) (l : List Char) : Option FeedQuote :=
  wanted? v.zone v.platform (v.after xs).subscriptions l

/-- Whether a quote for an instrument was wanted since the last connect and the last unsubscription of the
instrument. -/
def told (v : StreamingVenue) (i : String) : List StreamInput → Bool
  | [] => false
  | .connect _ :: _ => false
  | .unsubscribe j _ :: xs => j ≠ i && v.told i xs
  | .line l :: xs => (v.wantedAfter xs l).any (fun q => String.ofList q.instrument = i) || v.told i xs
  | .subscribe _ _ :: xs | .disconnect :: xs | .ended _ :: xs => v.told i xs

/-- The quotes that are to be reported, oldest first: one for each line that has a wanted quote, as the first for
its instrument or as a later one. -/
def due (v : StreamingVenue) : List StreamInput → List VenueEvent
  | [] => []
  | .line l :: xs =>
    match v.wantedAfter xs l with
    | none => v.due xs
    | some q =>
      let i := String.ofList q.instrument
      v.due xs ++ [if v.told i xs then .update i q.toRate else .available i q.toRate]
  | .connect _ :: xs | .subscribe _ _ :: xs | .unsubscribe _ _ :: xs | .disconnect :: xs | .ended _ :: xs => v.due xs

/-- Whether an instrument was subscribed, by a call that succeeded, and since then neither unsubscribed nor lost
with its session. -/
def holds (v : StreamingVenue) (i : String) : List StreamInput → Prop
  | [] => False
  | .subscribe j broken :: xs => (j = i ∧ ((v.after xs).subscribe j broken).1 = .ok ()) ∨ v.holds i xs
  | .unsubscribe j _ :: xs => j ≠ i ∧ v.holds i xs
  | .connect _ :: _ | .disconnect :: _ => False
  | .ended id :: xs => ((v.after xs).readerEnds id).1 = [] ∧ v.holds i xs
  | .line _ :: xs => v.holds i xs

theorem wantedAfter_eq (v : StreamingVenue) (xs : List StreamInput) (l : List Char) :
    v.wantedAfter xs l = wanted? (v.after xs).zone (v.after xs).platform (v.after xs).subscriptions l := by
  have hidentity := identity_after v xs
  rw [show (v.after xs).zone = v.zone from congrArg Prod.fst hidentity,
    show (v.after xs).platform = v.platform from congrArg Prod.snd hidentity]
  rfl

/-! ## The books say the same -/

structure Fresh (v : StreamingVenue) : Prop where
  session : v.session = none
  subscriptions : v.subscriptions = []
  seen : v.seen = []

theorem fresh_ofSettings {zone : Time.Zone} {p : PlatformSettings} (h : ofSettings zone p = .ok v) : v.Fresh := by
  obtain ⟨_, -, h⟩ := bind_eq_ok.1 h
  cases h
  exact ⟨rfl, rfl, rfl⟩

theorem Fresh.settled (h : v.Fresh) : v.Settled := .of_empty h.subscriptions h.seen

/-- Subscribed is what a call entered and nothing removed. -/
theorem subscriptions_after (h : v.Fresh) (xs : List StreamInput) (i : String) :
    i ∈ (v.after xs).subscriptions ↔ v.holds i xs := by
  induction xs with
  | nil =>
    show i ∈ v.subscriptions ↔ False
    rw [h.subscriptions]
    exact ⟨nofun, nofun⟩
  | cons x xs ih =>
    cases x with
    | connect d =>
      show i ∈ ((v.after xs).connect d).2.2.subscriptions ↔ False
      rw [(connect_idle _ d).2.1]
      exact ⟨nofun, nofun⟩
    | subscribe j broken =>
      show i ∈ ((v.after xs).subscribe j broken).2.subscriptions ↔
        (j = i ∧ ((v.after xs).subscribe j broken).1 = .ok ()) ∨ v.holds i xs
      obtain ⟨-, hok, herror⟩ := subscribe_books (v.after xs) j broken
      by_cases hj : ((v.after xs).subscribe j broken).1 = .ok ()
      · rw [hok hj, ih, eq_comm]
        simp only [hj, and_true]
      · rw [(herror hj).2, ih]
        simp only [hj, and_false, false_or]
    | unsubscribe j broken =>
      show i ∈ ((v.after xs).unsubscribe j broken).2.subscriptions ↔ j ≠ i ∧ v.holds i xs
      rw [(unsubscribe_books (h.settled.after xs) j broken).1, ih, ne_comm]
    | disconnect => exact ⟨nofun, nofun⟩
    | line l =>
      show i ∈ ((v.after xs).handleLine l).2.subscriptions ↔ v.holds i xs
      rw [subscriptions_handleLine, ih]
    | ended id =>
      show i ∈ ((v.after xs).readerEnds id).2.subscriptions ↔ ((v.after xs).readerEnds id).1 = [] ∧ v.holds i xs
      obtain ⟨hquiet, -, hsubs, -⟩ | ⟨hends, -, hsubs, -⟩ := readerEnds_books (v.after xs) id
      · rw [hsubs, ih]
        simp only [hquiet, true_and]
      · rw [hsubs, hends]
        exact ⟨nofun, nofun⟩

/-- While there is a session, an instrument is marked as seen if a quote for it was wanted already. -/
theorem seen_after (h : v.Fresh) (xs : List StreamInput) (hsession : (v.after xs).session ≠ none) (i : String) :
    i ∈ (v.after xs).seen ↔ v.told i xs = true := by
  induction xs with
  | nil => exact absurd h.session hsession
  | cons x xs ih =>
    have hsettled := h.settled.after xs
    cases x with
    | connect d =>
      show i ∈ ((v.after xs).connect d).2.2.seen ↔ false = true
      rw [(connect_idle _ d).2.2.1]
      exact ⟨nofun, nofun⟩
    | subscribe j broken =>
      show i ∈ ((v.after xs).subscribe j broken).2.seen ↔ v.told i xs = true
      rw [(subscribe_books (v.after xs) j broken).1]
      exact ih fun hnone => hsession ((keeps_subscribe _ j broken).session.trans hnone)
    | unsubscribe j broken =>
      show i ∈ ((v.after xs).unsubscribe j broken).2.seen ↔ (decide (j ≠ i) && v.told i xs) = true
      rw [(unsubscribe_books hsettled j broken).2,
        ih fun hnone => hsession ((keeps_unsubscribe _ j broken).session.trans hnone), ne_comm]
      simp
    | disconnect => exact absurd (session_closed (v.after xs)) hsession
    | line l =>
      have hkeeps := (keeps_handleLine (v.after xs) l).1.session
      have ih := ih fun hnone => hsession (hkeeps.trans hnone)
      show i ∈ ((v.after xs).handleLine l).2.seen ↔
        ((v.wantedAfter xs l).any (fun q => String.ofList q.instrument = i) || v.told i xs) = true
      have hwanted := wantedAfter_eq v xs l
      cases hq : v.wantedAfter xs l with
      | none =>
        rw [handleLine_of_unwanted (hwanted.symm.trans hq), ih]
        simp
      | some q =>
        rw [handleLine_of_wanted (hwanted.symm.trans hq), (report_books _ _ _).2.2, ih, Option.any_some,
          Bool.or_eq_true, decide_eq_true_eq, eq_comm]
    | ended id =>
      obtain ⟨-, hsame, -, hseen⟩ | ⟨-, hnone, -, -⟩ := readerEnds_books (v.after xs) id
      · show i ∈ ((v.after xs).readerEnds id).2.seen ↔ v.told i xs = true
        rw [hseen]
        exact ih fun hnone => hsession (hsame.trans hnone)
      · exact absurd hnone hsession

/-! ## Reports -/

/-- Nothing but a line makes a venue report quotes. -/
theorem handle_quiet (v : StreamingVenue) (x : StreamInput) (hx : ∀ l, x ≠ .line l) :
    (v.handle x).1.filter (fun e => e.quote?.isSome) = [] := by
  cases x with
  | connect d =>
    show ((v.connect d).2.1).filter _ = []
    rw [(connect_idle v d).1]
    rfl
  | subscribe i broken => rfl
  | unsubscribe i broken => rfl
  | disconnect => rfl
  | line l => exact absurd rfl (hx l)
  | ended id =>
    show ((v.readerEnds id).1).filter _ = []
    obtain ⟨hquiet, -⟩ | ⟨hends, -⟩ := readerEnds_books v id
    · rw [hquiet]
      rfl
    · rw [hends]
      rfl

/-- What a line makes a venue report after a history. -/
theorem handleLine_after (h : v.Fresh) (xs : List StreamInput) (l : List Char) :
    ((v.after xs).handleLine l).1 =
      match v.wantedAfter xs l with
      | none => []
      | some q =>
        let i := String.ofList q.instrument
        [if v.told i xs then .update i q.toRate else .available i q.toRate] := by
  have hwanted := wantedAfter_eq v xs l
  cases hq : v.wantedAfter xs l with
  | none => rw [handleLine_of_unwanted (hwanted.symm.trans hq)]
  | some q =>
    have hsession : (v.after xs).session ≠ none := by
      intro hnone
      have hmem := mem_of_wanted? hq
      rw [(h.settled.after xs).idle hnone] at hmem
      cases hmem
    rw [handleLine_of_wanted (hwanted.symm.trans hq), report_fst]
    simp only [seen_after h xs hsession]

theorem reported_quotes (h : v.Fresh) (xs : List StreamInput) :
    (v.reported xs).filter (fun e => e.quote?.isSome) = v.due xs := by
  induction xs with
  | nil => rfl
  | cons x xs ih =>
    rw [reported, List.filter_append, ih]
    cases x with
    | line l =>
      show _ ++ ((v.after xs).handleLine l).1.filter _ = v.due (.line l :: xs)
      rw [handleLine_after h xs l, due]
      cases hq : v.wantedAfter xs l with
      | none => exact List.append_nil _
      | some q =>
        dsimp only
        split <;> rfl
    | connect d => rw [handle_quiet _ (.connect d) nofun, List.append_nil, due]
    | subscribe j broken => rw [handle_quiet _ (.subscribe j broken) nofun, List.append_nil, due]
    | unsubscribe j broken => rw [handle_quiet _ (.unsubscribe j broken) nofun, List.append_nil, due]
    | disconnect => rw [handle_quiet _ (.disconnect) nofun, List.append_nil, due]
    | ended id => rw [handle_quiet _ (.ended id) nofun, List.append_nil, due]

/-- **What a streaming venue reports.** Whatever happens to a new venue, in whatever order, it reports exactly the
quotes that are due by its history: one for each line with a quote for its platform and for something that is
subscribed, in the order of the lines; and it says of a quote that it is the first exactly if it is the first for
its instrument since the last connect and the last unsubscription. Every other line comes to nothing and changes
nothing. Subscribed is what a call entered and nothing removed since. -/
theorem quotes_reported {zone : Time.Zone} {p : PlatformSettings} (hv : ofSettings zone p = .ok v)
    (xs : List StreamInput) :
    v.zone = zone ∧ v.platform = p.name ∧
    (v.reported xs).filter (fun e => e.quote?.isSome) = v.due xs ∧
    (∀ l, v.wantedAfter xs l = none → (v.after xs).handle (.line l) = ([], v.after xs)) ∧
    ∀ i, i ∈ (v.after xs).subscriptions ↔ v.holds i xs := by
  have hfresh := fresh_ofSettings hv
  obtain ⟨_, -, hv⟩ := bind_eq_ok.1 hv
  cases hv
  refine ⟨rfl, rfl, reported_quotes hfresh xs, fun l hl => ?_, subscriptions_after hfresh xs⟩
  exact handleLine_of_unwanted ((wantedAfter_eq _ xs l).symm.trans hl)

def undialed : StreamingVenue := ⟨"TCP", "desk", "desk", 60, .utc, none, 0, [], [], [], []⟩

/-- Two subscriptions of an instrument, with two quotes for it in the first and one in the second. -/
def subscribedTwice : List StreamInput :=
  [.line (FeedQuote.sample "tcp" "USDTRY").line, .subscribe "USDTRY" none, .unsubscribe "USDTRY" none,
    .line (FeedQuote.sample "TCP" "USDTRY").line, .line "SUCCESS|SUBSCRIBED".toList,
    .line (FeedQuote.sample "TCP" "USDTRY").line, .line (FeedQuote.sample "TCP" "EURUSD").line,
    .subscribe "USDTRY" none, .connect (.greeted "SUCCESS|CONNECTED".toList)]

theorem quotes_reported_subscribedTwice :
    ofSettings .utc Race.steady = .ok undialed ∧
    (undialed.reported subscribedTwice).filter (fun e => e.quote?.isSome) =
      [.available "USDTRY" (FeedQuote.sample "TCP" "USDTRY").toRate,
        .update "USDTRY" (FeedQuote.sample "TCP" "USDTRY").toRate,
        .available "USDTRY" (FeedQuote.sample "TCP" "USDTRY").toRate] := by
  have hv : ofSettings .utc Race.steady = .ok undialed := by rfl
  exact ⟨hv, (quotes_reported hv subscribedTwice).2.2.1.trans (by decide)⟩

end StreamingVenue

end RateDesk
