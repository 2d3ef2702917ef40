import RateDesk.Proofs.Venue.Dispatch

/-!
# What a streaming venue has asked for

* `wrote`, `sent_handle` : the commands that are written when something happens;
* `utters`, `wrote_eq`, `mem_utters` : which commands these are, and when there are any;
* `Asks`, `mem_wrote` : the calls that have a subscribe command written, or fail in writing it;
* `Onward` : a session goes on with all subscriptions that are not removed, or it is over; `onward_handle`, whatever
  happens;
* `Barred` : on a connection nobody asks for an instrument any more, because it is subscribed there or the session is
  over; `Barred.onward`, only the removal of the instrument ends that;
* `books_kept` : the books of a venue along any history, and when the same command is written again.
-/

namespace RateDesk.StreamingVenue

variable {v w u : StreamingVenue} {x y : StreamInput} {xs ys : List StreamInput} {i j : String} {id : Nat}
  {broken : Option String} {c : FeedCommand}

/-! ## What is written -/

/-- The commands that are written when something happens to a venue, each with the number of its connection. -/
def wrote (v : StreamingVenue) (x : StreamInput) : List (Nat × FeedCommand) :=
  (v.handle x).2.sent.drop v.sent.length

/-- A command on the connection of the stored session, if there is one. -/
def onSession (v : StreamingVenue) (c : FeedCommand) : List (Nat × FeedCommand) :=
  v.sessionId?.toList.map fun id => (id, c)

/-- The parting command to a session that is given up. -/
def parting (v : StreamingVenue) : List (Nat × FeedCommand) := v.onSession (.disconnect v.username v.password)

/-- The login on the next connection, if one is made. -/
def login (v : StreamingVenue) (d : Dial) : List (Nat × FeedCommand) :=
  if d.connects then [(v.lastId + 1, .connect v.username v.password)] else []

/-- The commands that something that happens is to have written. -/
def utters (v : StreamingVenue) : StreamInput → List (Nat × FeedCommand)
  | .connect d => v.parting ++ v.login d
  | .subscribe i broken => if i ∉ v.subscriptions ∧ broken = none then v.onSession (.subscribe v.platform i) else []
  | .unsubscribe i broken => if i ∈ v.subscriptions ∧ broken = none then v.onSession (.unsubscribe v.platform i) else []
  | .disconnect => v.parting
  | .line _ => []
  | .ended _ => []

theorem mem_onSession {e : Nat × FeedCommand} : e ∈ v.onSession c ↔ v.sessionId? = some e.1 ∧ e.2 = c := by
  rw [onSession, List.mem_map]
  constructor
  · rintro ⟨id, hid, rfl⟩
    exact ⟨Option.mem_toList.1 hid, rfl⟩
  · rintro ⟨hid, rfl⟩
    exact ⟨e.1, Option.mem_toList.2 hid, rfl⟩

theorem sent_claim (v : StreamingVenue) (id : Nat) : (v.claim id).2.sent = v.sent := by
  obtain ⟨claimed, hclaim⟩ := v.claim_snd id
  rw [hclaim]

theorem sent_closeSession (v : StreamingVenue) : v.closeSession.sent = v.sent ++ v.parting := by
  rw [closeSession_eq, parting, onSession, sessionId?]
  cases v.session with
  | none => exact (List.append_nil _).symm
  | some s => exact congrArg (· ++ [(s.id, .disconnect v.username v.password)]) (sent_claim v.take.2 s.id)

theorem sent_opened (v : StreamingVenue) (d : Dial) : (v.opened d).sent = v.sent ++ v.login d := by
  unfold opened login
  split
  · rfl
  · exact (List.append_nil _).symm

/-- Closing a session does not change how the next login is written. -/
theorem login_closed (v : StreamingVenue) (d : Dial) : v.closeSession.reset.login d = v.login d := by
  have hprofile := profile_closeSession v
  have husername : v.closeSession.reset.username = v.username := congrArg (·.2.1) hprofile
  have hpassword : v.closeSession.reset.password = v.password := congrArg (·.2.2) hprofile
  have hlast : v.closeSession.reset.lastId = v.lastId := lastId_closed v
  rw [login, husername, hpassword, hlast, login]

theorem sent_connect (v : StreamingVenue) (d : Dial) : (v.connect d).2.2.sent = v.sent ++ (v.parting ++ v.login d) := by
  have hopened : (v.closeSession.reset.opened d).sent = v.sent ++ (v.parting ++ v.login d) := by
    rw [sent_opened, login_closed, ← List.append_assoc, ← sent_closeSession]
    rfl
  rw [connect_eq]
  split
  · exact hopened
  · exact hopened

theorem sent_send (v : StreamingVenue) (c : FeedCommand) (broken : Option String) :
    (v.send c broken).2.sent = v.sent ++ if broken = none then v.onSession c else [] := by
  unfold send onSession sessionId?
  cases v.session with
  | none => exact (List.append_nil _).symm.trans (congrArg _ (ite_self _).symm)
  | some s =>
    cases broken with
    | none => rfl
    | some why => exact (List.append_nil _).symm

theorem sent_subscribe (v : StreamingVenue) (i : String) (broken : Option String) :
    (v.subscribe i broken).2.sent =
      v.sent ++ if i ∉ v.subscriptions ∧ broken = none then v.onSession (.subscribe v.platform i) else [] := by
  unfold subscribe
  by_cases hi : i ∈ v.subscriptions
  · rw [if_pos hi, if_neg fun h => h.1 hi, List.append_nil]
  · have hsent := sent_send { v with subscriptions := i :: v.subscriptions } (.subscribe v.platform i) broken
    rw [if_neg hi]
    simp only [hi, not_false_eq_true, true_and]
    split <;> exact hsent

theorem sent_unsubscribe (v : StreamingVenue) (i : String) (broken : Option String) :
    (v.unsubscribe i broken).2.sent =
      v.sent ++ if i ∈ v.subscriptions ∧ broken = none then v.onSession (.unsubscribe v.platform i) else [] := by
  unfold unsubscribe
  by_cases hi : i ∈ v.subscriptions
  · rw [if_pos hi]
    simp only [hi, true_and]
    exact sent_send { v with subscriptions := v.subscriptions.filter (· ≠ i), seen := v.seen.filter (· ≠ i) }
      (.unsubscribe v.platform i) broken
  · rw [if_neg hi, if_neg fun h => hi h.1, List.append_nil]

theorem sent_handleLine (v : StreamingVenue) (l : List Char) : (v.handleLine l).2.sent = v.sent := by
  cases hq : wanted? v.zone v.platform v.subscriptions l with
  | none => rw [handleLine_of_unwanted hq]
  | some q =>
    rw [handleLine_of_wanted hq]
    unfold report
    split <;> rfl

theorem sent_readerEnds (v : StreamingVenue) (id : Nat) : (v.readerEnds id).2.sent = v.sent := by
  have hclaim := sent_claim v id
  unfold readerEnds reportEnd
  dsimp only
  split
  · exact hclaim
  · split <;> exact hclaim

/-- Whatever happens has just the commands written that it utters. -/
theorem sent_handle_utters (v : StreamingVenue) (x : StreamInput) : (v.handle x).2.sent = v.sent ++ v.utters x := by
  cases x with
  | connect d => exact sent_connect v d
  | subscribe i broken => exact sent_subscribe v i broken
  | unsubscribe i broken => exact sent_unsubscribe v i broken
  | disconnect => exact sent_closeSession v
  | line l => exact (sent_handleLine v l).trans (List.append_nil _).symm
  | ended id => exact (sent_readerEnds v id).trans (List.append_nil _).symm

theorem wrote_eq (v : StreamingVenue) (x : StreamInput) : v.wrote x = v.utters x := by
  rw [wrote, sent_handle_utters, List.drop_left]

theorem sent_handle (v : StreamingVenue) (x : StreamInput) : (v.handle x).2.sent = v.sent ++ v.wrote x := by
  rw [wrote_eq, sent_handle_utters]

/-! ## Subscribe commands -/

/-- Something that happens has the subscribe command for an instrument written on a connection, or the write of it
fails. -/
structure Asks (v : StreamingVenue) (x : StreamInput) (id : Nat) (i : String) : Prop where
  call : ∃ broken, x = .subscribe i broken
  unsubscribed : i ∉ v.subscriptions
  session : v.sessionId? = some id

/-- A command is uttered to part with a session, to log in, or to ask for an instrument or not to ask for it any
more. -/
theorem mem_utters (h : (id, c) ∈ v.utters x) :
    c = .disconnect v.username v.password ∧ v.sessionId? = some id ∨
      c = .connect v.username v.password ∧ id = v.lastId + 1 ∨
      (∃ i, x = .subscribe i none ∧ c = .subscribe v.platform i ∧ i ∉ v.subscriptions ∧ v.sessionId? = some id) ∨
      ∃ i, x = .unsubscribe i none ∧ c = .unsubscribe v.platform i ∧ i ∈ v.subscriptions ∧ v.sessionId? = some id := by
  have hparting : (id, c) ∈ v.parting → c = .disconnect v.username v.password ∧ v.sessionId? = some id :=
    fun h => (mem_onSession.1 h).symm
  cases x with
  | connect d =>
    rw [utters, List.mem_append, login] at h
    rcases h with h | h
    · exact Or.inl (hparting h)
    · split at h
      · cases List.mem_singleton.1 h
        exact Or.inr (Or.inl ⟨rfl, rfl⟩)
      · cases h
  | subscribe i broken =>
    rw [utters] at h
    split at h
    · rename_i hi
      obtain ⟨hid, hc⟩ := mem_onSession.1 h
      exact Or.inr (Or.inr (Or.inl ⟨i, congrArg _ hi.2, hc, hi.1, hid⟩))
    · cases h
  | unsubscribe i broken =>
    rw [utters] at h
    split at h
    · rename_i hi
      obtain ⟨hid, hc⟩ := mem_onSession.1 h
      exact Or.inr (Or.inr (Or.inr ⟨i, congrArg _ hi.2, hc, hi.1, hid⟩))
    · cases h
  | disconnect => exact Or.inl (hparting h)
  | line l => cases h
  | ended n => cases h

/-- The subscribe commands that are written are those of calls that ask and can write. -/
theorem mem_wrote {p : String} :
    (id, .subscribe p i) ∈ v.wrote x ↔ p = v.platform ∧ v.Asks x id i ∧ x = .subscribe i none := by
  rw [wrote_eq]
  constructor
  · intro hmem
    obtain ⟨hc, -⟩ | ⟨hc, -⟩ | ⟨j, hx, hc, hj, hid⟩ | ⟨j, -, hc, -⟩ := mem_utters hmem
    · cases hc
    · cases hc
    · cases hc
      exact ⟨rfl, ⟨⟨none, hx⟩, hj, hid⟩, hx⟩
    · cases hc
  · rintro ⟨rfl, h, rfl⟩
    rw [utters, if_pos ⟨h.unsubscribed, rfl⟩]
    exact mem_onSession.2 ⟨h.session, rfl⟩

/-! ## Sessions along a history -/

/-- Something that happens is the unsubscription of an instrument that is subscribed. -/
def Removes (v : StreamingVenue) (x : StreamInput) (i : String) : Prop :=
  (∃ broken, x = .unsubscribe i broken) ∧ i ∈ v.subscriptions

/-- When something happens to a venue its session goes on, with all subscriptions that are not removed, or it is over.
A session that begins has a number of its own. -/
structure Onward (v : StreamingVenue) (x : StreamInput) (w : StreamingVenue) : Prop where
  lastId : v.lastId ≤ w.lastId
  session : ∀ id, w.sessionId? = some id →
    (v.sessionId? = some id ∧ ∀ i ∈ v.subscriptions, ¬ v.Removes x i → i ∈ w.subscriptions) ∨
      v.lastId < id ∧ id ≤ w.lastId

theorem Keeps.onward (h : v.Keeps w) (hsubs : ∀ i ∈ v.subscriptions, ¬ v.Removes x i → i ∈ w.subscriptions) :
    v.Onward x w where
  lastId := h.lastId.ge
  session id hid := Or.inl ⟨by rwa [sessionId?, h.session] at hid, hsubs⟩

theorem onward_of_none (hlast : v.lastId ≤ w.lastId) (hnone : w.session = none) : v.Onward x w where
  lastId := hlast
  session id hid := by
    rw [sessionId?, hnone] at hid
    cases hid

theorem onward_connect (v : StreamingVenue) (d : Dial) : v.Onward x (v.connect d).2.2 := by
  have hle : v.lastId ≤ (v.closeSession.reset.opened d).lastId := by
    rw [← lastId_closed v]
    exact lastId_le_opened v.closeSession.reset d
  rw [connect_eq]
  split
  · refine onward_of_none hle ?_
    rw [session_opened]
    exact session_closed v
  · rename_i hd
    have hlast : (v.closeSession.reset.opened d).lastId = v.lastId + 1 :=
      (lastId_opened hd).trans (congrArg (· + 1) (lastId_closed v))
    refine ⟨hle, fun id hid => Or.inr ?_⟩
    have hnew : (v.closeSession.reset.opened d).lastId = id := Option.some.inj hid
    show v.lastId < id ∧ id ≤ (v.closeSession.reset.opened d).lastId
    omega

theorem onward_subscribe (v : StreamingVenue) (i : String) (broken : Option String) :
    v.Onward x (v.subscribe i broken).2 := by
  obtain ⟨-, hok, herror⟩ := subscribe_books v i broken
  apply (keeps_subscribe v i broken).onward
  intro j hj _
  by_cases hr : (v.subscribe i broken).1 = .ok ()
  · exact (hok hr j).2 (Or.inr hj)
  · rw [(herror hr).2]
    exact hj

theorem onward_unsubscribe (hv : v.Settled) (i : String) (broken : Option String) :
    v.Onward (.unsubscribe i broken) (v.unsubscribe i broken).2 := by
  apply (keeps_unsubscribe v i broken).onward
  intro j hj hremoves
  have hne : j ≠ i := by
    rintro rfl
    exact hremoves ⟨⟨broken, rfl⟩, hj⟩
  exact ((unsubscribe_books hv i broken).1 j).2 ⟨hne, hj⟩

theorem onward_readerEnds (v : StreamingVenue) (id : Nat) : v.Onward x (v.readerEnds id).2 := by
  have hlast : v.lastId = (v.readerEnds id).2.lastId := by
    unfold readerEnds
    dsimp only
    split
    · exact (lastId_claim v id).symm
    · exact ((Race.lastId_reportEnd _ id).trans (lastId_claim v id)).symm
  obtain ⟨-, hsession, hsubs, -⟩ | ⟨-, hnone, -, -⟩ := readerEnds_books v id
  · refine ⟨hlast.le, fun n hn => Or.inl ⟨?_, fun i hi _ => hsubs ▸ hi⟩⟩
    rwa [sessionId?, hsession] at hn
  · exact onward_of_none hlast.le hnone

theorem onward_handle (hv : v.Settled) (x : StreamInput) : v.Onward x (v.handle x).2 := by
  cases x with
  | connect d => exact onward_connect v d
  | subscribe i broken => exact onward_subscribe v i broken
  | unsubscribe i broken => exact onward_unsubscribe hv i broken
  | disconnect => exact onward_of_none (lastId_closed v).ge (session_closed v)
  | line l => exact (keeps_handleLine v l).1.onward fun i hi _ => (subscriptions_handleLine v l).symm ▸ hi
  | ended id => exact onward_readerEnds v id

/-- A session has the number of a connection that was made already. -/
theorem Fresh.numbered (h : v.Fresh) (xs : List StreamInput) (hid : (v.after xs).sessionId? = some id) :
    id ≤ (v.after xs).lastId := by
  induction xs with
  | nil =>
    rw [after, sessionId?, h.session] at hid
    cases hid
  | cons x xs ih =>
    have honward := onward_handle (h.settled.after xs) x
    rcases honward.session id hid with ⟨hsame, -⟩ | ⟨-, hle⟩
    · exact (ih hsame).trans honward.lastId
    · exact hle

/-! ## Asking again -/

/-- Nobody asks for an instrument on a connection that was made already: the instrument is subscribed there, or the
session is over. -/
structure Barred (v : StreamingVenue) (id : Nat) (i : String) : Prop where
  old : id ≤ v.lastId
  subscribed : v.sessionId? = some id → i ∈ v.subscriptions

theorem Barred.not_asks (h : v.Barred id i) : ¬ v.Asks x id i :=
  fun hask => hask.unsubscribed (h.subscribed hask.session)

/-- Nothing but the removal of the instrument lets it be asked for again. -/
theorem Barred.onward (h : v.Barred id i) (honward : v.Onward x w) (hx : ¬ v.Removes x i) : w.Barred id i := by
  refine ⟨h.old.trans honward.lastId, fun hid => ?_⟩
  rcases honward.session id hid with ⟨hsame, hsubs⟩ | ⟨hlt, -⟩
  · exact hsubs i (h.subscribed hsame) hx
  · exact absurd h.old (Nat.not_le.2 hlt)

/-- A call that succeeds bars the instrument on every connection so far. -/
theorem barred_subscribe (hid : id ≤ v.lastId) (hok : (v.subscribe i broken).1 = .ok ()) :
    (v.subscribe i broken).2.Barred id i where
  old := hid.trans (keeps_subscribe v i broken).lastId.ge
  subscribed _ := ((subscribe_books v i broken).2.1 hok i).2 (Or.inl rfl)

/-- Along a history an instrument is removed, or it stays barred. -/
theorem Barred.after (h : w.Barred id i) (hw : w.Settled) (ys : List StreamInput) :
    (∃ ys₁ x ys₂, ys = ys₁ ++ x :: ys₂ ∧ (w.after ys₂).Removes x i) ∨ (w.after ys).Barred id i := by
  induction ys with
  | nil => exact Or.inr h
  | cons y ys ih =>
    obtain ⟨ys₁, x, ys₂, rfl, hx⟩ | hbarred := ih
    · exact Or.inl ⟨y :: ys₁, x, ys₂, rfl, hx⟩
    · by_cases hy : (w.after ys).Removes y i
      · exact Or.inl ⟨[], y, ys, rfl, hy⟩
      · exact Or.inr (hbarred.onward (onward_handle (hw.after ys) y) hy)

theorem after_append (v : StreamingVenue) (ys xs : List StreamInput) : v.after (ys ++ xs) = (v.after xs).after ys := by
  induction ys with
  | nil => rfl
  | cons y ys ih => rw [List.cons_append, after, ih, after]

/-- Of two calls that ask for an instrument on one connection the earlier one failed, or the instrument was removed
in between. -/
theorem Fresh.asks_again (h : v.Fresh) (xs ys : List StreamInput) (hy : (v.after xs).Asks y id i)
    (hx : (v.after (ys ++ y :: xs)).Asks x id i) :
    (∃ broken, y = .subscribe i broken ∧ ((v.after xs).subscribe i broken).1 ≠ .ok ()) ∨
      ∃ ys₁ z ys₂, ys = ys₁ ++ z :: ys₂ ∧ (v.after (ys₂ ++ y :: xs)).Removes z i := by
  obtain ⟨broken, rfl⟩ := hy.call
  by_cases hr : ((v.after xs).subscribe i broken).1 = .ok ()
  · have hbarred := barred_subscribe (h.numbered xs hy.session) hr
    obtain ⟨ys₁, z, ys₂, hys, hz⟩ | hend := hbarred.after ((h.settled.after xs).subscribe i broken) ys
    · refine Or.inr ⟨ys₁, z, ys₂, hys, ?_⟩
      rw [after_append]
      exact hz
    · rw [after_append] at hx
      exact absurd hx hend.not_asks
  · exact Or.inl ⟨broken, rfl, hr⟩

/-! ## The books along a history -/

/-- **The books of a streaming venue.** Along every history of a new venue, whatever is dialed, whatever lines come,
and whether writes succeed or not: without a session nothing is subscribed and nothing is marked; a mark belongs to
something subscribed; a call to subscribe that fails leaves subscriptions and marks as they were; an unsubscription
removes the instrument and its mark, and nothing else, even if it fails. And subscribe commands are written by the
calls that ask, when they can write; on one connection an instrument is asked for again only after a call that asked
for it failed, or the instrument was removed by an unsubscription. -/
theorem books_kept {zone : Time.Zone} {p : PlatformSettings} (hv : ofSettings zone p = .ok v)
    (xs : List StreamInput) :
    let w := v.after xs
    (w.session = none → w.subscriptions = [] ∧ w.seen = []) ∧
    (∀ i ∈ w.seen, i ∈ w.subscriptions) ∧
    (∀ i broken, (w.subscribe i broken).1 ≠ .ok () →
      (w.subscribe i broken).2.subscriptions = w.subscriptions ∧ (w.subscribe i broken).2.seen = w.seen) ∧
    (∀ i broken j,
      (j ∈ (w.unsubscribe i broken).2.subscriptions ↔ j ≠ i ∧ j ∈ w.subscriptions) ∧
        (j ∈ (w.unsubscribe i broken).2.seen ↔ j ≠ i ∧ j ∈ w.seen)) ∧
    (∀ x, (w.handle x).2.sent = w.sent ++ w.wrote x ∧
      ∀ id q i, (id, .subscribe q i) ∈ w.wrote x ↔ q = p.name ∧ w.Asks x id i ∧ x = .subscribe i none) ∧
    ∀ y x ys id i, w.Asks y id i → (v.after (ys ++ y :: xs)).Asks x id i →
      (∃ broken, y = .subscribe i broken ∧ (w.subscribe i broken).1 ≠ .ok ()) ∨
        ∃ ys₁ z ys₂, ys = ys₁ ++ z :: ys₂ ∧ (v.after (ys₂ ++ y :: xs)).Removes z i := by
  have hfresh := fresh_ofSettings hv
  have hsettled := hfresh.settled.after xs
  have hplatform : (v.after xs).platform = p.name := by
    obtain ⟨_, -, hv⟩ := bind_eq_ok.1 hv
    cases hv
    exact congrArg Prod.snd (identity_after _ xs)
  refine ⟨fun hnone => ⟨hsettled.idle hnone, ?_⟩, hsettled.marked,
    fun i broken hr => ⟨((subscribe_books _ i broken).2.2 hr).2, (subscribe_books _ i broken).1⟩,
    fun i broken j => ⟨(unsubscribe_books hsettled i broken).1 j, (unsubscribe_books hsettled i broken).2 j⟩,
    fun x => ⟨sent_handle _ x, fun id q i => hplatform ▸ mem_wrote⟩,
    fun y x ys id i => hfresh.asks_again xs ys⟩
  exact List.eq_nil_iff_forall_not_mem.2 fun i hi => by
    have hsub := hsettled.marked i hi
    rw [hsettled.idle hnone] at hsub
    cases hsub

/-- A subscription with a quote, and the call to end it, which fails; oldest last. -/
def partlyUnsubscribed : List StreamInput :=
  [.unsubscribe "USDTRY" (some "broken pipe"), .line (FeedQuote.sample "TCP" "USDTRY").line]

theorem books_kept_partlyUnsubscribed :
    ofSettings .utc Race.steady = .ok undialed ∧
    let up := [StreamInput.connect (.greeted "SUCCESS|CONNECTED".toList)]
    let ask := StreamInput.subscribe "USDTRY" none
    let w := undialed.after (partlyUnsubscribed ++ ask :: up)
    ((undialed.after (ask :: up)).subscriptions = ["USDTRY"] ∧ w.subscriptions = [] ∧ w.seen = []) ∧
    (1, .subscribe "TCP" "USDTRY") ∈ w.wrote ask ∧
    ∃ ys₁ z ys₂, partlyUnsubscribed = ys₁ ++ z :: ys₂ ∧ (undialed.after (ys₂ ++ ask :: up)).Removes z "USDTRY" := by
  have hv : ofSettings .utc Race.steady = .ok undialed := by rfl
  refine ⟨hv, ?_⟩
  intro up ask w
  have hfirst : (undialed.after up).Asks ask 1 "USDTRY" := ⟨⟨none, rfl⟩, by decide, by decide⟩
  have hsecond : w.Asks ask 1 "USDTRY" := ⟨⟨none, rfl⟩, by decide, by decide⟩
  obtain ⟨-, -, -, -, hwrites, -⟩ := books_kept hv (partlyUnsubscribed ++ ask :: up)
  obtain ⟨-, -, -, -, -, hagain⟩ := books_kept hv up
  refine ⟨⟨by decide, by decide, by decide⟩, ((hwrites ask).2 1 "TCP" "USDTRY").2 ⟨rfl, hsecond, rfl⟩, ?_⟩
  obtain ⟨broken, hask, hr⟩ | hremoved := hagain ask ask partlyUnsubscribed 1 "USDTRY" hfirst hsecond
  · obtain rfl : none = broken := (StreamInput.subscribe.inj hask).2
    exact absurd (by rfl) hr
  · exact hremoved

end RateDesk.StreamingVenue
