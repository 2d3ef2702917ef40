import RateDesk.Proofs.Venue.Race

/-!
# The life of a session

* `View`, `Life` : all that happens to a single session, from before its connect to its end;
* `Kept` : the invariant of a race, every session is somewhere in its life;
* `reachable_reports` : which sessions are reported, and how often.
-/

namespace RateDesk.Race

open StreamingVenue

/-! ## Single sessions -/

/-- What was reported of a session, other than quotes. -/
def reports (s : Race) (id : Nat) : List VenueEvent :=
  (s.events.filter fun p => p.1 = some id ∧ p.2.quote? = none).map Prod.snd

/-- All that concerns a single session. -/
structure View where
  stored : Bool
  taken : Bool
  claimed : Bool
  reader : Reader
  reports : List VenueEvent

/-- All that concerns the session with a number. -/
def view (s : Race) (id : Nat) : View where
  stored := decide (s.venue.sessionId? = some id)
  taken := decide (id ∈ s.taken)
  claimed := decide (id ∈ s.venue.claimed)
  reader := s.readers id
  reports := s.reports id

/-- The stations of a session: it is taken, or its reader reports the end, never both. -/
inductive Life : View → Prop where
  | unborn : Life ⟨false, false, false, .absent, []⟩
  | reading : Life ⟨true, false, false, .reading, [.connected true]⟩
  | ending : Life ⟨true, false, true, .ending, [.connected true]⟩
  | taken {claimed : Bool} {r : Reader} : r ≠ .absent → Life ⟨false, true, claimed, r, [.connected true]⟩
  | reported : Life ⟨false, false, true, .over, [.connected true, .disconnected]⟩

variable {v : View}

theorem Life.take (h : Life v) (hs : v.stored = true) : Life { v with stored := false, taken := true } := by
  cases h with
  | reading => exact .taken nofun
  | ending => exact .taken nofun
  | unborn => cases hs
  | taken _ => cases hs
  | reported => cases hs

theorem Life.part (h : Life v) (ht : v.taken = true) : Life { v with claimed := true } := by
  cases h with
  | taken hr => exact .taken hr
  | unborn => cases ht
  | reading => cases ht
  | ending => cases ht
  | reported => cases ht

theorem Life.store (h : Life v) (ha : v.reader = .absent) :
    Life { v with stored := true, reader := .reading, reports := v.reports ++ [.connected true] } := by
  cases h with
  | unborn => exact .reading
  | taken hr => exact absurd ha hr
  | reading => cases ha
  | ending => cases ha
  | reported => cases ha

theorem Life.claim (h : Life v) (hr : v.reader = .reading) :
    Life { v with claimed := true, reader := if v.claimed then .over else .ending } := by
  cases h with
  | reading => exact .ending
  | @taken claimed r _ =>
    cases claimed with
    | false => exact .taken nofun
    | true => exact .taken nofun
  | unborn => cases hr
  | ending => cases hr
  | reported => cases hr

theorem Life.abort (h : Life v) (hr : v.reader = .reading) (hc : v.claimed = true) :
    Life { v with reader := .over } := by
  cases h with
  | taken _ => exact .taken nofun
  | unborn => cases hr
  | reading => cases hc
  | ending => cases hr
  | reported => cases hr

theorem Life.report (h : Life v) (hr : v.reader = .ending) (hs : v.stored = true) :
    Life { v with stored := false, reader := .over, reports := v.reports ++ [.disconnected] } := by
  cases h with
  | ending => exact .reported
  | taken _ => cases hs
  | unborn => cases hs
  | reading => cases hr
  | reported => cases hs

theorem Life.stale (h : Life v) (hr : v.reader = .ending) (hs : v.stored = false) :
    Life { v with reader := .over } := by
  cases h with
  | taken _ => exact .taken nofun
  | unborn => cases hr
  | reading => cases hs
  | ending => cases hs
  | reported => cases hr

/-! ## What steps change of a session -/

section Views

variable {s : Race} {id j : Nat} {r : Reader}

theorem reports_append (s : Race) (o : Option Nat) (es : List VenueEvent) (j : Nat) :
    ({ s with events := s.events ++ tagged o es } : Race).reports j =
      s.reports j ++ if o = some j then es.filter fun e => e.quote? = none else [] := by
  unfold reports
  rw [List.filter_append, List.map_append]
  congr 1
  induction es with
  | nil => split <;> rfl
  | cons e es ih =>
    rw [tagged, List.map_cons, List.filter_cons, ← tagged]
    by_cases ho : o = some j
    · rw [if_pos ho] at ih ⊢
      rw [List.filter_cons]
      by_cases he : e.quote? = none
      · rw [if_pos (by simp [ho, he]), if_pos (by simp [he]), List.map_cons, ih]
      · rw [if_neg (by simp [he]), if_neg (by simp [he]), ih]
    · rw [if_neg ho] at ih ⊢
      rw [if_neg (by simp [ho]), ih]

theorem mem_reports {e : VenueEvent} (he : e.quote? = none) : e ∈ s.reports j ↔ (some j, e) ∈ s.events := by
  unfold reports
  constructor
  · intro h
    obtain ⟨⟨o, x⟩, hx, rfl⟩ := List.mem_map.1 h
    obtain ⟨hmem, ho⟩ := List.mem_filter.1 hx
    rw [decide_eq_true_eq] at ho
    rw [← ho.1]
    exact hmem
  · intro h
    exact List.mem_map.2 ⟨(some j, e), List.mem_filter.2 ⟨h, by simp [he]⟩, rfl⟩

theorem move_self (s : Race) (id : Nat) (r : Reader) : s.move id r id = r := if_pos rfl

theorem move_of_ne (s : Race) (r : Reader) (h : j ≠ id) : s.move id r j = s.readers j := if_neg h

theorem stored_view : (s.view j).stored = true ↔ s.venue.sessionId? = some j := decide_eq_true_iff

/-- The view of a session depends on little. -/
theorem view_congr {s' : Race} (hstored : s'.venue.sessionId? = some j ↔ s.venue.sessionId? = some j)
    (htaken : j ∈ s'.taken ↔ j ∈ s.taken) (hclaimed : j ∈ s'.venue.claimed ↔ j ∈ s.venue.claimed)
    (hreader : s'.readers j = s.readers j) (hreports : s'.reports j = s.reports j) : s'.view j = s.view j := by
  unfold view
  rw [decide_eq_decide.2 hstored, decide_eq_decide.2 htaken, decide_eq_decide.2 hclaimed, hreader, hreports]

theorem sessionId?_eq {w w' : StreamingVenue} (h : w'.session = w.session) : w'.sessionId? = w.sessionId? :=
  congrArg (Option.map StreamSession.id) h

theorem view_keeps {w : StreamingVenue} (hv : s.venue.Keeps w) (j : Nat) :
    ({ s with venue := w } : Race).view j = s.view j :=
  view_congr (by rw [sessionId?_eq hv.session]) Iff.rfl (by rw [hv.claimed]) rfl rfl

theorem view_take (s : Race) (j : Nat) :
    s.take.view j =
      if (s.view j).stored = true then { s.view j with stored := false, taken := true } else s.view j := by
  have hnone : s.take.venue.sessionId? = none := rfl
  by_cases h : s.venue.sessionId? = some j
  · have hmem : j ∈ s.take.taken := by
      show j ∈ s.venue.sessionId?.toList ++ s.taken
      rw [h]
      exact List.mem_cons_self
    rw [if_pos (stored_view.2 h)]
    show View.mk _ _ _ _ _ = View.mk _ _ _ _ _
    rw [hnone, decide_eq_true hmem]
    rfl
  · have hmem : j ∈ s.take.taken ↔ j ∈ s.taken := by
      show j ∈ s.venue.sessionId?.toList ++ s.taken ↔ j ∈ s.taken
      rw [List.mem_append, Option.mem_toList]
      exact or_iff_right h
    rw [if_neg (mt stored_view.1 h)]
    exact view_congr ⟨fun he => absurd (hnone.symm.trans he) nofun, fun he => absurd he h⟩ hmem Iff.rfl rfl rfl

theorem view_parted (s : Race) (x : StreamSession) (j : Nat) :
    ({ s with venue := s.venue.parted (some x) } : Race).view j =
      if j = x.id then { s.view j with claimed := true } else s.view j := by
  have hsession : (s.venue.parted (some x)).sessionId? = s.venue.sessionId? :=
    sessionId?_eq (session_claim s.venue x.id)
  have hclaimed : j ∈ (s.venue.parted (some x)).claimed ↔ j = x.id ∨ j ∈ s.venue.claimed :=
    claimed_claim s.venue x.id j
  by_cases hj : j = x.id
  · rw [if_pos hj]
    show View.mk _ _ _ _ _ = View.mk _ _ _ _ _
    rw [hsession, decide_eq_true (hclaimed.2 (Or.inl hj))]
    rfl
  · rw [if_neg hj]
    exact view_congr (by rw [hsession]) Iff.rfl (hclaimed.trans (or_iff_right hj)) rfl rfl

theorem view_opened (s : Race) (d : Dial) (j : Nat) :
    ({ s with venue := s.venue.opened d } : Race).view j = s.view j :=
  view_congr (by rw [sessionId?_eq (session_opened s.venue d)]) Iff.rfl (by rw [claimed_opened]) rfl rfl

theorem view_claim (s : Race) (id j : Nat) :
    ({ s with venue := (s.venue.claim id).2,
              readers := s.move id (if (s.venue.claim id).1 then .over else .ending) } : Race).view j =
      if j = id then
        { s.view j with claimed := true, reader := if (s.view j).claimed then .over else .ending }
      else s.view j := by
  have hsession : (s.venue.claim id).2.sessionId? = s.venue.sessionId? := sessionId?_eq (session_claim s.venue id)
  have hclaimed := claimed_claim s.venue id j
  by_cases hj : j = id
  · subst hj
    rw [if_pos rfl]
    show View.mk _ _ _ (s.move j _ j) _ = View.mk _ _ _ _ _
    rw [hsession, decide_eq_true (hclaimed.2 (Or.inl rfl)), move_self]
    rfl
  · rw [if_neg hj]
    exact view_congr (by rw [hsession]) Iff.rfl (hclaimed.trans (or_iff_right hj)) (move_of_ne s _ hj) rfl

theorem view_over (s : Race) (id j : Nat) :
    ({ s with readers := s.move id .over } : Race).view j =
      if j = id then { s.view j with reader := .over } else s.view j := by
  by_cases hj : j = id
  · subst hj
    rw [if_pos rfl]
    show View.mk _ _ _ (s.move j _ j) _ = View.mk _ _ _ _ _
    rw [move_self]
    rfl
  · rw [if_neg hj]
    exact view_congr Iff.rfl Iff.rfl Iff.rfl (move_of_ne s _ hj) rfl

theorem view_store (s : Race) (hnone : s.venue.session = none) (j : Nat) :
    ({ s with venue := s.venue.store.2, readers := s.move s.venue.lastId .reading,
              events := s.events ++ tagged (some s.venue.lastId) s.venue.store.1 } : Race).view j =
      if j = s.venue.lastId then
        { s.view j with stored := true, reader := .reading, reports := (s.view j).reports ++ [.connected true] }
      else s.view j := by
  have hreports := reports_append s (some s.venue.lastId) s.venue.store.1 j
  by_cases hj : j = s.venue.lastId
  · rw [if_pos (congrArg some hj.symm)] at hreports
    rw [if_pos hj]
    show View.mk (decide (some s.venue.lastId = some j)) _ _ (s.move _ _ j) _ = View.mk _ _ _ _ _
    rw [decide_eq_true (congrArg some hj.symm), ← hj, move_self]
    exact congrArg (View.mk true _ _ .reading) (hj ▸ hreports)
  · have hne : some s.venue.lastId ≠ some j := fun he => hj (Option.some.inj he).symm
    rw [if_neg hne, List.append_nil] at hreports
    rw [if_neg hj]
    refine view_congr ⟨fun he => absurd he hne, fun he => ?_⟩ Iff.rfl Iff.rfl (move_of_ne s _ hj) hreports
    rw [sessionId?, hnone] at he
    cases he

theorem view_report (s : Race) (id j : Nat) :
    ({ s with venue := (s.venue.reportEnd id).2, readers := s.move id .over,
              events := s.events ++ tagged (some id) (s.venue.reportEnd id).1 } : Race).view j =
      if j = id then
        if (s.view j).stored = true then
          { s.view j with stored := false, reader := .over, reports := (s.view j).reports ++ [.disconnected] }
        else { s.view j with reader := .over }
      else s.view j := by
  have hreports := reports_append s (some id) (s.venue.reportEnd id).1 j
  by_cases hj : j = id
  · subst hj
    rw [if_pos rfl] at hreports
    rw [if_pos rfl]
    by_cases hstored : s.venue.sessionId? = some j
    · rw [if_pos (stored_view.2 hstored)]
      rw [reportEnd_stored hstored] at hreports ⊢
      show View.mk _ _ _ (s.move j _ j) _ = View.mk _ _ _ _ _
      rw [move_self]
      exact congrArg (View.mk false _ _ .over) hreports
    · rw [if_neg (mt stored_view.1 hstored)]
      rw [reportEnd_stale hstored] at hreports ⊢
      show View.mk _ _ _ (s.move j _ j) _ = View.mk _ _ _ _ _
      rw [move_self]
      exact congrArg (View.mk _ _ _ .over) (hreports.trans (List.append_nil _))
  · rw [if_neg (fun he => hj (Option.some.inj he).symm), List.append_nil] at hreports
    rw [if_neg hj]
    by_cases hstored : s.venue.sessionId? = some id
    · rw [reportEnd_stored hstored] at hreports ⊢
      refine view_congr ⟨nofun, fun he => ?_⟩ Iff.rfl Iff.rfl (move_of_ne s _ hj) hreports
      exact absurd (Option.some.inj (he.symm.trans hstored)) hj
    · rw [reportEnd_stale hstored] at hreports ⊢
      exact view_congr Iff.rfl Iff.rfl Iff.rfl (move_of_ne s _ hj) hreports

end Views

/-! ## The invariant -/

/-- What holds between any two steps. -/
structure Kept (s : Race) : Prop where
  life : ∀ id, Life (s.view id)
  born : ∀ id, s.readers id ≠ .absent → id ≤ s.venue.lastId
  fresh : s.connecting = .greeted → s.readers s.venue.lastId = .absent
  empty : s.connecting ≠ .idle → s.venue.session = none
  held : ∀ x, s.connecting = .took (some x) ∨ .took (some x) ∈ s.closing → x.id ∈ s.taken
  untagged : ∀ e, (none, e) ∈ s.events → e = .connected false

theorem life_of_eq {v w : View} (h : w = v) (hv : Life v) : Life w := h ▸ hv

variable {s s' : Race} {id : Nat}

theorem kept_start {zone : Time.Zone} {p : PlatformSettings} {v : StreamingVenue}
    (h : StreamingVenue.ofSettings zone p = .ok v) : (start v).Kept := by
  cases ha : p.socketAddress with
  | error f =>
    rw [StreamingVenue.ofSettings, ha] at h
    cases h
  | ok a =>
    rw [StreamingVenue.ofSettings, ha] at h
    cases h
    exact ⟨fun _ => .unborn, fun _ hr => absurd rfl hr, nofun, fun _ => rfl, fun _ hx => by simp [start] at hx, nofun⟩

/-! ### Single changes -/

theorem Kept.connect (h : s.Kept) {c : Connecting} (hempty : c ≠ .idle → s.venue.session = none)
    (hfresh : c = .greeted → s.readers s.venue.lastId = .absent)
    (hheld : ∀ x, c = .took (some x) → x.id ∈ s.taken) : Kept { s with connecting := c } where
  life := h.life
  born := h.born
  fresh := hfresh
  empty := hempty
  held x hx := hx.elim (hheld x) fun hx => h.held x (Or.inr hx)
  untagged := h.untagged

theorem Kept.close (h : s.Kept) {cs : List Closing} (hheld : ∀ x, .took (some x) ∈ cs → x.id ∈ s.taken) :
    Kept { s with closing := cs } where
  life := h.life
  born := h.born
  fresh := h.fresh
  empty := h.empty
  held x hx := hx.elim (fun hx => h.held x (Or.inl hx)) (hheld x)
  untagged := h.untagged

/-- A disconnect that goes on holds no session any more. -/
theorem Kept.close_set (h : s.Kept) (n : Nat) {c : Closing} (hc : ∀ x, c ≠ .took (some x)) :
    Kept { s with closing := s.closing.set n c } := by
  refine h.close fun x hx => ?_
  rcases List.mem_or_eq_of_mem_set hx with hx | hx
  · exact h.held x (Or.inr hx)
  · exact absurd hx.symm (hc x)

theorem Kept.keeps (h : s.Kept) {w : StreamingVenue} (hv : s.venue.Keeps w) : Kept { s with venue := w } where
  life j := life_of_eq (view_keeps hv j) (h.life j)
  born j hj := hv.lastId ▸ h.born j hj
  fresh hc := by
    show s.readers w.lastId = .absent
    rw [hv.lastId]
    exact h.fresh hc
  empty hc := hv.session.trans (h.empty hc)
  held := h.held
  untagged := h.untagged

theorem Kept.record (h : s.Kept) {o : Option Nat} {es : List VenueEvent}
    (hsome : ∀ j, o = some j → VenueEvent.AreQuotes es) (hnone : o = none → ∀ e ∈ es, e = .connected false) :
    Kept { s with events := s.events ++ tagged o es } where
  life j := by
    have hreports : ({ s with events := s.events ++ tagged o es } : Race).reports j = s.reports j := by
      rw [reports_append]
      by_cases ho : o = some j
      · rw [if_pos ho, List.filter_eq_nil_iff.2 fun e he => by simpa using hsome j ho e he, List.append_nil]
      · rw [if_neg ho, List.append_nil]
    have hview : ({ s with events := s.events ++ tagged o es } : Race).view j = s.view j :=
      view_congr Iff.rfl Iff.rfl Iff.rfl rfl hreports
    exact life_of_eq hview (h.life j)
  born := h.born
  fresh := h.fresh
  empty := h.empty
  held := h.held
  untagged e he := by
    rcases List.mem_append.1 he with he | he
    · exact h.untagged e he
    · obtain ⟨x, hx, heq⟩ := List.mem_map.1 he
      cases heq
      exact hnone rfl e hx

theorem Kept.take (h : s.Kept) : s.take.Kept where
  life j := by
    refine life_of_eq (view_take s j) ?_
    by_cases hs : (s.view j).stored = true
    · rw [if_pos hs]
      exact (h.life j).take hs
    · rw [if_neg hs]
      exact h.life j
  born := h.born
  fresh := h.fresh
  empty _ := rfl
  held x hx := List.mem_append_right _ (h.held x hx)
  untagged := h.untagged

theorem mem_taken_take {x : StreamSession} (hx : s.venue.session = some x) : x.id ∈ s.take.taken := by
  show x.id ∈ s.venue.sessionId?.toList ++ s.taken
  rw [sessionId?, hx]
  exact List.mem_cons_self

theorem Kept.part (h : s.Kept) {x : Option StreamSession} (hx : ∀ y, x = some y → y.id ∈ s.taken) :
    Kept { s with venue := s.venue.parted x } := by
  cases x with
  | none => exact h
  | some x =>
    have hlast : (s.venue.parted (some x)).lastId = s.venue.lastId := lastId_claim s.venue x.id
    refine ⟨fun j => life_of_eq (view_parted s x j) ?_, fun j hj => hlast ▸ h.born j hj, fun hc => ?_,
      fun hc => (session_claim s.venue x.id).trans (h.empty hc), h.held, h.untagged⟩
    · by_cases hj : j = x.id
      · rw [if_pos hj]
        exact (h.life j).part (decide_eq_true (hj ▸ hx x rfl))
      · rw [if_neg hj]
        exact h.life j
    · show s.readers (s.venue.parted (some x)).lastId = .absent
      rw [hlast]
      exact h.fresh hc

theorem Kept.opened (h : s.Kept) (hc : s.connecting = .cleared) (d : Dial) :
    Kept { s with venue := s.venue.opened d } where
  life j := life_of_eq (view_opened s d j) (h.life j)
  born j hj := Nat.le_trans (h.born j hj) (lastId_le_opened s.venue d)
  fresh hg := absurd (hc.symm.trans hg) nofun
  empty hi := (session_opened s.venue d).trans (h.empty hi)
  held := h.held
  untagged := h.untagged

theorem Kept.store (h : s.Kept) (hc : s.connecting = .greeted) :
    Kept { s with venue := s.venue.store.2, connecting := .idle, readers := s.move s.venue.lastId .reading,
                  events := s.events ++ tagged (some s.venue.lastId) s.venue.store.1 } where
  life j := by
    refine life_of_eq (view_store s (h.empty (by rw [hc]; nofun)) j) ?_
    by_cases hj : j = s.venue.lastId
    · rw [if_pos hj]
      exact (h.life j).store (hj ▸ h.fresh hc)
    · rw [if_neg hj]
      exact h.life j
  born j hj := by
    by_cases hid : j = s.venue.lastId
    · exact Nat.le_of_eq hid
    · exact h.born j fun ha => hj ((move_of_ne s _ hid).trans ha)
  fresh := nofun
  empty hi := absurd rfl hi
  held x hx := h.held x (Or.inr (hx.resolve_left nofun))
  untagged e he := by
    rcases List.mem_append.1 he with he | he
    · exact h.untagged e he
    · obtain ⟨x, -, heq⟩ := List.mem_map.1 he
      cases heq

/-- A reader that exists may go anywhere, as far as connects are concerned. -/
theorem Kept.readers (h : s.Kept) (hid : s.readers id ≠ .absent) (r : Reader) (j : Nat)
    (hj : s.move id r j ≠ .absent) : j ≤ s.venue.lastId := by
  by_cases heq : j = id
  · exact heq ▸ h.born id hid
  · exact h.born j fun ha => hj ((move_of_ne s r heq).trans ha)

theorem Kept.fresh_move (h : s.Kept) (hid : s.readers id ≠ .absent) (r : Reader) (hc : s.connecting = .greeted) :
    s.move id r s.venue.lastId = .absent := by
  have hne : s.venue.lastId ≠ id := fun heq => hid (heq ▸ h.fresh hc)
  rw [move_of_ne s r hne]
  exact h.fresh hc

theorem Kept.claim (h : s.Kept) (hr : s.readers id = .reading) :
    Kept { s with venue := (s.venue.claim id).2,
                  readers := s.move id (if (s.venue.claim id).1 then .over else .ending) } := by
  have hid : s.readers id ≠ .absent := by rw [hr]; nofun
  have hlast := lastId_claim s.venue id
  refine ⟨fun j => life_of_eq (view_claim s id j) ?_, fun j hj => hlast ▸ h.readers hid _ j hj, fun hc => ?_,
    fun hc => (session_claim s.venue id).trans (h.empty hc), h.held, h.untagged⟩
  · by_cases hj : j = id
    · rw [if_pos hj]
      exact (h.life j).claim (hj ▸ hr)
    · rw [if_neg hj]
      exact h.life j
  · show s.move id _ (s.venue.claim id).2.lastId = .absent
    rw [hlast]
    exact h.fresh_move hid _ hc

theorem lastId_reportEnd (v : StreamingVenue) (id : Nat) : (v.reportEnd id).2.lastId = v.lastId := by
  unfold reportEnd
  split <;> rfl

theorem session_reportEnd_of_none {v : StreamingVenue} (id : Nat) (h : v.session = none) :
    (v.reportEnd id).2.session = none := by
  unfold reportEnd
  split
  · rfl
  · exact h

theorem Kept.report (h : s.Kept) (hr : s.readers id = .ending) :
    Kept { s with venue := (s.venue.reportEnd id).2, readers := s.move id .over,
                  events := s.events ++ tagged (some id) (s.venue.reportEnd id).1 } := by
  have hid : s.readers id ≠ .absent := by rw [hr]; nofun
  have hlast := lastId_reportEnd s.venue id
  refine ⟨fun j => life_of_eq (view_report s id j) ?_, fun j hj => hlast ▸ h.readers hid _ j hj, fun hc => ?_,
    fun hc => session_reportEnd_of_none id (h.empty hc), h.held, fun e he => ?_⟩
  · by_cases hj : j = id
    · rw [if_pos hj]
      by_cases hs : (s.view j).stored = true
      · rw [if_pos hs]
        exact (h.life j).report (hj ▸ hr) hs
      · rw [if_neg hs]
        exact (h.life j).stale (hj ▸ hr) (Bool.eq_false_iff.2 hs)
    · rw [if_neg hj]
      exact h.life j
  · show s.move id _ (s.venue.reportEnd id).2.lastId = .absent
    rw [hlast]
    exact h.fresh_move hid _ hc
  · rcases List.mem_append.1 he with he | he
    · exact h.untagged e he
    · obtain ⟨x, -, heq⟩ := List.mem_map.1 he
      cases heq

theorem Kept.abort (h : s.Kept) (hr : s.readers id = .reading) (hc : id ∈ s.venue.claimed) :
    Kept { s with readers := s.move id .over } := by
  have hid : s.readers id ≠ .absent := by rw [hr]; nofun
  refine ⟨fun j => life_of_eq (view_over s id j) ?_, h.readers hid _, h.fresh_move hid _, h.empty, h.held,
    h.untagged⟩
  by_cases hj : j = id
  · rw [if_pos hj]
    exact (h.life j).abort (hj ▸ hr) (decide_eq_true (hj ▸ hc))
  · rw [if_neg hj]
    exact h.life j

/-! ### Steps and runs -/

theorem Kept.ends (h : s.Kept) (hs : s.Ends id s') : s'.Kept := by
  cases hs with
  | claim hr => exact h.claim hr
  | report hr => exact h.report hr

/-- Whatever comes next keeps the invariant. -/
theorem Kept.step (h : s.Kept) (hs : s.Step s') : s'.Kept := by
  cases hs with
  | take hc =>
    exact h.take.connect (fun _ => rfl) nofun fun x hx => mem_taken_take (Connecting.took.inj hx)
  | @part x hc =>
    have hpart := h.part fun y hy => h.held y (Or.inl (hc.trans (congrArg _ hy)))
    exact hpart.connect (fun _ => hpart.empty (by rw [hc]; nofun)) nofun nofun
  | clear hc =>
    exact (h.keeps (keeps_reset s.venue)).connect (fun _ => h.empty (by rw [hc]; nofun)) nofun nofun
  | @greet d hc hd =>
    have hopened := h.opened hc d
    refine hopened.connect (fun _ => hopened.empty (by rw [hc]; nofun)) (fun _ => ?_) nofun
    show s.readers (s.venue.opened d).lastId = .absent
    rw [lastId_opened hd]
    exact Decidable.not_not.1 fun hne => absurd (h.born _ hne) (Nat.not_succ_le_self _)
  | @refuse d f hc hd =>
    exact ((h.opened hc d).connect nofun nofun nofun).record nofun fun _ e he => List.mem_singleton.1 he
  | store hc => exact h.store hc
  | closeTake =>
    refine h.take.close fun x hx => ?_
    rcases List.mem_append.1 hx with hx | hx
    · exact List.mem_append_right _ (h.held x (Or.inr hx))
    · exact mem_taken_take (Closing.took.inj (List.mem_singleton.1 hx)).symm
  | @closePart n x hn =>
    exact (h.part fun y hy => h.held y (Or.inr (hy ▸ List.mem_of_getElem? hn))).close_set n nofun
  | @closeClear n hn => exact (h.keeps (keeps_reset s.venue)).close_set n nofun
  | ends he => exact h.ends he
  | abort hr hc => exact h.abort hr hc
  | @line id l hr =>
    obtain ⟨hkeeps, hquotes⟩ := keeps_handleLine s.venue l
    exact (h.keeps hkeeps).record (fun _ _ => hquotes) nofun
  | subscribe i broken => exact h.keeps (keeps_subscribe s.venue i broken)
  | unsubscribe i broken => exact h.keeps (keeps_unsubscribe s.venue i broken)

theorem Reachable.kept {zone : Time.Zone} {p : PlatformSettings} (h : Reachable zone p s) : s.Kept := by
  induction h with
  | start hv => exact kept_start hv
  | step _ hs ih => exact ih.step hs

/-! ## Reports -/

theorem Life.reports_cases (h : Life v) :
    v.reports = [] ∨ v.reports = [.connected true] ∨ v.reports = [.connected true, .disconnected] := by
  cases h with
  | unborn => exact Or.inl rfl
  | reading => exact Or.inr (Or.inl rfl)
  | ending => exact Or.inr (Or.inl rfl)
  | taken _ => exact Or.inr (Or.inl rfl)
  | reported => exact Or.inr (Or.inr rfl)

theorem Life.not_taken (h : Life v) (hd : .disconnected ∈ v.reports) : v.taken = false := by
  cases h with
  | unborn => rfl
  | reading => rfl
  | ending => rfl
  | taken _ => simp at hd
  | reported => rfl

theorem Life.reported_of_over (h : Life v) (ht : v.taken = false) (hr : v.reader = .over) :
    .disconnected ∈ v.reports := by
  cases h with
  | unborn => cases hr
  | reading => cases hr
  | ending => cases hr
  | taken _ => cases ht
  | reported => exact List.mem_cons_of_mem _ List.mem_cons_self

theorem Life.stored_of_ending (h : Life v) (ht : v.taken = false) (hr : v.reader = .ending) : v.stored = true := by
  cases h with
  | unborn => cases hr
  | reading => cases hr
  | ending => rfl
  | taken _ => cases ht
  | reported => cases hr

theorem not_mem_taken : (s.view id).taken = false ↔ id ∉ s.taken := decide_eq_false_iff_not

/-- A reader that claimed the end of a session that nobody took reports it next. -/
theorem Kept.ends_ending (h : s.Kept) (ht : id ∉ s.taken) (hr : s.readers id = .ending) :
    (∃ s', s.Ends id s') ∧ ∀ s', s.Ends id s' → (some id, .disconnected) ∈ s'.events := by
  have hstored := stored_view.1 ((h.life id).stored_of_ending (not_mem_taken.2 ht) hr)
  refine ⟨⟨_, .report hr⟩, fun s' hs => ?_⟩
  cases hs with
  | claim hreading => exact absurd (hr.symm.trans hreading) nofun
  | report _ =>
    rw [reportEnd_stored hstored]
    exact List.mem_append_right _ List.mem_cons_self

/-- The reader of a session that is not the stored one ends without a trace. -/
theorem Ends.of_ne (hs : s.Ends id s') (hne : s.venue.sessionId? ≠ some id) :
    s'.venue.session = s.venue.session ∧ s'.venue.subscriptions = s.venue.subscriptions ∧
      s'.venue.seen = s.venue.seen ∧ s'.events = s.events := by
  cases hs with
  | claim _ =>
    obtain ⟨claimed, hclaim⟩ := s.venue.claim_snd id
    rw [hclaim]
    exact ⟨rfl, rfl, rfl, rfl⟩
  | report _ =>
    rw [reportEnd_stale hne]
    exact ⟨rfl, rfl, rfl, List.append_nil _⟩

theorem not_mem_tagged {o o' : Option Nat} {es : List VenueEvent} (h : .disconnected ∉ es) :
    (o', .disconnected) ∉ tagged o es := by
  intro hmem
  obtain ⟨x, hx, heq⟩ := List.mem_map.1 hmem
  cases heq
  exact h hx

/-- A step that reports the end of a session leaves no session, no subscription and no mark. -/
theorem Step.events (hs : s.Step s') : ∃ es, s'.events = s.events ++ es ∧ ∀ o, (o, .disconnected) ∈ es →
    s'.venue.session = none ∧ s'.venue.subscriptions = [] ∧ s'.venue.seen = [] := by
  have hquiet : s'.events = s.events → ∃ es, s'.events = s.events ++ es ∧ ∀ o, (o, .disconnected) ∈ es →
      s'.venue.session = none ∧ s'.venue.subscriptions = [] ∧ s'.venue.seen = [] :=
    fun h => ⟨[], h.trans (List.append_nil _).symm, nofun⟩
  cases hs with
  | take _ => exact hquiet rfl
  | part _ => exact hquiet rfl
  | clear _ => exact hquiet rfl
  | greet _ _ => exact hquiet rfl
  | closeTake => exact hquiet rfl
  | closePart _ => exact hquiet rfl
  | closeClear _ => exact hquiet rfl
  | abort _ _ => exact hquiet rfl
  | subscribe _ _ => exact hquiet rfl
  | unsubscribe _ _ => exact hquiet rfl
  | refuse _ _ => exact ⟨_, rfl, fun o ho => absurd ho (not_mem_tagged (by simp))⟩
  | store _ => exact ⟨_, rfl, fun o ho => absurd ho (not_mem_tagged (by simp [StreamingVenue.store]))⟩
  | line l _ =>
    exact ⟨_, rfl, fun o ho => absurd ho (not_mem_tagged fun hd => (keeps_handleLine s.venue l).2 _ hd rfl)⟩
  | @ends id _ he =>
    cases he with
    | claim _ => exact hquiet rfl
    | report _ =>
      refine ⟨_, rfl, fun o ho => ?_⟩
      by_cases hstored : s.venue.sessionId? = some id
      · rw [reportEnd_stored hstored]
        exact ⟨rfl, rfl, rfl⟩
      · rw [reportEnd_stale hstored] at ho
        cases ho

/-- **Every lost session is reported once, and no other.** However connects, disconnects and readers
race: a session is reported to begin and then at most once to end; an end is reported of no session
that a connect or a disconnect took, and of every other whose reader is over; the reader of a session
that is not stored any more changes nothing that belongs to a newer one; and when an end is reported,
neither session nor subscriptions nor marks are left. -/
theorem reachable_reports {zone : Time.Zone} {p : PlatformSettings} (h : Reachable zone p s) :
    (∀ id, s.reports id = [] ∨ s.reports id = [.connected true] ∨
      s.reports id = [.connected true, .disconnected]) ∧
    (∀ id, (some id, .disconnected) ∈ s.events → id ∉ s.taken) ∧ (none, .disconnected) ∉ s.events ∧
    (∀ id, id ∉ s.taken → s.readers id = .over → (some id, .disconnected) ∈ s.events) ∧
    (∀ id, id ∉ s.taken → s.readers id = .ending →
      (∃ s', s.Ends id s') ∧ ∀ s', s.Ends id s' → (some id, .disconnected) ∈ s'.events) ∧
    (∀ id s', s.Ends id s' → s.venue.sessionId? ≠ some id →
      s'.venue.session = s.venue.session ∧ s'.venue.subscriptions = s.venue.subscriptions ∧
        s'.venue.seen = s.venue.seen ∧ s'.events = s.events) ∧
    ∀ s', s.Step s' → ∃ es, s'.events = s.events ++ es ∧ ∀ o, (o, .disconnected) ∈ es →
      s'.venue.session = none ∧ s'.venue.subscriptions = [] ∧ s'.venue.seen = [] := by
  have hkept := h.kept
  refine ⟨fun id => (hkept.life id).reports_cases, fun id hd => ?_, fun hd => ?_, fun id ht hr => ?_,
    fun id ht hr => hkept.ends_ending ht hr, fun id s' hs hne => hs.of_ne hne, fun s' hs => hs.events⟩
  · exact not_mem_taken.1 ((hkept.life id).not_taken ((mem_reports rfl).2 hd))
  · cases hkept.untagged _ hd
  · exact (mem_reports rfl).1 ((hkept.life id).reported_of_over (not_mem_taken.2 ht) hr)

theorem reachable_reports_lost :
    ∃ p s, Reachable .utc p s ∧ s.readers 1 = .over ∧ 1 ∉ s.taken ∧ (some 1, .disconnected) ∈ s.events := by
  have hgreet : Dial.outcome .utc (.greeted "SUCCESS|CONNECTED".toList) = .ok () := rfl
  have hstart : Reachable .utc
      ⟨"TCP", "streaming", some "localhost", some 8081, none, "desk", "desk", [], 500, 60, 3⟩ _ := .start rfl
  have hclear := ((hstart.step (.take rfl)).step (.part rfl)).step (.clear rfl)
  have hstore := (hclear.step (.greet rfl hgreet)).step (.store rfl)
  have hclaim := hstore.step (.ends (@Ends.claim _ 1 rfl))
  have hover := hclaim.step (.ends (@Ends.report _ 1 rfl))
  exact ⟨_, _, hover, rfl, nofun, (reachable_reports hover).2.2.2.1 1 nofun rfl⟩

end RateDesk.Race
