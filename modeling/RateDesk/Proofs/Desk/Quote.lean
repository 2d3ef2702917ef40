import RateDesk.Proofs.Desk.Update

/-!
# What becomes of a quote

* `Dealt` : a desk took a quote, with the rates that follow from it, or it turned the quote away;
* `dealt_first`, `dealt_update` : a quote that causes no fault ends in one of these two ways.
-/

namespace RateDesk.Desk

variable {d d' : Desk} {der : Derivation} {now : Now} {p i : String} {r : Rate}

/-- The desk `d'` is `d` once a quote of a platform for an instrument was dealt with. -/
inductive Dealt (d : Desk) (due : Instant) (p i : String) (r : Rate) (d' : Desk) : Prop where
  /-- It was published and stored, and after it the calculated rates that follow from it. -/
  | taken (rs : List CalculatedRate)
    (h : d.Changed d' due (.raw p r :: rs.map .calculated)
      ((.raw p i, .raw r) :: rs.map fun x => (.calculated x.instrument, .calculated x))
      (rs.map fun x => .calculated x.instrument))
  /-- It was counted as rejected. -/
  | rejected (h : d.Changed d' due [] [] [.rejected p i])

theorem dealt_stored (d : Desk) (due : Instant) (p i : String) (r : Rate) : d.Dealt due p i r (d.stored due p i r) :=
  .taken [] (changed_stored d due p i r)

theorem dealt_first (hrun : (first now p i r).run d = (.ok (), d')) : d.Dealt (d.expiry now) p i r d' := by
  unfold first at hrun
  cases hdue : now.instant.after (d.cache.ttl * 1000) with
  | error e =>
    rw [run_storeRaw_error p i r hdue] at hrun
    cases hrun
  | ok due =>
    obtain rfl : due = d.expiry now := (Instant.after_eq_ok.1 hdue).2
    rw [run_storeRaw p i r hdue] at hrun
    cases hrun
    exact dealt_stored d _ p i r

theorem dealt_update {o : UpdateOutcome} (hrun : (update der now p i r).run d = (.ok o, d')) :
    d.Dealt (d.expiry now) p i r d' := by
  obtain ⟨-, -, rfl⟩ | ⟨-, -, rfl⟩ | ⟨-, -, rs, -, rfl⟩ := run_update_cases hrun
  · exact dealt_stored d _ p i r
  · exact .rejected (changed_count d _ _)
  · exact .taken rs ((changed_stored d _ p i r).trans (changed_recordedAll _ _ rs))

end RateDesk.Desk
