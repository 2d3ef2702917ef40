import RateDesk.Proofs.Feed.Grammar
import RateDesk.Proofs.Time.Grammar
import RateDesk.Proofs.Time.Seasons

/-!
# Timestamps between white space

* `Means zone w t` : the instant `t` that the clocks of a zone are taken to mean by the local time `w`;
* `readTimestamp_eq_ok_iff` : a local time is read as the instant that it means;
* `isLocal_printLocal` : what is printed without an offset is a local time;
* `timestamp_read` : what is read from every text, in every zone, and from local times that were printed;
* `repeated_hour_read_late` : in an hour that is shown twice, an earlier instant shows the same.
-/

namespace RateDesk

open Text Time Timestamp

variable {zone : Zone} {s : List Char} {t : Timestamp} {w : Wall} {wall : Int}

namespace Timestamp

/-! ## Local times -/

/-- The instant that a local time means: it is in range, and it is the latest that shows the time, or the very second
of a change by which the clocks are put forward from that time. -/
structure Means (zone : Zone) (w : Wall) (t : Timestamp) : Prop where
  inRange : inRange t.seconds
  nanos_eq : t.nanos = (w.toTimestamp 0).nanos
  latest : (zone.Shows t.seconds (w.toTimestamp 0).seconds ∧
      ∀ u, zone.Shows u (w.toTimestamp 0).seconds → u ≤ t.seconds) ∨
    zone.PutForward t.seconds (w.toTimestamp 0).seconds

theorem toTimestamp_eq (w : Wall) (offset : Int) :
    w.toTimestamp offset = ⟨(w.toTimestamp 0).seconds - offset, (w.toTimestamp 0).nanos⟩ := by
  simp [Wall.toTimestamp]

/-- In an orderly zone a local time becomes the instant that it means. -/
theorem ofWall?_eq_some (h : zone.Orderly) : ofWall? zone w = some t ↔ Means zone w t := by
  constructor
  · intro hw
    obtain ⟨offset, hoffset, hw⟩ := Option.bind_eq_some_iff.1 hw
    dsimp only at hw
    split at hw
    · rename_i hrange
      cases hw
      have hlatest := (Zone.offsetOfWall_eq_some h).1 hoffset
      rw [toTimestamp_eq] at hrange ⊢
      exact ⟨hrange, rfl, hlatest⟩
    · cases hw
  · rintro ⟨hrange, hnanos, hlatest⟩
    have hoffset : zone.offsetOfWall (w.toTimestamp 0).seconds = some ((w.toTimestamp 0).seconds - t.seconds) := by
      rw [Zone.offsetOfWall_eq_some h, Int.sub_sub_self]
      exact hlatest
    have ht : w.toTimestamp ((w.toTimestamp 0).seconds - t.seconds) = t := by
      rw [toTimestamp_eq, Int.sub_sub_self, ← hnanos]
    refine Option.bind_eq_some_iff.2 ⟨_, hoffset, ?_⟩
    dsimp only
    rw [ht, if_pos hrange]
    rfl

/-! ## Printed local times -/

/-- What a clock shows, printed without an offset. -/
def printLocal (t : Timestamp) : List Char := t.print.dropLast

theorem printLocal_eq (t : Timestamp) :
    t.printLocal = (printYear t.year ++ '-' :: (padded 2 t.wall.date.month ++ '-' :: (padded 2 t.wall.date.day ++
      'T' :: (padded 2 t.wall.hour ++ ':' :: padded 2 t.wall.minute)))) ++ ':' :: (padded 2 t.wall.second ++
        printFraction t.wall.nanos) := by
  have hlast : t.print = ((printYear t.year ++ '-' :: (padded 2 t.wall.date.month ++ '-' :: (padded 2 t.wall.date.day ++
      'T' :: (padded 2 t.wall.hour ++ ':' :: padded 2 t.wall.minute)))) ++ ':' :: (padded 2 t.wall.second ++
        printFraction t.wall.nanos)) ++ ['Z'] := by
    rw [print_eq]
    simp
  rw [printLocal, hlast, List.dropLast_concat]

theorem isField_padded {n : Nat} (hn : n < 100) : IsField (padded 2 n) n := by
  have hlen : (padded 2 n).length = 2 := length_padded (w := 1) hn
  exact ⟨[], padded 2 n, rfl, nofun, denotes_padded 2 n, by omega, by omega⟩

theorem isYear_printYear (y : Int) : IsYear (printYear y) y := by
  have hpadded := denotes_padded 4 y.natAbs
  have hlen := length_padded_ge 4 y.natAbs
  unfold printYear
  split
  · rename_i hy
    have hnat : y.toNat = y.natAbs := by omega
    have hwidth : (padded 4 y.natAbs).length = 4 := length_padded (w := 3) (by simp only [tenPow, Nat.pow_eq]; omega)
    rw [hnat]
    exact ⟨[], padded 4 y.natAbs, y.natAbs, rfl, nofun, Or.inl ⟨⟨hpadded, by omega, by omega⟩, by omega⟩⟩
  · have hsigned : IsNumber 1 (padded 4 y.natAbs).length (padded 4 y.natAbs) y.natAbs := ⟨hpadded, by omega, le_rfl⟩
    split
    · exact ⟨[], _, y.natAbs, rfl, nofun, Or.inr ⟨_, hsigned, Or.inr ⟨rfl, by omega⟩⟩⟩
    · exact ⟨[], _, y.natAbs, rfl, nofun, Or.inr ⟨_, hsigned, Or.inl ⟨rfl, by omega⟩⟩⟩

theorem isFraction_padded {m k : Nat} (hm : m < tenPow (k + 1)) (hk : k + 1 ≤ 9) :
    IsFraction ('.' :: padded (k + 1) m) (m * tenPow (9 - (k + 1))) := by
  have hlen := length_padded hm
  have hnumber : IsNumber 1 9 (padded (k + 1) m) m := ⟨denotes_padded (k + 1) m, by omega, by omega⟩
  have hfraction := isFraction_append hnumber denotes_nil (Or.inr rfl)
  rwa [List.append_nil, hlen] at hfraction

theorem isFraction_printFraction {n : Nat} (hn : n < perSecond) : IsFraction (printFraction n) n := by
  unfold printFraction
  split
  · rename_i h
    exact Or.inl ⟨rfl, h⟩
  · split
    · rename_i h
      have hfraction := isFraction_padded (k := 2) (Nat.div_lt_of_lt_mul hn : n / 1000000 < tenPow 3) (by decide)
      rwa [show n / 1000000 * tenPow (9 - (2 + 1)) = n from Nat.div_mul_cancel (Nat.dvd_of_mod_eq_zero h)] at hfraction
    · split
      · rename_i h
        have hfraction := isFraction_padded (k := 5) (Nat.div_lt_of_lt_mul hn : n / 1000 < tenPow 6) (by decide)
        rwa [show n / 1000 * tenPow (9 - (5 + 1)) = n from Nat.div_mul_cancel (Nat.dvd_of_mod_eq_zero h)] at hfraction
      · have hfraction := isFraction_padded (k := 8) (hn : n < tenPow 9) (by decide)
        rwa [show n * tenPow (9 - (8 + 1)) = n from Nat.mul_one n] at hfraction

/-- What is printed without an offset is what a clock shows. -/
theorem isLocal_printLocal (h : t.nanos < 2 * perSecond) (hr : inRange t.seconds) : IsLocal t.printLocal t.wall := by
  obtain ⟨hmonth, hday, hhour, hminute, hsecond, hnanos⟩ := wall_lt h
  have hyear : IsYear (printYear t.year) t.wall.date.year := by
    rw [show t.wall.date.year = t.year from year_dateOf _]
    exact isYear_printYear t.year
  rw [printLocal_eq]
  exact .seconds (.intro hyear (isField_padded hmonth) (isField_padded hday) (isField_padded hhour)
    (isField_padded hminute)) (isField_padded hsecond) (isFraction_printFraction hnanos) (exists_wall h hr)

theorem not_isBlank_padded (k n : Nat) : ∀ c ∈ padded k n, ¬ isBlank c :=
  fun c hc => not_isBlank_of_isDigit ((denotes_padded k n).isDigit c hc)

theorem trim_printLocal (h : t.nanos < 2 * perSecond) : trim t.printLocal = t.printLocal := by
  obtain ⟨-, -, -, -, -, hnanos⟩ := wall_lt h
  have hyear : ∀ c ∈ printYear t.year, ¬ isBlank c := by
    unfold printYear
    split
    · exact not_isBlank_padded _ _
    · refine List.forall_mem_cons.2 ⟨?_, not_isBlank_padded _ _⟩
      split <;> decide
  have hfraction : ∀ c ∈ printFraction t.wall.nanos, ¬ isBlank c := by
    rcases isFraction_printFraction hnanos with ⟨hnil, -⟩ | ⟨ds, m, hds, -, hdenotes, -⟩
    · rw [hnil]
      exact nofun
    · rw [hds]
      exact List.forall_mem_cons.2 ⟨by decide, fun c hc => not_isBlank_of_isDigit (hdenotes.isDigit c hc)⟩
  have hall : ∀ c ∈ t.printLocal, ¬ isBlank c := by
    rw [printLocal_eq]
    simp only [List.forall_mem_append, List.forall_mem_cons]
    exact ⟨⟨hyear, by decide, not_isBlank_padded _ _, by decide, not_isBlank_padded _ _, by decide,
      not_isBlank_padded _ _, by decide, not_isBlank_padded _ _⟩, by decide, not_isBlank_padded _ _, hfraction⟩
  exact trim_eq_self (fun c hc => hall c (List.mem_of_head? hc)) fun c hc => hall c (List.mem_of_getLast? hc)

end Timestamp

/-! ## All texts -/

theorem readTimestamp_eq_error {why : Timestamp.ReadError} (h : Timestamp.read zone (trim s) = .error why) :
    readTimestamp zone s = .error (.timestamp (trim s) why) := by
  rw [readTimestamp, h]

theorem readTimestamp_of_isRfc3339 (h : IsRfc3339 (trim s) t) : readTimestamp zone s = .ok t := by
  rw [readTimestamp_eq_ok, Timestamp.read, readRfc3339_eq_some.2 h]

/-- A text without an offset is read on the clocks of the zone. -/
theorem read_of_isLocal (zone : Zone) (h : IsLocal s w) :
    Timestamp.read zone s = (ofWall? zone w).elim (.error .skipped) .ok := by
  have hnone : readRfc3339 s = none := by
    rw [Option.eq_none_iff_forall_ne_some]
    exact fun t ht => not_isRfc3339_of_isLocal h t (readRfc3339_eq_some.1 ht)
  simp only [Timestamp.read, hnone, readLocal_eq_some.2 h]
  cases ofWall? zone w <;> rfl

theorem readTimestamp_of_isLocal (h : IsLocal (trim s) w) :
    (∃ t, readTimestamp zone s = .ok t) ∨ readTimestamp zone s = .error (.timestamp (trim s) .skipped) := by
  have hread := read_of_isLocal zone h
  cases hwall : ofWall? zone w with
  | some t =>
    rw [hwall] at hread
    exact Or.inl ⟨t, readTimestamp_eq_ok.2 hread⟩
  | none =>
    rw [hwall] at hread
    exact Or.inr (readTimestamp_eq_error hread)

/-- In an orderly zone a local time is read as the instant that it means. -/
theorem readTimestamp_eq_ok_iff (hz : zone.Orderly) (h : IsLocal (trim s) w) :
    readTimestamp zone s = .ok t ↔ Means zone w t := by
  rw [readTimestamp_eq_ok, read_of_isLocal zone h, ← ofWall?_eq_some hz]
  cases ofWall? zone w <;> simp

theorem readTimestamp_of_neither (hoffset : ∀ t, ¬ IsRfc3339 (trim s) t) (hlocal : ∀ w, ¬ IsLocal (trim s) w) :
    readTimestamp zone s = .error (.timestamp (trim s) .malformed) := by
  have hnone : readRfc3339 (trim s) = none := by
    rw [Option.eq_none_iff_forall_ne_some]
    exact fun t ht => hoffset t (readRfc3339_eq_some.1 ht)
  have hnone' : readLocal (trim s) = none := by
    rw [Option.eq_none_iff_forall_ne_some]
    exact fun w hw => hlocal w (readLocal_eq_some.1 hw)
  apply readTimestamp_eq_error
  rw [Timestamp.read, hnone, hnone']

/-- What the clocks of a zone show, printed without an offset, is read as the latest instant that shows it. -/
theorem readTimestamp_printLocal (hz : zone.Orderly) (hr : inRange t.seconds) (hr' : inRange wall)
    (hshows : zone.Shows t.seconds wall) (hclock : OnClock ⟨wall, t.nanos⟩)
    (hlatest : ∀ u, zone.Shows u wall → u ≤ t.seconds) :
    readTimestamp zone (printLocal ⟨wall, t.nanos⟩) = .ok t := by
  have hlocal := isLocal_printLocal hclock.nanos_lt (t := ⟨wall, t.nanos⟩) hr'
  rw [← trim_printLocal hclock.nanos_lt] at hlocal
  have hshown := shown_eq_self_iff.2 hclock
  rw [shown] at hshown
  refine (readTimestamp_eq_ok_iff hz hlocal).2 ⟨hr, ?_, Or.inl ?_⟩
  · rw [hshown]
  · rw [hshown]
    exact ⟨hshows, hlatest⟩

/-- **How a timestamp is read.** A text with an offset is read as its instant, in every zone. A local time is read or
else refused as skipped: in an orderly zone it is read as the instant that it means. All other texts are malformed. So
what the clocks show at an instant is read back as that instant, unless a later one shows the same. The zones are those
that `Zone` can express: their changes are given by month, week and weekday, and summer time is ahead. -/
theorem timestamp_read (zone : Zone) :
    (∀ s t, IsRfc3339 (trim s) t → readTimestamp zone s = .ok t) ∧
    (∀ s w, IsLocal (trim s) w →
      ((∃ t, readTimestamp zone s = .ok t) ∨ readTimestamp zone s = .error (.timestamp (trim s) .skipped)) ∧
      (zone.Orderly → ∀ t, readTimestamp zone s = .ok t ↔ Means zone w t)) ∧
    (∀ s, (∀ t, ¬ IsRfc3339 (trim s) t) → (∀ w, ¬ IsLocal (trim s) w) →
      readTimestamp zone s = .error (.timestamp (trim s) .malformed)) ∧
    (zone.Orderly → ∀ (t : Timestamp) (wall : Int), inRange t.seconds → inRange wall → zone.Shows t.seconds wall →
      OnClock ⟨wall, t.nanos⟩ → (∀ u, zone.Shows u wall → u ≤ t.seconds) →
      readTimestamp zone (printLocal ⟨wall, t.nanos⟩) = .ok t) :=
  ⟨fun _ _ => readTimestamp_of_isRfc3339, fun _ _ h => ⟨readTimestamp_of_isLocal h, fun hz _ => readTimestamp_eq_ok_iff hz h⟩,
    fun _ => readTimestamp_of_neither, fun hz _ _ => readTimestamp_printLocal hz⟩

/-- Five hours behind, four from the second Sunday in March to the first in November. -/
def eastern : Zone := .seasonal (-18000) 3600 ⟨⟨3, 2, 0⟩, 7200⟩ ⟨⟨11, 1, 0⟩, 7200⟩

example : Zone.read "EST5EDT,M3.2.0,M11.1.0".toList = some eastern := by decide +kernel

theorem orderly_eastern : eastern.Orderly :=
  Zone.orderly_of_months (by unfold Zone.IsYearlyDay; decide) (by unfold Zone.IsYearlyDay; decide) (by decide) (by decide)
    (by decide) (by decide) (by decide)

theorem timestamp_read_eastern :
    eastern.Orderly ∧ readTimestamp eastern "2024-07-04T12:00 ".toList = .ok ⟨1720108800, 0⟩ ∧
    Means eastern ⟨⟨2024, 7, 4⟩, 12, 0, 0, 0⟩ ⟨1720108800, 0⟩ ∧
    readTimestamp eastern "2024-03-10T02:30".toList = .error (.timestamp "2024-03-10T02:30".toList .skipped) := by
  have hread : readTimestamp eastern "2024-07-04T12:00 ".toList = .ok ⟨1720108800, 0⟩ := by decide +kernel
  have hlocal : IsLocal (trim "2024-07-04T12:00 ".toList) ⟨⟨2024, 7, 4⟩, 12, 0, 0, 0⟩ :=
    readLocal_eq_some.1 (by decide +kernel)
  have hskipped : IsLocal (trim "2024-03-10T02:30".toList) ⟨⟨2024, 3, 10⟩, 2, 30, 0, 0⟩ :=
    readLocal_eq_some.1 (by decide +kernel)
  obtain ⟨-, hlocals, -⟩ := timestamp_read eastern
  refine ⟨orderly_eastern, hread, ((hlocals _ _ hlocal).2 orderly_eastern _).1 hread, ?_⟩
  have hrefused : (readTimestamp eastern "2024-03-10T02:30".toList).toOption = none := by decide +kernel
  refine (hlocals _ _ hskipped).1.resolve_left ?_
  rintro ⟨t, ht⟩
  rw [ht] at hrefused
  cases hrefused

/-- A time that is shown twice is read as the second of the two instants, and the first second that is skipped is
read although no instant shows it. -/
theorem repeated_hour_read_late :
    (IsLocal "2024-11-03T01:30:00".toList ⟨⟨2024, 11, 3⟩, 1, 30, 0, 0⟩ ∧
      readTimestamp eastern "2024-11-03T01:30:00".toList = .ok ⟨1730615400, 0⟩ ∧
      inRange 1730611800 ∧ eastern.Shows 1730611800 (Wall.toTimestamp ⟨⟨2024, 11, 3⟩, 1, 30, 0, 0⟩ 0).seconds) ∧
    IsLocal "2024-03-10T02:00".toList ⟨⟨2024, 3, 10⟩, 2, 0, 0, 0⟩ ∧
      readTimestamp eastern "2024-03-10T02:00".toList = .ok ⟨1710054000, 0⟩ ∧
      ∀ t, ¬ eastern.Shows t (Wall.toTimestamp ⟨⟨2024, 3, 10⟩, 2, 0, 0, 0⟩ 0).seconds := by
  refine ⟨⟨readLocal_eq_some.1 (by decide +kernel), by decide +kernel, by decide +kernel, ?_⟩,
    readLocal_eq_some.1 (by decide +kernel), by decide +kernel, ?_⟩
  · exact (Zone.shows_iff orderly_eastern).2 (Or.inl ⟨2024, by decide +kernel, by decide +kernel, by decide +kernel⟩)
  · exact Zone.not_shows_skipped (y := 2024) orderly_eastern (by decide +kernel) (by decide +kernel)

end RateDesk
