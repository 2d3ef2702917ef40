import Mathlib.Order.Monotone.Basic
import RateDesk.Proofs.Time.Calendar
import RateDesk.Time.Zone

/-!
# What the clocks of a zone show

* `Zone.InSummer`, `Zone.Shows` : what a rule says about every instant, without the reader of local times;
* `Zone.Orderly` : the hours that are skipped and those that are shown twice lie apart, each within its year;
* `orderly_of_months` : changes in different months are orderly if they keep clear of midnight;
* `inSummer_iff`, `shows_iff` : summers follow each other, and so do the times that are shown in and between them;
* `offsetOfWall_eq_some` : a local time is read as the latest instant that shows it, or as the very second of a change.
-/

namespace RateDesk.Time.Zone

/-! ## Instants -/

/-- The clocks are put forward at an instant: they were by a change before it, after every change back so far. -/
def InSummer (standard : Int) (ahead : Nat) (start stop : Change) (t : Int) : Prop :=
  ∃ y, start.at y - standard ≤ t ∧
    ∀ z, stop.at z - (standard + ahead) ≤ t → stop.at z - (standard + ahead) < start.at y - standard

/-- At the instant `t` the clocks of the zone show `wall`, both in seconds. -/
def Shows : Zone → (t wall : Int) → Prop
  | .fixed offset, t, wall => wall = t + offset
  | .seasonal standard ahead start stop, t, wall =>
    InSummer standard ahead start stop t ∧ wall = t + (standard + ahead) ∨
      ¬ InSummer standard ahead start stop t ∧ wall = t + standard

/-- At the instant `t` the clocks are put forward from `wall` on, in a zone that puts them forward in an earlier month
than back. -/
def PutForward : Zone → (t wall : Int) → Prop
  | .fixed _, _, _ => False
  | .seasonal standard _ start stop, t, wall =>
    start.day.month < stop.day.month ∧ wall = t + standard ∧ ∃ y, wall = start.at y

theorem existsUnique_shows (zone : Zone) (t : Int) : ∃! wall, zone.Shows t wall := by
  cases zone with
  | fixed offset => exact ⟨_, rfl, fun _ h => h⟩
  | seasonal standard ahead start stop =>
    by_cases h : InSummer standard ahead start stop t
    · exact ⟨_, Or.inl ⟨h, rfl⟩, fun _ hw => (hw.resolve_right fun hn => hn.1 h).2⟩
    · exact ⟨_, Or.inr ⟨h, rfl⟩, fun _ hw => (hw.resolve_left fun hs => h hs.1).2⟩

/-! ## Orderly rules -/

def yearStart (y : Int) : Int := daysBeforeYear y * 86400

/-- The clocks are put forward and back within each year, so that the hours that are skipped and those that are shown
twice have no second in common. -/
def Orderly : Zone → Prop
  | .fixed _ => True
  | .seasonal _ ahead start stop => 0 < ahead ∧ ∀ y,
    if start.day.month < stop.day.month then
      yearStart y ≤ start.at y ∧ start.at y + ahead ≤ stop.at y - ahead ∧ stop.at y ≤ yearStart (y + 1)
    else
      yearStart y ≤ stop.at y - ahead ∧ stop.at y ≤ start.at y ∧ start.at y + ahead ≤ yearStart (y + 1)

/-- A day that a rule can name: the fifth week stands for the last one of a month. -/
def IsYearlyDay (d : YearlyDay) : Prop := 1 ≤ d.month ∧ d.month ≤ 12 ∧ 1 ≤ d.week ∧ d.week ≤ 5 ∧ d.weekday ≤ 6

/-- A yearly day lies in its month. -/
theorem dayNumber_bounds {d : YearlyDay} (h : IsYearlyDay d) (y : Int) :
    daysBeforeYear y + daysBeforeMonth y d.month ≤ d.dayNumber y ∧
      d.dayNumber y < daysBeforeYear y + daysBeforeMonth y d.month + daysInMonth y d.month := by
  obtain ⟨hm, hm', hw, hw', hd⟩ := h
  have hlen := daysInMonth_ge y hm hm'
  unfold YearlyDay.dayNumber Date.dayNumber
  dsimp only
  split <;> omega

/-- Clocks that are put forward and back in different months, at hours that keep clear of midnight, are orderly. -/
theorem orderly_of_months {standard : Int} {ahead : Nat} {start stop : Change} (hstart : IsYearlyDay start.day)
    (hstop : IsYearlyDay stop.day) (hmonth : start.day.month ≠ stop.day.month) (hahead : 0 < ahead)
    (hforward : start.time + ahead ≤ 86400) (hback : ahead ≤ stop.time) (hback' : stop.time ≤ 86400) :
    (seasonal standard ahead start stop).Orderly := by
  refine ⟨hahead, fun y => ?_⟩
  have hfirst := dayNumber_bounds hstart y
  have hlast := dayNumber_bounds hstop y
  have hfirst' := daysBeforeMonth_add_le y hstart.1 hstart.2.1
  have hlast' := daysBeforeMonth_add_le y hstop.1 hstop.2.1
  unfold Change.at yearStart
  rw [daysBeforeYear_succ]
  split
  · rename_i hlt
    have hmono := daysBeforeMonth_mono y hstart.1 hlt hstop.2.1
    omega
  · rename_i hlt
    have hmono := daysBeforeMonth_mono y hstop.1 (by omega : stop.day.month < start.day.month) hstart.2.1
    omega

variable {standard offset t wall : Int} {ahead : Nat} {start stop : Change} {zone : Zone} {y z : Int}

/-- Summer time, on the clock of standard time, ends so many seconds before the change back as that clock is behind. -/
def summerEnd (ahead : Nat) (start stop : Change) (y : Int) : Int :=
  stop.at (if start.day.month < stop.day.month then y else y + 1) - ahead

/-- Summers and winters, on the clock of standard time, are longer than the clocks are put forward. -/
theorem Orderly.alternate (h : (seasonal standard ahead start stop).Orderly) (y : Int) :
    start.at y + ahead ≤ summerEnd ahead start stop y ∧ summerEnd ahead start stop y + ahead ≤ start.at (y + 1) := by
  have hy := h.2 y
  have hnext := h.2 (y + 1)
  unfold summerEnd
  split at hy
  · rename_i hmonth
    rw [if_pos hmonth] at hnext ⊢
    omega
  · rename_i hmonth
    rw [if_neg hmonth] at hnext ⊢
    omega

theorem Orderly.start_mono (h : (seasonal standard ahead start stop).Orderly) (hle : y ≤ z) :
    start.at y ≤ start.at z := by
  refine monotone_int_of_le_succ (fun y => ?_) hle
  have := h.alternate y
  omega

theorem Orderly.summerEnd_mono (h : (seasonal standard ahead start stop).Orderly) (hle : y ≤ z) :
    summerEnd ahead start stop y ≤ summerEnd ahead start stop z := by
  refine monotone_int_of_le_succ (fun y => ?_) hle
  have := h.alternate y
  have := h.alternate (y + 1)
  omega

/-- Every change back ends a summer. -/
theorem forall_stop_iff {p : Int → Prop} :
    (∀ z, p (stop.at z - ahead)) ↔ ∀ y, p (summerEnd ahead start stop y) := by
  unfold summerEnd
  split
  · exact Iff.rfl
  · exact ⟨fun h y => h (y + 1), fun h z => by simpa using h (z - 1)⟩

/-- Summers follow each other. -/
theorem inSummer_iff (h : (seasonal standard ahead start stop).Orderly) :
    InSummer standard ahead start stop t ↔
      ∃ y, start.at y ≤ t + standard ∧ t + standard < summerEnd ahead start stop y := by
  have hstops : ∀ y, (∀ z, stop.at z - (standard + ahead) ≤ t →
      stop.at z - (standard + ahead) < start.at y - standard) ↔
      ∀ z, summerEnd ahead start stop z ≤ t + standard → summerEnd ahead start stop z < start.at y := by
    intro y
    rw [← forall_stop_iff (p := fun s => s ≤ t + standard → s < start.at y)]
    exact forall_congr' fun z => by omega
  unfold InSummer
  simp only [hstops]
  constructor
  · rintro ⟨y, hstart, hstop⟩
    have hlong := (h.alternate y).1
    refine ⟨y, by omega, ?_⟩
    by_contra hend
    have := hstop y (by omega)
    omega
  · rintro ⟨y, hstart, hend⟩
    refine ⟨y, by omega, fun z hz => ?_⟩
    have hzy : z + 1 ≤ y := by
      by_contra hle
      have := h.summerEnd_mono (show y ≤ z by omega)
      omega
    have hmono := h.start_mono hzy
    have hshort := (h.alternate z).2
    have hahead := h.1
    omega

/-- Each second on the clock of standard time comes after the start of one summer and before that of the next. -/
theorem Orderly.exists_start_le (h : (seasonal standard ahead start stop).Orderly) (x : Int) :
    ∃ y, start.at y ≤ x ∧ x < start.at (y + 1) := by
  obtain ⟨hlow, hhigh⟩ := yearOf_spec (x / 86400)
  generalize yearOf (x / 86400) = y at hlow hhigh
  have hy := h.2 y
  have hlast := h.2 (y - 1)
  have hnext := h.2 (y + 1)
  rw [Int.sub_add_cancel] at hlast
  unfold yearStart at hy hlast hnext
  by_cases hx : x < start.at y
  · refine ⟨y - 1, ?_, by rwa [Int.sub_add_cancel]⟩
    split at hlast <;> omega
  · refine ⟨y, by omega, ?_⟩
    split at hnext <;> omega

/-- The times that are shown in summers, and those between them. -/
theorem shows_iff (h : (seasonal standard ahead start stop).Orderly) :
    (seasonal standard ahead start stop).Shows t wall ↔
      (∃ y, start.at y + ahead ≤ wall ∧ wall < summerEnd ahead start stop y + ahead ∧ wall = t + (standard + ahead)) ∨
        ∃ y, summerEnd ahead start stop y ≤ wall ∧ wall < start.at (y + 1) ∧ wall = t + standard := by
  simp only [Shows, inSummer_iff h]
  constructor
  · rintro (⟨⟨y, hstart, hend⟩, hwall⟩ | ⟨hnot, hwall⟩)
    · exact Or.inl ⟨y, by omega, by omega, hwall⟩
    · obtain ⟨y, hstart, hnext⟩ := h.exists_start_le (t + standard)
      refine Or.inr ⟨y, ?_, by omega, hwall⟩
      by_contra hend
      exact hnot ⟨y, hstart, by omega⟩
  · rintro (⟨y, hstart, hend, hwall⟩ | ⟨y, hend, hnext, hwall⟩)
    · exact Or.inl ⟨⟨y, by omega, by omega⟩, hwall⟩
    · refine Or.inr ⟨?_, hwall⟩
      rintro ⟨z, hstart, hlast⟩
      rcases Int.lt_or_le y z with hyz | hyz
      · have := h.start_mono (show y + 1 ≤ z from hyz)
        omega
      · have := h.summerEnd_mono hyz
        omega

/-! ## Local times -/

/-- A local time is in a skipped hour, in a summer before the hour that is shown twice, or in that hour or later. -/
theorem offsetOfWall_cases (h : (seasonal standard ahead start stop).Orderly) (wall : Int) :
    let found := (seasonal standard ahead start stop).offsetOfWall wall
    (∃ y, start.at y ≤ wall ∧ wall < start.at y + ahead ∧
      found = if start.day.month < stop.day.month ∧ wall = start.at y then some standard else none) ∨
    (∃ y, start.at y + ahead ≤ wall ∧ wall < summerEnd ahead start stop y ∧ found = some (standard + ahead)) ∨
    ∃ y, summerEnd ahead start stop y ≤ wall ∧ wall < start.at (y + 1) ∧ found = some standard := by
  obtain ⟨hlow, hhigh⟩ := yearOf_spec (wall / 86400)
  dsimp only [offsetOfWall]
  generalize yearOf (wall / 86400) = y at hlow hhigh ⊢
  have hahead := h.1
  have hy := h.2 y
  have hlast := h.2 (y - 1)
  have hnext := h.2 (y + 1)
  rw [Int.sub_add_cancel] at hlast
  unfold yearStart at hy hlast hnext
  by_cases hmonth : start.day.month < stop.day.month
  · simp only [summerEnd, hmonth, if_true, true_and] at hy hlast hnext ⊢
    by_cases hwinter : wall < start.at y
    · refine Or.inr (Or.inr ⟨y - 1, by omega, by simpa using hwinter, if_pos (by omega)⟩)
    · by_cases hskipped : wall < start.at y + ahead
      · refine Or.inl ⟨y, by omega, hskipped, ?_⟩
        by_cases hsecond : wall = start.at y
        · rw [if_pos (by omega), if_pos hsecond]
        · rw [if_neg (by omega), if_pos hskipped, if_neg hsecond]
      · rw [if_neg (by omega), if_neg hskipped]
        by_cases hsummer : wall < stop.at y - ahead
        · exact Or.inr (Or.inl ⟨y, by omega, hsummer, if_pos hsummer⟩)
        · exact Or.inr (Or.inr ⟨y, by omega, by omega, if_neg hsummer⟩)
  · simp only [summerEnd, hmonth, if_false, false_and] at hy hlast hnext ⊢
    by_cases hsummer : wall < stop.at y - ahead
    · exact Or.inr (Or.inl ⟨y - 1, by omega, by simpa using hsummer, if_pos hsummer⟩)
    · rw [if_neg hsummer]
      by_cases hwinter : wall < start.at y
      · exact Or.inr (Or.inr ⟨y - 1, by simpa using hsummer, by simpa using hwinter, if_pos hwinter⟩)
      · rw [if_neg hwinter]
        by_cases hskipped : wall < start.at y + ahead
        · exact Or.inl ⟨y, by omega, hskipped, if_pos hskipped⟩
        · exact Or.inr (Or.inl ⟨y, by omega, by omega, if_neg hskipped⟩)

/-- Between two changes the clocks are not put forward. -/
theorem ne_start (h : (seasonal standard ahead start stop).Orderly) (hlow : start.at y < wall)
    (hhigh : wall < start.at (y + 1)) (z : Int) : wall ≠ start.at z := by
  rcases Int.lt_or_le y z with hyz | hyz
  · have hmono := h.start_mono (show y + 1 ≤ z from hyz)
    omega
  · have hmono := h.start_mono hyz
    omega

/-- Nothing is shown in a skipped hour. -/
theorem not_shows_skipped (h : (seasonal standard ahead start stop).Orderly) (hlow : start.at y ≤ wall)
    (hhigh : wall < start.at y + ahead) (t : Int) : ¬ (seasonal standard ahead start stop).Shows t wall := by
  rw [shows_iff h]
  rintro (⟨z, hstart, hend, -⟩ | ⟨z, hend, hstart, -⟩)
  · rcases Int.lt_or_le z y with hzy | hzy
    · have hmono := h.start_mono (show z + 1 ≤ y from hzy)
      have hshort := (h.alternate z).2
      omega
    · have hmono := h.start_mono hzy
      omega
  · rcases Int.lt_or_le z y with hzy | hzy
    · have hmono := h.start_mono (show z + 1 ≤ y from hzy)
      omega
    · have hmono := h.summerEnd_mono hzy
      have hlong := (h.alternate y).1
      omega

/-- A time in a summer before the hour that is shown twice is shown by summer time only. -/
theorem shows_summer (h : (seasonal standard ahead start stop).Orderly) (hlow : start.at y + ahead ≤ wall)
    (hhigh : wall < summerEnd ahead start stop y) :
    (seasonal standard ahead start stop).Shows t wall ↔ t = wall - (standard + ahead) := by
  rw [shows_iff h]
  constructor
  · rintro (⟨z, -, -, hwall⟩ | ⟨z, hend, hstart, -⟩)
    · omega
    · rcases Int.lt_or_le z y with hzy | hzy
      · have hmono := h.start_mono (show z + 1 ≤ y from hzy)
        omega
      · have hmono := h.summerEnd_mono hzy
        omega
  · rintro rfl
    exact Or.inl ⟨y, hlow, by omega, by omega⟩

/-- A local time is read as the latest instant that shows it. One that none shows is refused, except for the very
second from which the clocks are put forward, in a zone that does so in an earlier month than back. -/
theorem offsetOfWall_eq_some (h : zone.Orderly) : zone.offsetOfWall wall = some offset ↔
    (zone.Shows (wall - offset) wall ∧ ∀ t, zone.Shows t wall → t ≤ wall - offset) ∨
      zone.PutForward (wall - offset) wall := by
  cases zone with
  | fixed o =>
    simp only [offsetOfWall, Shows, PutForward, Option.some.injEq, or_false]
    constructor
    · rintro rfl
      exact ⟨by omega, fun t ht => by omega⟩
    · rintro ⟨hwall, -⟩
      omega
  | seasonal standard ahead start stop =>
    rcases offsetOfWall_cases h wall with ⟨y, hlow, hhigh, hfound⟩ | ⟨y, hlow, hhigh, hfound⟩ | ⟨y, hlow, hhigh, hfound⟩
    · have hshows : ∀ t, ¬ (seasonal standard ahead start stop).Shows t wall := not_shows_skipped h hlow hhigh
      rw [hfound]
      simp only [hshows, false_and, false_or, PutForward]
      by_cases hsecond : wall = start.at y
      · by_cases hmonth : start.day.month < stop.day.month
        · rw [if_pos ⟨hmonth, hsecond⟩, Option.some.injEq]
          exact ⟨fun heq => ⟨hmonth, by omega, y, hsecond⟩, fun ⟨_, heq, _⟩ => by omega⟩
        · rw [if_neg fun hfirst => hmonth hfirst.1]
          exact ⟨nofun, fun hfirst => absurd hfirst.1 hmonth⟩
      · rw [if_neg fun hfirst => hsecond hfirst.2]
        refine ⟨nofun, fun ⟨_, _, z, hz⟩ => absurd hz (ne_start (y := y) h (by omega) ?_ z)⟩
        have := h.alternate y
        omega
    · have hchange : ¬ (seasonal standard ahead start stop).PutForward (wall - offset) wall := by
        rintro ⟨-, -, z, hz⟩
        have hahead := h.1
        have halternate := h.alternate y
        exact ne_start (y := y) h (by omega) (by omega) z hz
      rw [hfound, Option.some.injEq, or_iff_left hchange]
      simp only [shows_summer h hlow hhigh]
      exact ⟨fun heq => ⟨by omega, fun t ht => by omega⟩, fun heq => by omega⟩
    · have hchange : ¬ (seasonal standard ahead start stop).PutForward (wall - offset) wall := by
        rintro ⟨-, -, z, hz⟩
        have hahead := h.1
        have halternate := h.alternate y
        exact ne_start (y := y) h (by omega) hhigh z hz
      have hlatest : (seasonal standard ahead start stop).Shows (wall - standard) wall :=
        (shows_iff h).2 (Or.inr ⟨y, hlow, hhigh, by omega⟩)
      rw [hfound, Option.some.injEq, or_iff_left hchange]
      constructor
      · rintro rfl
        refine ⟨hlatest, fun t ht => ?_⟩
        rcases (shows_iff h).1 ht with ⟨-, -, -, hwall⟩ | ⟨-, -, -, hwall⟩ <;> omega
      · rintro ⟨hshown, hlast⟩
        have hle := hlast _ hlatest
        have hahead := h.1
        rcases (shows_iff h).1 hshown with ⟨-, -, -, hwall⟩ | ⟨-, -, -, hwall⟩ <;> omega

end RateDesk.Time.Zone
