import RateDesk.Proofs.Text.Cut
import RateDesk.Proofs.Text.Numeral
import RateDesk.Proofs.Time.Calendar
import RateDesk.Time.Reader

/-!
# Timestamps in writing and back

* `OnClock` : the points in time that a clock shows, leap seconds at the end of a minute among them;
* `shown`, `shown_eq_self_iff` : the point in time that a clock means, which is the one it shows;
* `readRfc3339_print` : a printed timestamp of a four-digit year is read as what the clock means;
* `readLenient_print` : the lenient reading takes any year that can be represented.
-/

namespace RateDesk.Timestamp

open Text Time

variable {least most n w : Nat} {s r : List Char} {c : Char} {t : Timestamp}

/-! ## Fields -/

/-- A run of digits that the rest does not prolong is read as a number. -/
theorem readNumber_append (hs : Denotes s n) (hleast : least ≤ s.length) (hmost : s.length ≤ most)
    (hr : s.length = most ∨ ∀ c ∈ r.head?, ¬ isDigit c) : readNumber least most (s ++ r) = some (n, r) := by
  obtain ⟨ds, hds, rfl⟩ := denotes_iff.1 hs
  have hrest : (r.take (most - s.length)).takeWhile isDigit = [] := by
    rcases hr with h | h
    · rw [h, Nat.sub_self, List.take_zero, List.takeWhile_nil]
    · cases r with
      | nil => rw [List.take_nil, List.takeWhile_nil]
      | cons c r =>
        have hc : ¬ isDigit c := h c rfl
        cases most - s.length with
        | zero => rfl
        | succ k => rw [List.take_succ_cons, List.takeWhile_cons_of_neg hc]
  have hrun : ((s ++ r).take most).takeWhile isDigit = s := by
    rw [List.take_append, List.take_of_length_le hmost, List.takeWhile_append_of_pos hs.isDigit, hrest,
      List.append_nil]
  unfold readNumber
  simp only [hrun, if_neg (Nat.not_lt.2 hleast), hds, bind, Option.bind_some, pure, List.drop_left]

theorem readNumber_padded (hn : n < tenPow (w + 1)) (hleast : least ≤ w + 1) (r : List Char) :
    readNumber least (w + 1) (padded (w + 1) n ++ r) = some (n, r) := by
  have hlen := length_padded hn
  exact readNumber_append (denotes_padded (w + 1) n) (by omega) (Nat.le_of_eq hlen) (Or.inl hlen)

theorem expect_cons (c : Char) (r : List Char) : expect c (c :: r) = some r := by
  simp [expect, afterPrefix?]

theorem trimStart_cons (hc : ¬ isBlank c) (r : List Char) : trimStart (c :: r) = c :: r :=
  List.dropWhile_cons_of_neg hc

/-- Before a digit there is nothing to trim. -/
theorem trimStart_append (hs : Denotes s n) (hne : s ≠ []) (r : List Char) : trimStart (s ++ r) = s ++ r := by
  obtain ⟨c, s, rfl⟩ := List.exists_cons_of_ne_nil hne
  exact trimStart_cons (not_isBlank_of_isDigit (hs.isDigit c List.mem_cons_self)) (s ++ r)

theorem readField_padded (hn : n < tenPow (w + 1)) (r : List Char) :
    readField (w + 1) (padded (w + 1) n ++ r) = some (n, r) := by
  have hne : padded (w + 1) n ≠ [] := List.ne_nil_of_length_pos (by rw [length_padded hn]; exact Nat.succ_pos w)
  rw [readField, trimStart_append (denotes_padded (w + 1) n) hne]
  exact readNumber_padded hn (Nat.le_add_left 1 w) r

/-! ## Fractions of a second -/

theorem readNanos_padded (hn : n < tenPow (w + 1)) (hw : w + 1 ≤ 9) (hc : ¬ isDigit c) (r : List Char) :
    readNanos (padded (w + 1) n ++ c :: r) = some (n * tenPow (9 - (w + 1)), c :: r) := by
  have hlen := length_padded hn
  have hread : readNumber 1 9 (padded (w + 1) n ++ c :: r) = some (n, c :: r) :=
    readNumber_append (denotes_padded (w + 1) n) (by omega) (by omega) (Or.inr (by simpa using hc))
  have hwidth : (padded (w + 1) n ++ c :: r).length - (c :: r).length = w + 1 := by
    rw [List.length_append, Nat.add_sub_cancel, hlen]
  unfold readNanos
  simp only [hread, hwidth, bind, Option.bind_some, pure, List.dropWhile_cons_of_neg hc]

theorem readFraction_printFraction (hn : n < perSecond) (r : List Char) :
    readFraction (printFraction n ++ 'Z' :: r) = some (n, 'Z' :: r) := by
  have hz : ¬ isDigit 'Z' := by decide
  unfold printFraction
  split
  · rename_i h
    rw [h]
    rfl
  · split
    · rename_i h
      have hscale : n / 1000000 * tenPow (9 - (2 + 1)) = n := Nat.div_mul_cancel (Nat.dvd_of_mod_eq_zero h)
      have hfits : n / 1000000 < tenPow (2 + 1) := Nat.div_lt_of_lt_mul hn
      rw [List.cons_append, readFraction, readNanos_padded hfits (by decide) hz, hscale]
    · split
      · rename_i h
        have hscale : n / 1000 * tenPow (9 - (5 + 1)) = n := Nat.div_mul_cancel (Nat.dvd_of_mod_eq_zero h)
        have hfits : n / 1000 < tenPow (5 + 1) := Nat.div_lt_of_lt_mul hn
        rw [List.cons_append, readFraction, readNanos_padded hfits (by decide) hz, hscale]
      · have hscale : n * tenPow (9 - (8 + 1)) = n := Nat.mul_one n
        rw [List.cons_append, readFraction, readNanos_padded (w := 8) hn (by decide) hz, hscale]

/-! ## What a clock shows -/

/-- A clock shows the point in time: the nanoseconds go beyond a second only in a leap second, which
follows the second 59 of a minute. -/
structure OnClock (t : Timestamp) : Prop where
  nanos_lt : t.nanos < 2 * perSecond
  second_eq : perSecond ≤ t.nanos → t.seconds % 60 = 59

instance : Decidable t.OnClock :=
  decidable_of_iff (t.nanos < 2 * perSecond ∧ (perSecond ≤ t.nanos → t.seconds % 60 = 59))
    ⟨fun h => ⟨h.1, h.2⟩, fun h => ⟨h.nanos_lt, h.second_eq⟩⟩

def year (t : Timestamp) : Int := yearOf (t.seconds / 86400)

/-- What a clock in Coordinated Universal Time shows. -/
def wall (t : Timestamp) : Wall where
  date := dateOf (t.seconds / 86400)
  hour := (t.seconds % 86400).toNat / 3600
  minute := (t.seconds % 86400).toNat / 60 % 60
  second := (t.seconds % 86400).toNat % 60 + t.nanos / perSecond
  nanos := t.nanos % perSecond

/-- The point in time that a clock means by what it shows. -/
def shown (t : Timestamp) : Timestamp := t.wall.toTimestamp 0

theorem seconds_shown (t : Timestamp) :
    t.shown.seconds = t.seconds - t.seconds % 60 + min (t.seconds % 60 + t.nanos / perSecond) 59 := by
  simp only [shown, Wall.toTimestamp, wall, dayNumber_dateOf]
  omega

theorem nanos_shown (t : Timestamp) :
    t.shown.nanos = t.nanos % perSecond + if t.seconds % 60 + t.nanos / perSecond = 60 then perSecond else 0 := by
  have hsecond : t.wall.second = 60 ↔ t.seconds % 60 + t.nanos / perSecond = 60 := by
    simp only [wall]
    omega
  simp only [shown, Wall.toTimestamp, hsecond]
  rfl

theorem onClock_shown (t : Timestamp) : t.shown.OnClock := by
  constructor
  · rw [nanos_shown]
    simp only [perSecond]
    split <;> omega
  · rw [nanos_shown, seconds_shown]
    simp only [perSecond]
    split <;> omega

/-- A clock shows a point in time if it means that one by what it shows. -/
theorem shown_eq_self_iff : t.shown = t ↔ t.OnClock := by
  constructor
  · intro heq
    rw [← heq]
    exact onClock_shown t
  · rintro ⟨hlt, hleap⟩
    have hseconds := seconds_shown t
    have hnanos := nanos_shown t
    simp only [perSecond] at hlt hleap hseconds hnanos
    have hs : t.shown.seconds = t.seconds := by omega
    have hn : t.shown.nanos = t.nanos := by
      split at hnanos <;> omega
    cases ht : t.shown
    cases t
    simp_all

theorem inRange_eq {seconds : Int} : inRange seconds ↔
    daysBeforeYear firstYear * 86400 ≤ seconds ∧ seconds < daysBeforeYear (lastYear + 1) * 86400 := by
  simp [inRange]

theorem inRange_iff : inRange t.seconds ↔ firstYear ≤ t.year ∧ t.year ≤ lastYear := by
  obtain ⟨hlow, hhigh⟩ := yearOf_spec (t.seconds / 86400)
  rw [inRange_eq]
  constructor
  · rintro ⟨h, h'⟩
    constructor
    · by_contra hlt
      have hle := daysBeforeYear_mono (show t.year + 1 ≤ firstYear by omega)
      unfold year at hle
      omega
    · by_contra hlt
      have hle := daysBeforeYear_mono (show lastYear + 1 ≤ t.year by omega)
      unfold year at hle
      omega
  · rintro ⟨h, h'⟩
    have hfirst := daysBeforeYear_mono h
    have hlast := daysBeforeYear_mono (show t.year + 1 ≤ lastYear + 1 by omega)
    unfold year at hfirst hlast
    omega

theorem exists?_iff {w : Wall} : w.exists? ↔ w.date.exists? ∧ (firstYear ≤ w.date.year ∧ w.date.year ≤ lastYear) ∧
    w.hour < 24 ∧ w.minute < 60 ∧ w.second ≤ 60 := by
  simp [Wall.exists?, and_assoc]

theorem inRange_shown (h : t.nanos < 2 * perSecond) (hr : inRange t.seconds) : inRange t.shown.seconds := by
  rw [inRange_eq] at hr ⊢
  rw [seconds_shown]
  simp only [perSecond] at h ⊢
  omega

theorem exists_wall (h : t.nanos < 2 * perSecond) (hr : inRange t.seconds) : t.wall.exists? := by
  simp only [perSecond] at h
  rw [exists?_iff]
  refine ⟨exists_dateOf _, ?_, ?_, ?_, ?_⟩
  · rw [wall, year_dateOf]
    exact inRange_iff.1 hr
  all_goals
    simp only [wall, perSecond]
    omega

/-- The numbers of a printed timestamp fit into their fields. -/
theorem wall_lt (h : t.nanos < 2 * perSecond) :
    t.wall.date.month < 100 ∧ t.wall.date.day < 100 ∧ t.wall.hour < 100 ∧ t.wall.minute < 100 ∧
      t.wall.second < 100 ∧ t.wall.nanos < perSecond := by
  have hdate := exists_dateOf (t.seconds / 86400)
  obtain ⟨-, hmonth⟩ := Date.month_le hdate
  obtain ⟨-, hday⟩ := Date.day_le hdate
  have hlen := daysInMonth_le (dateOf (t.seconds / 86400)).year (dateOf (t.seconds / 86400)).month
  simp only [perSecond] at h
  refine ⟨?_, ?_, ?_, ?_, ?_, ?_⟩ <;> simp only [wall, perSecond] <;> omega

theorem print_eq (t : Timestamp) :
    t.print = printYear t.year ++ '-' :: (padded 2 t.wall.date.month ++ '-' :: (padded 2 t.wall.date.day ++
      'T' :: (padded 2 t.wall.hour ++ ':' :: (padded 2 t.wall.minute ++ ':' :: (padded 2 t.wall.second ++
        (printFraction t.wall.nanos ++ ['Z'])))))) := by
  simp [print, wall, year, year_dateOf]

theorem wall_shown (h : t.nanos < 2 * perSecond) : t.shown.wall = t.wall := by
  have hseconds := seconds_shown t
  have hnanos := nanos_shown t
  rw [wall, wall, Wall.mk.injEq]
  simp only [perSecond] at h hseconds hnanos ⊢
  refine ⟨congrArg dateOf (by omega), by omega, by omega, ?_, ?_⟩
  · split at hnanos <;> omega
  · split at hnanos <;> omega

/-- What a clock shows is all that is printed. -/
theorem print_shown (h : t.nanos < 2 * perSecond) : t.shown.print = t.print := by
  have hyear : t.shown.year = t.year := by
    rw [year, year, ← year_dateOf, ← year_dateOf]
    exact congrArg (fun w : Wall => w.date.year) (wall_shown h)
  rw [print_eq, print_eq, wall_shown h, hyear]

/-- Every printed timestamp ends with its zone. -/
theorem exists_print_eq (t : Timestamp) : ∃ s, t.print = s ++ ['Z'] := ⟨_, rfl⟩

/-! ## Reading what was printed -/

theorem afterSeparator_cons (r : List Char) : afterSeparator ('T' :: r) = some r := by
  simp [afterSeparator]

theorem readOffset_cons (r : List Char) : readOffset ('Z' :: r) = some (0, r) := by
  simp [readOffset]

/-- A printed timestamp of a year with four digits is read as the point in time that a clock means. -/
theorem readRfc3339_print (h : t.nanos < 2 * perSecond) (hfirst : 0 ≤ t.year) (hlast : t.year ≤ 9999) :
    readRfc3339 t.print = some t.shown := by
  obtain ⟨hmonth, hday, hhour, hminute, hsecond, hnanos⟩ := wall_lt h
  have hyear : ∀ r, readNumber 4 4 (printYear t.year ++ r) = some (t.year.toNat, r) := by
    intro r
    rw [printYear, if_pos ⟨hfirst, hlast⟩]
    exact readNumber_padded (w := 3) (by simp only [tenPow, Nat.pow_eq]; omega) (Nat.le_refl 4) r
  have hpair : ∀ n < 100, ∀ r, readNumber 2 2 (padded 2 n ++ r) = some (n, r) :=
    fun n hn r => readNumber_padded (w := 1) hn (Nat.le_refl 2) r
  have hexists := exists_wall h (inRange_iff.2 ⟨by simp only [firstYear]; omega, by simp only [lastYear]; omega⟩)
  have hwall : t.wall = ⟨⟨t.year.toNat, t.wall.date.month, t.wall.date.day⟩, t.wall.hour, t.wall.minute,
      t.wall.second, t.wall.nanos⟩ := by
    rw [Int.toNat_of_nonneg hfirst]
    simp only [wall, year, ← year_dateOf]
  rw [print_eq, readRfc3339]
  -- field by field and mark by mark; `simp` would go through all that is left at each of them
  refine Option.bind_eq_some_iff.2 ⟨_, hyear _, ?_⟩
  refine Option.bind_eq_some_iff.2 ⟨_, expect_cons '-' _, ?_⟩
  refine Option.bind_eq_some_iff.2 ⟨_, hpair _ hmonth _, ?_⟩
  refine Option.bind_eq_some_iff.2 ⟨_, expect_cons '-' _, ?_⟩
  refine Option.bind_eq_some_iff.2 ⟨_, hpair _ hday _, ?_⟩
  refine Option.bind_eq_some_iff.2 ⟨_, afterSeparator_cons _, ?_⟩
  refine Option.bind_eq_some_iff.2 ⟨_, hpair _ hhour _, ?_⟩
  refine Option.bind_eq_some_iff.2 ⟨_, expect_cons ':' _, ?_⟩
  refine Option.bind_eq_some_iff.2 ⟨_, hpair _ hminute _, ?_⟩
  refine Option.bind_eq_some_iff.2 ⟨_, expect_cons ':' _, ?_⟩
  refine Option.bind_eq_some_iff.2 ⟨_, hpair _ hsecond _, ?_⟩
  refine Option.bind_eq_some_iff.2 ⟨_, readFraction_printFraction hnanos _, ?_⟩
  refine Option.bind_eq_some_iff.2 ⟨_, readOffset_cons _, ?_⟩
  dsimp only
  rw [← hwall, if_pos ⟨rfl, hexists⟩]
  rfl

theorem readYear_minus (r : List Char) :
    readYear ('-' :: r) = (readNumber 1 r.length r).map fun p => (-(p.1 : Int), p.2) := rfl

theorem readYear_plus (r : List Char) :
    readYear ('+' :: r) = (readNumber 1 r.length r).map fun p => ((p.1 : Int), p.2) := rfl

theorem readYear_digit (hc : isDigit c) (r : List Char) :
    readYear (c :: r) = (readNumber 1 4 (c :: r)).map fun p => ((p.1 : Int), p.2) := by
  rw [readYear, trimStart_cons (not_isBlank_of_isDigit hc)]
  split
  · rename_i heq; cases heq; cases hc
  · rename_i heq; cases heq; cases hc
  · rfl

/-- A printed year is read with its sign. -/
theorem readYear_printYear (y : Int) (r : List Char) : readYear (printYear y ++ '-' :: r) = some (y, '-' :: r) := by
  have hsigned : ∀ n, readNumber 1 (padded 4 n ++ '-' :: r).length (padded 4 n ++ '-' :: r) = some (n, '-' :: r) := by
    intro n
    have hlen := length_padded_ge 4 n
    refine readNumber_append (denotes_padded 4 n) (by omega) ?_ (Or.inr (by simp; decide))
    rw [List.length_append]
    exact Nat.le_add_right _ _
  unfold printYear
  split
  · rename_i h
    have hfits : y.toNat < tenPow (3 + 1) := by
      simp only [tenPow, Nat.pow_eq]
      omega
    have hdigits := denotes_padded 4 y.toNat
    have hread := readNumber_padded hfits (by decide : 1 ≤ 3 + 1) ('-' :: r)
    obtain ⟨c, ds, hds⟩ := List.exists_cons_of_length_pos (Nat.lt_of_lt_of_le (by decide) (length_padded_ge 4 y.toNat))
    rw [hds] at hdigits hread ⊢
    rw [List.cons_append, readYear_digit (hdigits.isDigit c List.mem_cons_self), ← List.cons_append, hread,
      Option.map_some, Int.toNat_of_nonneg h.1]
  · split
    · rename_i h
      rw [List.cons_append, readYear_minus, hsigned, Option.map_some, show -(y.natAbs : Int) = y by omega]
    · rename_i h
      rw [List.cons_append, readYear_plus, hsigned, Option.map_some, show (y.natAbs : Int) = y by omega]

theorem expect_trimStart (hc : ¬ isBlank c) (r : List Char) : expect c (trimStart (c :: r)) = some r := by
  rw [trimStart_cons hc, expect_cons]

theorem readLenientOffset_cons : readLenientOffset ['Z'] = some (0, []) := rfl

/-- A printed timestamp of any year that can be represented is read so leniently. -/
theorem readLenient_print (h : t.nanos < 2 * perSecond) (hr : inRange t.seconds) :
    readLenient t.print = some t.shown := by
  obtain ⟨hmonth, hday, hhour, hminute, hsecond, hnanos⟩ := wall_lt h
  have hpair : ∀ n < 100, ∀ r, readField 2 (padded 2 n ++ r) = some (n, r) :=
    fun n hn r => readField_padded (w := 1) hn r
  have hwall : t.wall = ⟨⟨t.year, t.wall.date.month, t.wall.date.day⟩, t.wall.hour, t.wall.minute,
      t.wall.second, t.wall.nanos⟩ := by
    simp only [wall, year, ← year_dateOf]
  rw [print_eq, readLenient]
  refine Option.bind_eq_some_iff.2 ⟨_, readYear_printYear t.year _, ?_⟩
  refine Option.bind_eq_some_iff.2 ⟨_, expect_trimStart (c := '-') (by decide) _, ?_⟩
  refine Option.bind_eq_some_iff.2 ⟨_, hpair _ hmonth _, ?_⟩
  refine Option.bind_eq_some_iff.2 ⟨_, expect_trimStart (c := '-') (by decide) _, ?_⟩
  refine Option.bind_eq_some_iff.2 ⟨_, hpair _ hday _, ?_⟩
  refine Option.bind_eq_some_iff.2 ⟨_, afterSeparator_cons _, ?_⟩
  refine Option.bind_eq_some_iff.2 ⟨_, hpair _ hhour _, ?_⟩
  refine Option.bind_eq_some_iff.2 ⟨_, expect_trimStart (c := ':') (by decide) _, ?_⟩
  refine Option.bind_eq_some_iff.2 ⟨_, hpair _ hminute _, ?_⟩
  refine Option.bind_eq_some_iff.2 ⟨_, expect_trimStart (c := ':') (by decide) _, ?_⟩
  refine Option.bind_eq_some_iff.2 ⟨_, hpair _ hsecond _, ?_⟩
  refine Option.bind_eq_some_iff.2 ⟨_, readFraction_printFraction hnanos _, ?_⟩
  refine Option.bind_eq_some_iff.2 ⟨_, readLenientOffset_cons, ?_⟩
  dsimp only
  rw [← hwall, ← shown, if_pos ⟨rfl, exists_wall h hr, inRange_shown h hr⟩]
  rfl

/-! ## Timestamps of four-digit years between white space -/

theorem trim_print (hfirst : 0 ≤ t.year) (hlast : t.year ≤ 9999) : trim t.print = t.print := by
  apply trim_eq_self
  · have hyear := denotes_padded 4 t.year.toNat
    obtain ⟨c, ds, hds⟩ := List.exists_cons_of_length_pos (Nat.lt_of_lt_of_le (by decide) (length_padded_ge 4 t.year.toNat))
    rw [hds] at hyear
    rw [print_eq, printYear, if_pos ⟨hfirst, hlast⟩, hds]
    simpa using not_isBlank_of_isDigit (hyear.isDigit c List.mem_cons_self)
  · obtain ⟨s, hs⟩ := exists_print_eq t
    rw [hs, List.getLast?_concat]
    simp
    decide

/-- A printed timestamp of a year with four digits is read in any zone. -/
theorem read_print (h : t.nanos < 2 * perSecond) (hfirst : 0 ≤ t.year) (hlast : t.year ≤ 9999) (zone : Zone) :
    read zone (trim t.print) = .ok t.shown := by
  rw [trim_print hfirst hlast, read, readRfc3339_print h hfirst hlast]

end RateDesk.Timestamp
