import RateDesk.Time.Calendar

/-!
# Days and dates

* `daysBeforeYear_succ` : years follow each other without gaps, the longer ones every fourth year, as a rule;
* `yearOf_spec` : the year that a day falls into;
* `monthAndDay_spec` : month and day are found by counting the months off;
* `dayNumber_dateOf`, `exists_dateOf` : the date of a day exists and has the number of the day.
-/

namespace RateDesk.Time

/-! ## Years -/

theorem isLeapYear_iff (y : Int) : isLeapYear y ↔ y % 4 = 0 ∧ (y % 100 ≠ 0 ∨ y % 400 = 0) := by
  simp [isLeapYear]

def daysInYear (y : Int) : Nat := if isLeapYear y then 366 else 365

theorem daysBeforeYear_succ (y : Int) : daysBeforeYear (y + 1) = daysBeforeYear y + daysInYear y := by
  unfold daysBeforeYear leapDaysBefore daysInYear
  split
  · rename_i h
    rw [isLeapYear_iff] at h
    omega
  · rename_i h
    rw [isLeapYear_iff] at h
    omega

theorem daysBeforeYear_mono {y z : Int} (h : y ≤ z) : daysBeforeYear y ≤ daysBeforeYear z := by
  unfold daysBeforeYear leapDaysBefore
  omega

/-- Four hundred years have 146097 days, so the quotient misses the year by one at most. -/
theorem daysBeforeYear_estimate (n : Int) :
    daysBeforeYear (1970 + n * 400 / 146097 - 1) ≤ n ∧ n < daysBeforeYear (1970 + n * 400 / 146097 + 2) := by
  unfold daysBeforeYear leapDaysBefore
  omega

theorem yearOf_spec (n : Int) : daysBeforeYear (yearOf n) ≤ n ∧ n < daysBeforeYear (yearOf n + 1) := by
  obtain ⟨hlow, hhigh⟩ := daysBeforeYear_estimate n
  unfold yearOf
  dsimp only
  split
  · rename_i h
    exact ⟨hlow, by rwa [Int.sub_add_cancel]⟩
  · rename_i h
    split
    · rename_i h'
      exact ⟨h', by rwa [Int.add_assoc]⟩
    · rename_i h'
      exact ⟨Int.not_lt.1 h, Int.not_le.1 h'⟩

/-! ## Months -/

theorem foldl_add_eq (ls : List Nat) (acc : Nat) : ls.foldl (· + ·) acc = acc + ls.foldl (· + ·) 0 := by
  induction ls generalizing acc with
  | nil => rfl
  | cons l ls ih =>
    rw [List.foldl_cons, List.foldl_cons, ih, ih (0 + l)]
    omega

theorem monthAndDay_spec (ls : List Nat) (m n : Nat) (h : n < ls.foldl (· + ·) 0) :
    ∃ k d, monthAndDay ls m n = (m + k, d + 1) ∧ k < ls.length ∧ d < ls.getD k 0 ∧
      (ls.take k).foldl (· + ·) 0 + d = n := by
  induction ls generalizing m n with
  | nil => exact absurd h (Nat.not_lt_zero n)
  | cons l ls ih =>
    rw [List.foldl_cons, foldl_add_eq, Nat.zero_add] at h
    rw [monthAndDay]
    by_cases hl : n < l
    · rw [if_pos hl]
      exact ⟨0, n, rfl, Nat.succ_pos _, by simpa using hl, by simp⟩
    · rw [if_neg hl]
      obtain ⟨k, d, heq, hk, hd, hsum⟩ := ih (m + 1) (n - l) (by omega)
      refine ⟨k + 1, d, ?_, Nat.succ_lt_succ hk, by simpa using hd, ?_⟩
      · rw [heq, Nat.add_assoc, Nat.add_comm 1 k]
      · rw [List.take_succ_cons, List.foldl_cons, foldl_add_eq]
        omega

theorem foldl_monthLengths (y : Int) : (monthLengths (isLeapYear y)).foldl (· + ·) 0 = daysInYear y := by
  unfold daysInYear
  cases isLeapYear y <;> rfl

/-! ## Dates -/

/-- The date of a day exists, and its number is that of the day. -/
theorem dateOf_spec (n : Int) :
    (dateOf n).exists? ∧ (dateOf n).dayNumber = n ∧ (dateOf n).year = yearOf n := by
  obtain ⟨hlow, hhigh⟩ := yearOf_spec n
  rw [daysBeforeYear_succ] at hhigh
  have hrest : (n - daysBeforeYear (yearOf n)).toNat < (monthLengths (isLeapYear (yearOf n))).foldl (· + ·) 0 := by
    rw [foldl_monthLengths]
    omega
  obtain ⟨k, d, heq, hk, hd, hsum⟩ := monthAndDay_spec _ 1 _ hrest
  have hdate : dateOf n = ⟨yearOf n, 1 + k, d + 1⟩ := by
    unfold dateOf
    dsimp only
    rw [heq]
  have hmonth : daysInMonth (yearOf n) (1 + k) = (monthLengths (isLeapYear (yearOf n))).getD k 0 := by
    rw [daysInMonth, if_neg (by omega), Nat.add_sub_cancel_left]
  have htwelve : (monthLengths (isLeapYear (yearOf n))).length = 12 := rfl
  rw [hdate]
  refine ⟨?_, ?_, rfl⟩
  · simp only [Date.exists?, Bool.and_eq_true, decide_eq_true_eq, hmonth]
    omega
  · simp only [Date.dayNumber, daysBeforeMonth, Nat.add_sub_cancel_left]
    omega

theorem exists_dateOf (n : Int) : (dateOf n).exists? := (dateOf_spec n).1

theorem dayNumber_dateOf (n : Int) : (dateOf n).dayNumber = n := (dateOf_spec n).2.1

theorem year_dateOf (n : Int) : (dateOf n).year = yearOf n := (dateOf_spec n).2.2

theorem Date.month_le {d : Date} (h : d.exists?) : 1 ≤ d.month ∧ d.month ≤ 12 := by
  simp only [Date.exists?, Bool.and_eq_true, decide_eq_true_eq] at h
  exact ⟨h.1.1.1, h.1.1.2⟩

theorem Date.day_le {d : Date} (h : d.exists?) : 1 ≤ d.day ∧ d.day ≤ daysInMonth d.year d.month := by
  simp only [Date.exists?, Bool.and_eq_true, decide_eq_true_eq] at h
  exact ⟨h.1.2, h.2⟩

theorem daysInMonth_le (y : Int) (m : Nat) : daysInMonth y m ≤ 31 := by
  unfold daysInMonth
  split
  · decide
  · have hall : ∀ leap, ∀ l ∈ monthLengths leap, l ≤ 31 := by decide
    rw [List.getD_eq_getElem?_getD]
    cases h : (monthLengths (isLeapYear y))[m - 1]? with
    | none => decide
    | some l => exact hall _ l (List.mem_of_getElem? h)

theorem daysBeforeMonth_add_le (y : Int) {m : Nat} (h : 1 ≤ m) (h' : m ≤ 12) :
    daysBeforeMonth y m + daysInMonth y m ≤ daysInYear y := by
  have hall : ∀ leap : Bool, ∀ m < 13, 1 ≤ m →
      ((monthLengths leap).take (m - 1)).foldl (· + ·) 0 + (if m = 0 then 0 else (monthLengths leap).getD (m - 1) 0) ≤
        if leap then 366 else 365 := by decide
  exact hall (isLeapYear y) m (Nat.lt_succ_of_le h') h

theorem daysInMonth_ge (y : Int) {m : Nat} (h : 1 ≤ m) (h' : m ≤ 12) : 28 ≤ daysInMonth y m := by
  have hall : ∀ leap : Bool, ∀ m < 13, 1 ≤ m → 28 ≤ (monthLengths leap).getD (m - 1) 0 := by decide
  rw [daysInMonth, if_neg (by omega)]
  exact hall _ m (Nat.lt_succ_of_le h') h

theorem daysBeforeMonth_mono (y : Int) {m n : Nat} (h : 1 ≤ m) (hmn : m < n) (h' : n ≤ 12) :
    daysBeforeMonth y m + daysInMonth y m ≤ daysBeforeMonth y n := by
  have hall : ∀ leap : Bool, ∀ m < 13, ∀ n < 13, 1 ≤ m → m < n →
      ((monthLengths leap).take (m - 1)).foldl (· + ·) 0 + (if m = 0 then 0 else (monthLengths leap).getD (m - 1) 0) ≤
        ((monthLengths leap).take (n - 1)).foldl (· + ·) 0 := by decide
  exact hall (isLeapYear y) m (by omega) n (by omega) h hmn

/-- A date that exists lies in its year. -/
theorem Date.year_le_dayNumber {d : Date} (h : d.exists?) :
    daysBeforeYear d.year ≤ d.dayNumber ∧ d.dayNumber < daysBeforeYear (d.year + 1) := by
  obtain ⟨hm, hm'⟩ := month_le h
  obtain ⟨hd, hd'⟩ := day_le h
  have hle := daysBeforeMonth_add_le d.year hm hm'
  rw [daysBeforeYear_succ, dayNumber]
  omega

end RateDesk.Time
