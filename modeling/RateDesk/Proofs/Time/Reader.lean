import RateDesk.Proofs.Time.Text

/-!
# What is read as a timestamp

* `Passes s r` : a reading gets from `s` to `r` over marks of timestamps only;
* `readRfc3339_spec`, `readLocal_spec` : the clock that a text shows, and its offset;
* `read_spec` : the timestamps that can be read, and the characters of their texts;
* `onClock_of_read` : where offsets are whole minutes, a clock shows every timestamp that is read.
-/

namespace RateDesk.Timestamp

open Text Time

variable {least most n : Nat} {s r q : List Char} {c : Char} {t : Timestamp} {zone : Zone} {w : Wall} {offset y : Int}

/-! ## Marks -/

def IsMark (c : Char) : Prop := isDigit c ∨ isBlank c ∨ c ∈ ['-', '+', '\u2212', ':', '.', 'T', 't', 'Z', 'z']

def Passes (s r : List Char) : Prop := ∃ u, s = u ++ r ∧ ∀ c ∈ u, IsMark c

theorem Passes.refl (s : List Char) : Passes s s := ⟨[], rfl, nofun⟩

theorem Passes.trans (h : Passes s r) (h' : Passes r q) : Passes s q := by
  obtain ⟨u, rfl, hu⟩ := h
  obtain ⟨v, rfl, hv⟩ := h'
  exact ⟨u ++ v, by simp, List.forall_mem_append.2 ⟨hu, hv⟩⟩

theorem passes_cons (hc : IsMark c) (r : List Char) : Passes (c :: r) r := ⟨[c], rfl, by simpa using hc⟩

theorem Passes.isMark (h : Passes s []) : ∀ c ∈ s, IsMark c := by
  obtain ⟨u, rfl, hu⟩ := h
  simpa using hu

/-! ## Fields -/

theorem readNumber_eq_some (h : readNumber least most s = some (n, r)) :
    ∃ u, s = u ++ r ∧ Denotes u n ∧ least ≤ u.length ∧ u.length ≤ most := by
  unfold readNumber at h
  simp only [bind, pure] at h
  split at h
  · cases h
  · rename_i hleast
    obtain ⟨ds, hds, heq⟩ := Option.bind_eq_some_iff.1 h
    cases heq
    refine ⟨(s.take most).takeWhile isDigit, ?_, denotes_iff.2 ⟨ds, hds, rfl⟩, Nat.not_lt.1 hleast, ?_⟩
    · have hp : (s.take most).takeWhile isDigit <+: s := (List.takeWhile_prefix _).trans (List.take_prefix most s)
      conv_lhs => rw [← List.take_append_drop ((s.take most).takeWhile isDigit).length s]
      rw [← List.prefix_iff_eq_take.1 hp]
    · exact Nat.le_trans (List.takeWhile_prefix _).length_le (by rw [List.length_take]; exact Nat.min_le_left _ _)

theorem passes_digits (hs : Denotes s n) (r : List Char) : Passes (s ++ r) r :=
  ⟨s, rfl, fun c hc => Or.inl (hs.isDigit c hc)⟩

theorem passes_readNumber (h : readNumber least most s = some (n, r)) : Passes s r := by
  obtain ⟨u, rfl, hu, -⟩ := readNumber_eq_some h
  exact passes_digits hu r

theorem passes_trimStart (s : List Char) : Passes s (trimStart s) :=
  ⟨s.takeWhile isBlank, (List.takeWhile_append_dropWhile).symm, fun _ hc => Or.inr (Or.inl (List.mem_takeWhile_imp hc))⟩

theorem passes_readField (h : readField most s = some (n, r)) : Passes s r :=
  (passes_trimStart s).trans (passes_readNumber h)

theorem passes_expect (hc : IsMark c) (h : expect c s = some r) : Passes s r := by
  rw [expect, afterPrefix?_eq_some] at h
  rw [h]
  exact passes_cons hc r

theorem passes_afterSeparator (h : afterSeparator s = some r) : Passes s r := by
  cases s with
  | nil => cases h
  | cons c s =>
    rw [afterSeparator] at h
    split at h
    · rename_i hc
      cases h
      refine passes_cons ?_ _
      rcases hc with rfl | rfl | rfl
      · exact Or.inr (Or.inr (by decide))
      · exact Or.inr (Or.inr (by decide))
      · exact Or.inr (Or.inl (by decide))
    · cases h

theorem passes_readYear (h : readYear s = some (y, r)) : Passes s r := by
  refine (passes_trimStart s).trans ?_
  unfold readYear at h
  split at h
  · rename_i q heq
    obtain ⟨⟨n, r⟩, hn, hr⟩ := Option.map_eq_some_iff.1 h
    cases hr
    rw [heq]
    exact (passes_cons (Or.inr (Or.inr (by decide))) q).trans (passes_readNumber hn)
  · rename_i q heq
    obtain ⟨⟨n, r⟩, hn, hr⟩ := Option.map_eq_some_iff.1 h
    cases hr
    rw [heq]
    exact (passes_cons (Or.inr (Or.inr (by decide))) q).trans (passes_readNumber hn)
  · obtain ⟨⟨n, r⟩, hn, hr⟩ := Option.map_eq_some_iff.1 h
    cases hr
    exact passes_readNumber hn

/-- A fraction is less than a second, however many digits it has. -/
theorem readNanos_spec (h : readNanos s = some (n, r)) : Passes s r ∧ n < perSecond := by
  obtain ⟨⟨k, q⟩, hk, h⟩ := Option.bind_eq_some_iff.1 h
  cases h
  obtain ⟨u, rfl, hu, -, hlen⟩ := readNumber_eq_some hk
  refine ⟨(passes_digits hu q).trans ⟨q.takeWhile isDigit, (List.takeWhile_append_dropWhile).symm,
    fun _ hc => Or.inl (List.mem_takeWhile_imp hc)⟩, ?_⟩
  rw [List.length_append, Nat.add_sub_cancel]
  calc k * tenPow (9 - u.length) < tenPow u.length * tenPow (9 - u.length) :=
        Nat.mul_lt_mul_of_pos_right hu.lt (tenPow_pos _)
    _ = tenPow 9 := by rw [← tenPow_add, Nat.add_sub_cancel' hlen]

theorem readFraction_spec (h : readFraction s = some (n, r)) : Passes s r ∧ n < perSecond := by
  unfold readFraction at h
  split at h
  · rename_i q
    obtain ⟨hq, hn⟩ := readNanos_spec h
    exact ⟨(passes_cons (Or.inr (Or.inr (by decide))) q).trans hq, hn⟩
  · cases h
    exact ⟨Passes.refl s, by decide⟩

/-- An offset is less than a day and in whole minutes. -/
theorem readOffset_spec (h : readOffset s = some (offset, r)) :
    Passes s r ∧ offset.natAbs < 86400 ∧ offset % 60 = 0 := by
  cases s with
  | nil => cases h
  | cons c s =>
    rw [readOffset] at h
    split at h
    · rename_i hc
      cases h
      refine ⟨passes_cons ?_ _, by decide, by decide⟩
      rcases hc with rfl | rfl <;> exact Or.inr (Or.inr (by decide))
    · split at h
      · rename_i hc
        have hmark : IsMark c := by
          rcases hc with rfl | rfl | rfl <;> exact Or.inr (Or.inr (by decide))
        obtain ⟨⟨hours, s₁⟩, hhours, h⟩ := Option.bind_eq_some_iff.1 h
        obtain ⟨s₂, hcolon, h⟩ := Option.bind_eq_some_iff.1 h
        obtain ⟨⟨minutes, s₃⟩, hminutes, h⟩ := Option.bind_eq_some_iff.1 h
        dsimp only at h
        split at h
        · cases h
        · rename_i hlt
          cases h
          refine ⟨(passes_cons hmark s).trans ((passes_readNumber hhours).trans
            ((passes_expect (Or.inr (Or.inr (by decide))) hcolon).trans (passes_readNumber hminutes))), ?_, ?_⟩
          · split <;> omega
          · split <;> omega
      · cases h

/-! ## Whole texts -/

theorem onClock_toTimestamp (hw : w.nanos < perSecond) (ho : offset % 60 = 0) : (w.toTimestamp offset).OnClock := by
  constructor
  · simp only [Wall.toTimestamp, perSecond] at hw ⊢
    split <;> omega
  · intro hle
    simp only [Wall.toTimestamp, perSecond] at hw hle ⊢
    split at hle <;> omega

/-- A time on a clock is within its year, and the offset moves it by less than a day. -/
theorem inRange_toTimestamp (hw : w.exists?) (hfirst : 0 ≤ w.date.year) (hlast : w.date.year ≤ 9999)
    (ho : offset.natAbs < 86400) : inRange (w.toTimestamp offset).seconds := by
  obtain ⟨hdate, -, hhour, hminute, -⟩ := exists?_iff.1 hw
  obtain ⟨hlow, hhigh⟩ := Date.year_le_dayNumber hdate
  have hzero := daysBeforeYear_mono hfirst
  have hend := daysBeforeYear_mono (show w.date.year + 1 ≤ 10000 by omega)
  rw [show daysBeforeYear 0 = -719528 from rfl] at hzero
  rw [show daysBeforeYear 10000 = 2932897 from rfl] at hend
  rw [inRange_eq, show daysBeforeYear firstYear = -96465292 from rfl,
    show daysBeforeYear (lastYear + 1) = 95026237 from rfl]
  simp only [Wall.toTimestamp]
  omega

theorem readRfc3339_spec (h : readRfc3339 s = some t) :
    Passes s [] ∧ t.OnClock ∧ inRange t.seconds := by
  unfold readRfc3339 at h
  obtain ⟨⟨year, s₁⟩, hyear, h⟩ := Option.bind_eq_some_iff.1 h
  obtain ⟨s₂, hdash, h⟩ := Option.bind_eq_some_iff.1 h
  obtain ⟨⟨month, s₃⟩, hmonth, h⟩ := Option.bind_eq_some_iff.1 h
  obtain ⟨s₄, hdash', h⟩ := Option.bind_eq_some_iff.1 h
  obtain ⟨⟨day, s₅⟩, hday, h⟩ := Option.bind_eq_some_iff.1 h
  obtain ⟨s₆, hmark, h⟩ := Option.bind_eq_some_iff.1 h
  obtain ⟨⟨hour, s₇⟩, hhour, h⟩ := Option.bind_eq_some_iff.1 h
  obtain ⟨s₈, hcolon, h⟩ := Option.bind_eq_some_iff.1 h
  obtain ⟨⟨minute, s₉⟩, hminute, h⟩ := Option.bind_eq_some_iff.1 h
  obtain ⟨s₁₀, hcolon', h⟩ := Option.bind_eq_some_iff.1 h
  obtain ⟨⟨second, s₁₁⟩, hsecond, h⟩ := Option.bind_eq_some_iff.1 h
  obtain ⟨⟨nanos, s₁₂⟩, hfraction, h⟩ := Option.bind_eq_some_iff.1 h
  obtain ⟨⟨offset, s₁₃⟩, hoffset, h⟩ := Option.bind_eq_some_iff.1 h
  dsimp only at h hmonth hday hhour hminute hsecond hfraction hoffset hdash hdash' hmark hcolon hcolon'
  split at h
  · rename_i hend
    cases h
    have hm : IsMark '-' := Or.inr (Or.inr (by decide))
    have hc : IsMark ':' := Or.inr (Or.inr (by decide))
    obtain ⟨hfraction, hnanos⟩ := readFraction_spec hfraction
    obtain ⟨hoffset, hday', hminutes⟩ := readOffset_spec hoffset
    obtain ⟨u, -, hu, -, hlen⟩ := readNumber_eq_some hyear
    have hlt : year < 10000 := Nat.lt_of_lt_of_le hu.lt (Nat.pow_le_pow_right (by decide) hlen)
    refine ⟨?_, onClock_toTimestamp hnanos hminutes, inRange_toTimestamp hend.2 (Int.natCast_nonneg year) ?_ hday'⟩
    · have hdate := (passes_readNumber hyear).trans ((passes_expect hm hdash).trans ((passes_readNumber hmonth).trans
        ((passes_expect hm hdash').trans ((passes_readNumber hday).trans (passes_afterSeparator hmark)))))
      have htime := (passes_readNumber hhour).trans ((passes_expect hc hcolon).trans ((passes_readNumber hminute).trans
        ((passes_expect hc hcolon').trans ((passes_readNumber hsecond).trans (hfraction.trans hoffset)))))
      rw [List.isEmpty_iff.1 hend.1] at htime
      exact hdate.trans htime
    · dsimp only
      omega
  · cases h

theorem readMinutes_spec (h : readMinutes s = some (w, r)) : Passes s r ∧ w.nanos = 0 := by
  unfold readMinutes at h
  obtain ⟨⟨year, s₁⟩, hyear, h⟩ := Option.bind_eq_some_iff.1 h
  obtain ⟨s₂, hdash, h⟩ := Option.bind_eq_some_iff.1 h
  obtain ⟨⟨month, s₃⟩, hmonth, h⟩ := Option.bind_eq_some_iff.1 h
  obtain ⟨s₄, hdash', h⟩ := Option.bind_eq_some_iff.1 h
  obtain ⟨⟨day, s₅⟩, hday, h⟩ := Option.bind_eq_some_iff.1 h
  obtain ⟨s₆, hmark, h⟩ := Option.bind_eq_some_iff.1 h
  obtain ⟨⟨hour, s₇⟩, hhour, h⟩ := Option.bind_eq_some_iff.1 h
  obtain ⟨s₈, hcolon, h⟩ := Option.bind_eq_some_iff.1 h
  obtain ⟨⟨minute, s₉⟩, hminute, h⟩ := Option.bind_eq_some_iff.1 h
  cases h
  have hm : IsMark '-' := Or.inr (Or.inr (by decide))
  have hdate := (passes_readYear hyear).trans ((passes_expect hm hdash).trans ((passes_readField hmonth).trans
    ((passes_expect hm hdash').trans (passes_readField hday))))
  have htime := (passes_expect (Or.inr (Or.inr (by decide))) hmark).trans ((passes_readField hhour).trans
    ((passes_expect (Or.inr (Or.inr (by decide))) hcolon).trans (passes_readField hminute)))
  exact ⟨hdate.trans htime, rfl⟩

theorem readLocalSeconds_spec (h : readLocalSeconds s = some w) : Passes s [] ∧ w.nanos < perSecond := by
  unfold readLocalSeconds at h
  obtain ⟨⟨v, s₁⟩, hminutes, h⟩ := Option.bind_eq_some_iff.1 h
  obtain ⟨s₂, hcolon, h⟩ := Option.bind_eq_some_iff.1 h
  obtain ⟨⟨second, s₃⟩, hsecond, h⟩ := Option.bind_eq_some_iff.1 h
  obtain ⟨⟨nanos, s₄⟩, hfraction, h⟩ := Option.bind_eq_some_iff.1 h
  dsimp only at h
  split at h
  · rename_i hend
    cases h
    obtain ⟨hfraction, hnanos⟩ := readFraction_spec hfraction
    rw [List.isEmpty_iff.1 hend.1] at hfraction
    exact ⟨(readMinutes_spec hminutes).1.trans ((passes_expect (Or.inr (Or.inr (by decide))) hcolon).trans
      ((passes_readField hsecond).trans hfraction)), hnanos⟩
  · cases h

theorem readLocalMinutes_spec (h : readLocalMinutes s = some w) : Passes s [] ∧ w.nanos < perSecond := by
  unfold readLocalMinutes at h
  obtain ⟨⟨v, s₁⟩, hminutes, h⟩ := Option.bind_eq_some_iff.1 h
  dsimp only at h
  split at h
  · rename_i hend
    cases h
    obtain ⟨hpasses, hnanos⟩ := readMinutes_spec hminutes
    rw [List.isEmpty_iff.1 hend.1] at hpasses
    exact ⟨hpasses, hnanos ▸ by decide⟩
  · cases h

theorem readLocal_spec (h : readLocal s = some w) : Passes s [] ∧ w.nanos < perSecond := by
  unfold readLocal at h
  cases hseconds : readLocalSeconds s with
  | some v =>
    rw [hseconds] at h
    cases h
    exact readLocalSeconds_spec hseconds
  | none =>
    rw [hseconds] at h
    exact readLocalMinutes_spec h

/-- A text that is read as a timestamp consists of marks. It has an offset, or it is a time on the clocks
of the zone. -/
theorem read_spec (h : read zone s = .ok t) :
    Passes s [] ∧ inRange t.seconds ∧ (t.OnClock ∨
      ∃ (w : Wall) (offset : Int), t = w.toTimestamp offset ∧ zone.offsetOfWall (w.toTimestamp 0).seconds = some offset ∧
        w.nanos < perSecond) := by
  unfold read at h
  split at h
  · rename_i hread
    cases h
    obtain ⟨hpasses, hclock, hrange⟩ := readRfc3339_spec hread
    exact ⟨hpasses, hrange, Or.inl hclock⟩
  · split at h
    · cases h
    · rename_i w hlocal
      obtain ⟨hpasses, hnanos⟩ := readLocal_spec hlocal
      split at h
      · rename_i hwall
        cases h
        obtain ⟨offset, hoffset, hwall⟩ := Option.bind_eq_some_iff.1 hwall
        dsimp only at hwall
        split at hwall
        · rename_i hrange
          cases hwall
          exact ⟨hpasses, hrange, Or.inr ⟨w, offset, rfl, hoffset, hnanos⟩⟩
        · cases hwall
      · cases h

/-- Where the offsets are whole minutes, a clock shows every timestamp that is read. -/
theorem onClock_of_read (hz : ∀ wall offset, zone.offsetOfWall wall = some offset → offset % 60 = 0)
    (h : read zone s = .ok t) : t.OnClock := by
  obtain ⟨-, -, hclock | ⟨w, offset, rfl, hoffset, hnanos⟩⟩ := read_spec h
  · exact hclock
  · exact onClock_toTimestamp hnanos (hz _ _ hoffset)

/-- Whatever the zone, the nanoseconds of a timestamp that is read are less than two seconds. -/
theorem nanos_lt_of_read (h : read zone s = .ok t) : t.nanos < 2 * perSecond := by
  obtain ⟨-, -, hclock | ⟨w, offset, rfl, -, hnanos⟩⟩ := read_spec h
  · exact hclock.nanos_lt
  · simp only [Wall.toTimestamp, perSecond] at hnanos ⊢
    split <;> omega

end RateDesk.Timestamp
