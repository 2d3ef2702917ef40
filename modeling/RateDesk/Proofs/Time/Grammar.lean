import RateDesk.Proofs.Time.Reader

/-!
# The grammar of timestamps

* `IsNumber`, `IsField`, `IsYear`, `IsFraction`, `IsOffset` : the parts of a timestamp, without the reader;
* `IsRfc3339 s t` : the text `s` writes the instant `t` with an offset;
* `IsLocal s w` : the text `s` writes the time `w` on a clock, with or without seconds;
* `readRfc3339_eq_some`, `readLocal_eq_some` : the readers take the texts of these forms, and no others;
* `not_isRfc3339_of_isLocal` : no text has both forms.
-/

namespace RateDesk.Timestamp

open Text Time

/-! ## Parts -/

/-- A run of `least` to `most` digits and the number that they write. -/
def IsNumber (least most : Nat) (s : List Char) (n : Nat) : Prop := Denotes s n ∧ least ≤ s.length ∧ s.length ≤ most

/-- White space and one or two digits. -/
def IsField (s : List Char) (n : Nat) : Prop := ∃ a u, s = a ++ u ∧ (∀ c ∈ a, isBlank c) ∧ IsNumber 1 2 u n

/-- White space and one to four digits, or a sign and any digits. -/
def IsYear (s : List Char) (y : Int) : Prop :=
  ∃ a u n, s = a ++ u ∧ (∀ c ∈ a, isBlank c) ∧
    (IsNumber 1 4 u n ∧ y = n ∨ ∃ v, IsNumber 1 v.length v n ∧ (u = '+' :: v ∧ y = n ∨ u = '-' :: v ∧ y = -n))

/-- Nothing, or a point with digits: the part of a second that they write, in whole nanoseconds. -/
def IsFraction (s : List Char) (n : Nat) : Prop :=
  s = [] ∧ n = 0 ∨ ∃ ds m, s = '.' :: ds ∧ ds ≠ [] ∧ Denotes ds m ∧ n = m * tenPow 9 / tenPow ds.length

/-- A `Z`, or a sign with hours and minutes, in seconds east of Greenwich. -/
def IsOffset (s : List Char) (offset : Int) : Prop :=
  s ∈ [['Z'], ['z']] ∧ offset = 0 ∨
    ∃ sign a b h m, s = sign :: (a ++ ':' :: b) ∧ IsNumber 2 2 a h ∧ IsNumber 2 2 b m ∧ h ≤ 23 ∧ m ≤ 59 ∧
      (sign = '+' ∧ offset = (h * 3600 + m * 60 : Nat) ∨ sign ∈ ['-', '\u2212'] ∧ offset = -(h * 3600 + m * 60 : Nat))

/-! ## Whole texts -/

/-- A date, a time of day and an offset, each field with all its digits: the instant at which a clock with that
offset shows the time. -/
inductive IsRfc3339 : List Char → Timestamp → Prop
  | intro {y mo d h mi s f o : List Char} {separator : Char} {year : Nat} {w : Wall} {offset : Int}
      (hyear : IsNumber 4 4 y year) (heq : w.date.year = year) (hmonth : IsNumber 2 2 mo w.date.month)
      (hday : IsNumber 2 2 d w.date.day) (hseparator : separator ∈ ['T', 't', ' ']) (hhour : IsNumber 2 2 h w.hour)
      (hminute : IsNumber 2 2 mi w.minute) (hsecond : IsNumber 2 2 s w.second) (hfraction : IsFraction f w.nanos)
      (hoffset : IsOffset o offset) (hw : w.exists?) :
      IsRfc3339 (y ++ '-' :: (mo ++ '-' :: (d ++ separator :: (h ++ ':' :: (mi ++ ':' :: (s ++ (f ++ o)))))))
        (w.toTimestamp offset)

inductive IsMinute : List Char → Wall → Prop
  | intro {y mo d h mi : List Char} {w : Wall} (hyear : IsYear y w.date.year) (hmonth : IsField mo w.date.month)
      (hday : IsField d w.date.day) (hhour : IsField h w.hour) (hminute : IsField mi w.minute) :
      IsMinute (y ++ '-' :: (mo ++ '-' :: (d ++ 'T' :: (h ++ ':' :: mi)))) w

/-- A time on a clock, to the minute, or to a fraction of a second. -/
inductive IsLocal : List Char → Wall → Prop
  | minutes {s : List Char} {w : Wall} (hminute : IsMinute s w) (hsecond : w.second = 0) (hnanos : w.nanos = 0)
      (hw : w.exists?) : IsLocal s w
  | seconds {m s f : List Char} {w : Wall} (hminute : IsMinute m w) (hsecond : IsField s w.second)
      (hfraction : IsFraction f w.nanos) (hw : w.exists?) : IsLocal (m ++ ':' :: (s ++ f)) w

variable {least most k l m n : Nat} {s r u v : List Char} {c : Char} {t : Timestamp} {w : Wall} {offset y : Int}

/-! ## Numbers -/

/-- What follows a number does not prolong it. -/
def NoDigit (r : List Char) : Prop := ∀ c ∈ r.head?, ¬ isDigit c

theorem noDigit_nil : NoDigit [] := nofun

theorem noDigit_cons (hc : ¬ isDigit c) (r : List Char) : NoDigit (c :: r) := by
  rintro _ ⟨⟩
  exact hc

theorem readNumber_sound (h : readNumber least most s = some (n, r)) : ∃ u, s = u ++ r ∧ IsNumber least most u n := by
  obtain ⟨u, rfl, hu, hleast, hmost⟩ := readNumber_eq_some h
  exact ⟨u, rfl, hu, hleast, hmost⟩

/-- Reading stops where no more digits are taken, or none follow. -/
theorem readNumber_stops (h : readNumber least most s = some (n, r)) : s.length - r.length = most ∨ NoDigit r := by
  unfold readNumber at h
  simp only [bind, pure] at h
  generalize hds : (s.take most).takeWhile isDigit = ds at h
  have hprefix : ds <+: s.take most := hds ▸ List.takeWhile_prefix _
  have hlen := hprefix.length_le
  rw [List.length_take] at hlen
  split at h
  · cases h
  · obtain ⟨vs, -, heq⟩ := Option.bind_eq_some_iff.1 h
    cases heq
    rw [List.length_drop]
    by_cases hmost : ds.length = most
    · exact Or.inl (by omega)
    · right
      intro c hc
      rw [List.head?_drop] at hc
      have hrest : (s.take most)[ds.length]? = some c := by rwa [List.getElem?_take_of_lt (by omega)]
      rw [← List.takeWhile_append_dropWhile (p := isDigit) (l := s.take most), hds,
        List.getElem?_append_right (Nat.le_refl _), Nat.sub_self, ← List.head?_eq_getElem?] at hrest
      have hstop := List.head?_dropWhile_not isDigit (s.take most)
      rw [hrest] at hstop
      simpa using hstop

theorem readNumber_complete (hu : IsNumber least most u n) (hr : NoDigit r) :
    readNumber least most (u ++ r) = some (n, r) :=
  readNumber_append hu.1 hu.2.1 hu.2.2 (Or.inr hr)

theorem expect_eq_some : expect c s = some r ↔ s = c :: r := afterPrefix?_eq_some

/-! ## Fields -/

theorem readField_sound (h : readField 2 s = some (n, r)) : ∃ u, s = u ++ r ∧ IsField u n := by
  obtain ⟨u, hu, hnumber⟩ := readNumber_sound h
  refine ⟨s.takeWhile isBlank ++ u, ?_, s.takeWhile isBlank, u, rfl, fun c hc => List.mem_takeWhile_imp hc, hnumber⟩
  rw [List.append_assoc, ← hu, trimStart, List.takeWhile_append_dropWhile]

theorem IsNumber.ne_nil (h : IsNumber (least + 1) most u n) : u ≠ [] :=
  List.ne_nil_of_length_pos (Nat.lt_of_lt_of_le (Nat.succ_pos least) h.2.1)

theorem readField_complete (hu : IsField u n) (hr : NoDigit r) : readField 2 (u ++ r) = some (n, r) := by
  obtain ⟨a, u, rfl, ha, hnumber⟩ := hu
  rw [readField, List.append_assoc, trimStart_append_of_blank ha, trimStart_append hnumber.1 hnumber.ne_nil]
  exact readNumber_complete hnumber hr

theorem readYear_sound (h : readYear s = some (y, r)) : ∃ u, s = u ++ r ∧ IsYear u y := by
  have hsplit : s = s.takeWhile isBlank ++ trimStart s := List.takeWhile_append_dropWhile.symm
  have hblank : ∀ c ∈ s.takeWhile isBlank, isBlank c := fun c hc => List.mem_takeWhile_imp hc
  unfold readYear at h
  split at h
  · rename_i q heq
    obtain ⟨⟨n, r⟩, hn, hr⟩ := Option.map_eq_some_iff.1 h
    cases hr
    obtain ⟨v, rfl, hv⟩ := readNumber_sound hn
    refine ⟨s.takeWhile isBlank ++ '-' :: v, ?_, _, _, n, rfl, hblank, Or.inr ⟨v, ⟨hv.1, hv.2.1, Nat.le_refl _⟩, ?_⟩⟩
    · rw [List.append_assoc, List.cons_append, ← heq, ← hsplit]
    · exact Or.inr ⟨rfl, rfl⟩
  · rename_i q heq
    obtain ⟨⟨n, r⟩, hn, hr⟩ := Option.map_eq_some_iff.1 h
    cases hr
    obtain ⟨v, rfl, hv⟩ := readNumber_sound hn
    refine ⟨s.takeWhile isBlank ++ '+' :: v, ?_, _, _, n, rfl, hblank, Or.inr ⟨v, ⟨hv.1, hv.2.1, Nat.le_refl _⟩, ?_⟩⟩
    · rw [List.append_assoc, List.cons_append, ← heq, ← hsplit]
    · exact Or.inl ⟨rfl, rfl⟩
  · obtain ⟨⟨n, r⟩, hn, hr⟩ := Option.map_eq_some_iff.1 h
    cases hr
    obtain ⟨v, hv, hnumber⟩ := readNumber_sound hn
    refine ⟨s.takeWhile isBlank ++ v, ?_, _, _, n, rfl, hblank, Or.inl ⟨hnumber, rfl⟩⟩
    rw [List.append_assoc, ← hv, ← hsplit]

theorem readYear_blank (ha : ∀ c ∈ u, isBlank c) (s : List Char) : readYear (u ++ s) = readYear s := by
  rw [readYear, readYear, trimStart_append_of_blank ha]

theorem readYear_complete (hu : IsYear u y) (hr : NoDigit r) : readYear (u ++ r) = some (y, r) := by
  obtain ⟨a, u, n, rfl, ha, hyear⟩ := hu
  rw [List.append_assoc, readYear_blank ha]
  rcases hyear with ⟨hnumber, rfl⟩ | ⟨v, hnumber, hsign⟩
  · obtain ⟨c, v, rfl⟩ := List.exists_cons_of_ne_nil hnumber.ne_nil
    rw [List.cons_append, readYear_digit (hnumber.1.isDigit c List.mem_cons_self), ← List.cons_append,
      readNumber_complete hnumber hr]
    rfl
  · have hread : readNumber 1 (v ++ r).length (v ++ r) = some (n, r) :=
      readNumber_complete ⟨hnumber.1, hnumber.2.1, by simp⟩ hr
    rcases hsign with ⟨rfl, rfl⟩ | ⟨rfl, rfl⟩
    · rw [List.cons_append, readYear_plus, hread]
      rfl
    · rw [List.cons_append, readYear_minus, hread]
      rfl

/-! ## Fractions of a second -/

/-- Digits beyond the ninth are worth less than a nanosecond. -/
theorem nanos_eq (hl : l < tenPow n) (hm : m ≤ 9) (h : m = 9 ∨ n = 0) :
    (k * tenPow n + l) * tenPow 9 / tenPow (m + n) = k * tenPow (9 - m) := by
  rcases h with rfl | rfl
  · rw [Nat.add_comm 9 n, tenPow_add, Nat.mul_div_mul_right _ _ (tenPow_pos 9), Nat.add_comm,
      Nat.add_mul_div_right _ _ (tenPow_pos n), Nat.div_eq_of_lt hl, Nat.zero_add]
    exact (Nat.mul_one k).symm
  · obtain rfl : l = 0 := Nat.lt_one_iff.1 hl
    rw [Nat.add_zero, Nat.add_zero, show k * tenPow 0 = k from Nat.mul_one k]
    conv_lhs => rw [show 9 = 9 - m + m by omega, tenPow_add, ← Nat.mul_assoc]
    exact Nat.mul_div_cancel _ (tenPow_pos m)

theorem isFraction_append (hu : IsNumber 1 9 u k) (hv : Denotes v l) (h : u.length = 9 ∨ v = []) :
    IsFraction ('.' :: (u ++ v)) (k * tenPow (9 - u.length)) := by
  refine Or.inr ⟨u ++ v, _, rfl, by simp [hu.ne_nil], hu.1.append hv, ?_⟩
  rw [List.length_append, nanos_eq hv.lt hu.2.2 (h.imp_right fun hv => by rw [hv]; rfl)]

theorem takeWhile_eq_nil (h : NoDigit r) : r.takeWhile isDigit = [] := by
  cases r with
  | nil => rfl
  | cons c r => exact List.takeWhile_cons_of_neg (h c rfl)

theorem readNanos_sound (h : readNanos s = some (n, r)) : ∃ u, s = u ++ r ∧ IsFraction ('.' :: u) n := by
  obtain ⟨⟨k, q⟩, hk, h⟩ := Option.bind_eq_some_iff.1 h
  cases h
  obtain ⟨u, rfl, hu⟩ := readNumber_sound hk
  have hstop := readNumber_stops hk
  rw [List.length_append, Nat.add_sub_cancel] at hstop ⊢
  obtain ⟨l, hv⟩ := exists_denotes (s := q.takeWhile isDigit) fun c hc => List.mem_takeWhile_imp hc
  refine ⟨u ++ q.takeWhile isDigit, ?_, isFraction_append hu hv (hstop.imp_right takeWhile_eq_nil)⟩
  rw [List.append_assoc, List.takeWhile_append_dropWhile]

theorem readNanos_complete (hds : Denotes v m) (hne : v ≠ []) (hr : NoDigit r) :
    readNanos (v ++ r) = some (m * tenPow 9 / tenPow v.length, r) := by
  obtain ⟨k, l, hk, hl, rfl⟩ := Denotes.split (s := v.take 9) (t := v.drop 9) (by rwa [List.take_append_drop])
  have hlen : (v.take 9).length ≤ 9 := by simp
  have hfull : (v.take 9).length = 9 ∨ v.drop 9 = [] := by
    rw [List.drop_eq_nil_iff, List.length_take]
    omega
  have hread : readNumber 1 9 (v.take 9 ++ (v.drop 9 ++ r)) = some (k, v.drop 9 ++ r) := by
    refine readNumber_append hk ?_ hlen (hfull.imp_right fun hnil => by rwa [hnil])
    have hpos := List.length_pos_of_ne_nil hne
    rw [List.length_take]
    omega
  have hrest : (v.drop 9 ++ r).dropWhile isDigit = r := by
    rw [List.dropWhile_append_of_pos hl.isDigit]
    cases r with
    | nil => rfl
    | cons c r => exact List.dropWhile_cons_of_neg (hr c rfl)
  have hlength : v.length = (v.take 9).length + (v.drop 9).length := by
    rw [← List.length_append, List.take_append_drop]
  rw [← List.append_assoc, List.take_append_drop] at hread
  unfold readNanos
  simp only [hread, bind, Option.bind_some, pure, hrest]
  rw [hlength, nanos_eq hl.lt hlen (hfull.imp_right fun hnil => by rw [hnil]; rfl)]
  have hdrop : (v ++ r).length - (v.drop 9 ++ r).length = (v.take 9).length := by
    rw [List.length_append, List.length_append]
    omega
  rw [hdrop]

/-- What follows a fraction does not prolong it. -/
def NoFraction (r : List Char) : Prop := NoDigit r ∧ r.head? ≠ some '.'

theorem readFraction_sound (h : readFraction s = some (n, r)) : ∃ u, s = u ++ r ∧ IsFraction u n := by
  unfold readFraction at h
  split at h
  · rename_i q
    obtain ⟨u, rfl, hu⟩ := readNanos_sound h
    exact ⟨'.' :: u, rfl, hu⟩
  · cases h
    exact ⟨[], rfl, Or.inl ⟨rfl, rfl⟩⟩

theorem readFraction_complete (hu : IsFraction u n) (hr : NoFraction r) : readFraction (u ++ r) = some (n, r) := by
  rcases hu with ⟨rfl, rfl⟩ | ⟨ds, m, rfl, hne, hds, rfl⟩
  · unfold readFraction
    split
    · rename_i q heq
      exact absurd (congrArg List.head? heq) hr.2
    · rfl
  · exact readNanos_complete hds hne hr.1

/-! ## Offsets -/

theorem readOffset_sound (h : readOffset s = some (offset, r)) : ∃ u, s = u ++ r ∧ IsOffset u offset := by
  cases s with
  | nil => cases h
  | cons c s =>
    rw [readOffset] at h
    split at h
    · rename_i hc
      cases h
      refine ⟨[c], rfl, Or.inl ⟨?_, rfl⟩⟩
      rcases hc with rfl | rfl <;> simp
    · split at h
      · rename_i hc
        obtain ⟨⟨hours, s₁⟩, hhours, h⟩ := Option.bind_eq_some_iff.1 h
        obtain ⟨s₂, hcolon, h⟩ := Option.bind_eq_some_iff.1 h
        obtain ⟨⟨minutes, s₃⟩, hminutes, h⟩ := Option.bind_eq_some_iff.1 h
        dsimp only at h hcolon hminutes
        split at h
        · cases h
        · rename_i hlt
          cases h
          obtain ⟨a, rfl, ha⟩ := readNumber_sound hhours
          obtain rfl := expect_eq_some.1 hcolon
          obtain ⟨b, rfl, hb⟩ := readNumber_sound hminutes
          refine ⟨c :: (a ++ ':' :: b), by simp, Or.inr ⟨c, a, b, hours, minutes, rfl, ha, hb, by omega, by omega, ?_⟩⟩
          by_cases hplus : c = '+'
          · exact Or.inl ⟨hplus, if_pos hplus⟩
          · refine Or.inr ⟨?_, if_neg hplus⟩
            rcases hc with rfl | rfl | rfl
            · exact absurd rfl hplus
            · simp
            · simp
      · cases h

theorem readOffset_complete (hu : IsOffset u offset) : readOffset u = some (offset, []) := by
  rcases hu with ⟨hu, rfl⟩ | ⟨sign, a, b, h, m, rfl, ha, hb, hh, hm, hsign⟩
  · simp only [List.mem_cons, List.not_mem_nil, or_false] at hu
    rcases hu with rfl | rfl <;> rfl
  · have hread : readNumber 2 2 (a ++ ':' :: b) = some (h, ':' :: b) := readNumber_complete ha (noDigit_cons (by decide) b)
    have hread' : readNumber 2 2 b = some (m, []) := by
      have hb' := readNumber_complete hb noDigit_nil
      rwa [List.append_nil] at hb'
    have hfits : ¬ (23 < h ∨ 59 < m) := by omega
    rcases hsign with ⟨rfl, rfl⟩ | ⟨hsign, rfl⟩
    · simp only [readOffset, hread, expect_cons, hread', bind, Option.bind_some, if_neg hfits, pure]
      rfl
    · simp only [List.mem_cons, List.not_mem_nil, or_false] at hsign
      rcases hsign with rfl | rfl
      · simp only [readOffset, hread, expect_cons, hread', bind, Option.bind_some, if_neg hfits, pure]
        rfl
      · simp only [readOffset, hread, expect_cons, hread', bind, Option.bind_some, if_neg hfits, pure]
        rfl

/-! ## Whole texts -/

theorem afterSeparator_eq_some : afterSeparator s = some r ↔ ∃ c ∈ ['T', 't', ' '], s = c :: r := by
  cases s with
  | nil => simp [afterSeparator]
  | cons c s =>
    simp only [afterSeparator, Option.ite_none_right_eq_some, Option.some.injEq, List.cons.injEq, List.mem_cons,
      List.not_mem_nil, or_false]
    constructor
    · rintro ⟨hc, rfl⟩
      exact ⟨c, hc, rfl, rfl⟩
    · rintro ⟨e, he, rfl, rfl⟩
      exact ⟨he, rfl⟩

/-- What no digit is part of. -/
theorem not_isDigit_of_mem {marks : List Char} (h : marks.all (fun c => !isDigit c)) (hc : c ∈ marks) : ¬ isDigit c := by
  simpa using List.all_eq_true.1 h c hc

theorem IsOffset.noFraction (h : IsOffset u offset) : NoFraction u := by
  have hhead : ∀ c ∈ u.head?, c ∈ ['Z', 'z', '+', '-', '\u2212'] := by
    rcases h with ⟨hu, -⟩ | ⟨sign, a, b, h, m, rfl, -, -, -, -, ⟨rfl, -⟩ | ⟨hsign, -⟩⟩
    · simp only [List.mem_cons, List.not_mem_nil, or_false] at hu
      rcases hu with rfl | rfl <;> simp
    · simp
    · simp only [List.mem_cons, List.not_mem_nil, or_false] at hsign
      rcases hsign with rfl | rfl <;> simp
  exact ⟨fun c hc => not_isDigit_of_mem (by decide) (hhead c hc), fun hc => absurd (hhead '.' hc) (by decide)⟩

theorem IsFraction.noDigit (h : IsFraction u n) (hr : NoDigit r) : NoDigit (u ++ r) := by
  rcases h with ⟨rfl, -⟩ | ⟨ds, m, rfl, -⟩
  · exact hr
  · exact noDigit_cons (by decide) _

theorem noDigit_dash (r : List Char) : NoDigit ('-' :: r) := noDigit_cons (by decide) r

theorem noDigit_colon (r : List Char) : NoDigit (':' :: r) := noDigit_cons (by decide) r

/-- RFC 3339 texts are read, and no others. -/
theorem readRfc3339_eq_some : readRfc3339 s = some t ↔ IsRfc3339 s t := by
  constructor
  · intro h
    obtain ⟨⟨year, s₁⟩, ryear, h⟩ := Option.bind_eq_some_iff.1 h
    obtain ⟨s₂, rdash, h⟩ := Option.bind_eq_some_iff.1 h
    obtain ⟨⟨month, s₃⟩, rmonth, h⟩ := Option.bind_eq_some_iff.1 h
    obtain ⟨s₄, rdash', h⟩ := Option.bind_eq_some_iff.1 h
    obtain ⟨⟨day, s₅⟩, rday, h⟩ := Option.bind_eq_some_iff.1 h
    obtain ⟨s₆, rseparator, h⟩ := Option.bind_eq_some_iff.1 h
    obtain ⟨⟨hour, s₇⟩, rhour, h⟩ := Option.bind_eq_some_iff.1 h
    obtain ⟨s₈, rcolon, h⟩ := Option.bind_eq_some_iff.1 h
    obtain ⟨⟨minute, s₉⟩, rminute, h⟩ := Option.bind_eq_some_iff.1 h
    obtain ⟨s₁₀, rcolon', h⟩ := Option.bind_eq_some_iff.1 h
    obtain ⟨⟨second, s₁₁⟩, rsecond, h⟩ := Option.bind_eq_some_iff.1 h
    obtain ⟨⟨nanos, s₁₂⟩, rfraction, h⟩ := Option.bind_eq_some_iff.1 h
    obtain ⟨⟨offset, s₁₃⟩, roffset, h⟩ := Option.bind_eq_some_iff.1 h
    dsimp only at h rmonth rday rhour rminute rsecond rfraction roffset rdash rdash' rseparator rcolon rcolon'
    split at h
    · rename_i hend
      cases h
      obtain ⟨y, rfl, hyear⟩ := readNumber_sound ryear
      obtain rfl := expect_eq_some.1 rdash
      obtain ⟨mo, rfl, hmonth⟩ := readNumber_sound rmonth
      obtain rfl := expect_eq_some.1 rdash'
      obtain ⟨d, rfl, hday⟩ := readNumber_sound rday
      obtain ⟨separator, hmark, rfl⟩ := afterSeparator_eq_some.1 rseparator
      obtain ⟨h, rfl, hhour⟩ := readNumber_sound rhour
      obtain rfl := expect_eq_some.1 rcolon
      obtain ⟨mi, rfl, hminute⟩ := readNumber_sound rminute
      obtain rfl := expect_eq_some.1 rcolon'
      obtain ⟨sec, rfl, hsecond⟩ := readNumber_sound rsecond
      obtain ⟨f, rfl, hfraction⟩ := readFraction_sound rfraction
      obtain ⟨o, rfl, hoffset⟩ := readOffset_sound roffset
      rw [List.isEmpty_iff.1 hend.1, List.append_nil]
      exact .intro hyear rfl hmonth hday hmark hhour hminute hsecond hfraction hoffset hend.2
    · cases h
  · rintro ⟨hyear, heq, hmonth, hday, hmark, hhour, hminute, hsecond, hfraction, hoffset, hw⟩
    rename_i y mo d h mi s f o separator year w offset
    have hrest := hoffset.noFraction
    rw [readRfc3339]
    refine Option.bind_eq_some_iff.2 ⟨_, readNumber_complete hyear (noDigit_dash _), ?_⟩
    refine Option.bind_eq_some_iff.2 ⟨_, expect_cons '-' _, ?_⟩
    refine Option.bind_eq_some_iff.2 ⟨_, readNumber_complete hmonth (noDigit_dash _), ?_⟩
    refine Option.bind_eq_some_iff.2 ⟨_, expect_cons '-' _, ?_⟩
    refine Option.bind_eq_some_iff.2 ⟨_, readNumber_complete hday (noDigit_cons (not_isDigit_of_mem (by decide) hmark) _), ?_⟩
    refine Option.bind_eq_some_iff.2 ⟨_, afterSeparator_eq_some.2 ⟨separator, hmark, rfl⟩, ?_⟩
    refine Option.bind_eq_some_iff.2 ⟨_, readNumber_complete hhour (noDigit_colon _), ?_⟩
    refine Option.bind_eq_some_iff.2 ⟨_, expect_cons ':' _, ?_⟩
    refine Option.bind_eq_some_iff.2 ⟨_, readNumber_complete hminute (noDigit_colon _), ?_⟩
    refine Option.bind_eq_some_iff.2 ⟨_, expect_cons ':' _, ?_⟩
    refine Option.bind_eq_some_iff.2 ⟨_, readNumber_complete hsecond (hfraction.noDigit hrest.1), ?_⟩
    refine Option.bind_eq_some_iff.2 ⟨_, readFraction_complete hfraction hrest, ?_⟩
    refine Option.bind_eq_some_iff.2 ⟨_, readOffset_complete hoffset, ?_⟩
    dsimp only
    rw [← heq, if_pos ⟨rfl, hw⟩]
    rfl

theorem readMinutes_sound (h : readMinutes s = some (w, r)) :
    ∃ m, s = m ++ r ∧ IsMinute m w ∧ w.second = 0 ∧ w.nanos = 0 := by
  obtain ⟨⟨year, s₁⟩, ryear, h⟩ := Option.bind_eq_some_iff.1 h
  obtain ⟨s₂, rdash, h⟩ := Option.bind_eq_some_iff.1 h
  obtain ⟨⟨month, s₃⟩, rmonth, h⟩ := Option.bind_eq_some_iff.1 h
  obtain ⟨s₄, rdash', h⟩ := Option.bind_eq_some_iff.1 h
  obtain ⟨⟨day, s₅⟩, rday, h⟩ := Option.bind_eq_some_iff.1 h
  obtain ⟨s₆, rmark, h⟩ := Option.bind_eq_some_iff.1 h
  obtain ⟨⟨hour, s₇⟩, rhour, h⟩ := Option.bind_eq_some_iff.1 h
  obtain ⟨s₈, rcolon, h⟩ := Option.bind_eq_some_iff.1 h
  obtain ⟨⟨minute, s₉⟩, rminute, h⟩ := Option.bind_eq_some_iff.1 h
  dsimp only at h rdash rmonth rdash' rday rmark rhour rcolon rminute
  cases h
  obtain ⟨y, rfl, hyear⟩ := readYear_sound ryear
  obtain rfl := expect_eq_some.1 rdash
  obtain ⟨mo, rfl, hmonth⟩ := readField_sound rmonth
  obtain rfl := expect_eq_some.1 rdash'
  obtain ⟨d, rfl, hday⟩ := readField_sound rday
  obtain rfl := expect_eq_some.1 rmark
  obtain ⟨h, rfl, hhour⟩ := readField_sound rhour
  obtain rfl := expect_eq_some.1 rcolon
  obtain ⟨mi, rfl, hminute⟩ := readField_sound rminute
  exact ⟨_, by simp, .intro hyear hmonth hday hhour hminute, rfl, rfl⟩

theorem readMinutes_complete (h : IsMinute s w) (hr : NoDigit r) :
    readMinutes (s ++ r) = some ({ w with second := 0, nanos := 0 }, r) := by
  obtain ⟨hyear, hmonth, hday, hhour, hminute⟩ := h
  rename_i y mo d h mi
  have hsplit : y ++ '-' :: (mo ++ '-' :: (d ++ 'T' :: (h ++ ':' :: mi))) ++ r =
      y ++ '-' :: (mo ++ '-' :: (d ++ 'T' :: (h ++ ':' :: (mi ++ r)))) := by simp
  rw [hsplit, readMinutes]
  refine Option.bind_eq_some_iff.2 ⟨_, readYear_complete hyear (noDigit_dash _), ?_⟩
  refine Option.bind_eq_some_iff.2 ⟨_, expect_cons '-' _, ?_⟩
  refine Option.bind_eq_some_iff.2 ⟨_, readField_complete hmonth (noDigit_dash _), ?_⟩
  refine Option.bind_eq_some_iff.2 ⟨_, expect_cons '-' _, ?_⟩
  refine Option.bind_eq_some_iff.2 ⟨_, readField_complete hday (noDigit_cons (by decide) _), ?_⟩
  refine Option.bind_eq_some_iff.2 ⟨_, expect_cons 'T' _, ?_⟩
  refine Option.bind_eq_some_iff.2 ⟨_, readField_complete hhour (noDigit_colon _), ?_⟩
  refine Option.bind_eq_some_iff.2 ⟨_, expect_cons ':' _, ?_⟩
  exact Option.bind_eq_some_iff.2 ⟨_, readField_complete hminute hr, rfl⟩

/-- Local times are read, and no others. -/
theorem readLocal_eq_some : readLocal s = some w ↔ IsLocal s w := by
  constructor
  · intro h
    unfold readLocal at h
    cases hseconds : readLocalSeconds s with
    | some v =>
      rw [hseconds] at h
      cases h
      obtain ⟨⟨v, s₁⟩, rminutes, h⟩ := Option.bind_eq_some_iff.1 hseconds
      obtain ⟨s₂, rcolon, h⟩ := Option.bind_eq_some_iff.1 h
      obtain ⟨⟨second, s₃⟩, rsecond, h⟩ := Option.bind_eq_some_iff.1 h
      obtain ⟨⟨nanos, s₄⟩, rfraction, h⟩ := Option.bind_eq_some_iff.1 h
      dsimp only at h rcolon rsecond rfraction
      split at h
      · rename_i hend
        cases h
        obtain ⟨m, rfl, hminute, -⟩ := readMinutes_sound rminutes
        obtain rfl := expect_eq_some.1 rcolon
        obtain ⟨sec, rfl, hsecond⟩ := readField_sound rsecond
        obtain ⟨f, rfl, hfraction⟩ := readFraction_sound rfraction
        rw [List.isEmpty_iff.1 hend.1, List.append_nil]
        obtain ⟨hyear, hmonth, hday, hhour, hminute⟩ := hminute
        exact .seconds (.intro hyear hmonth hday hhour hminute) hsecond hfraction hend.2
      · cases h
    | none =>
      rw [hseconds] at h
      obtain ⟨⟨v, s₁⟩, rminutes, h⟩ := Option.bind_eq_some_iff.1 h
      dsimp only at h
      split at h
      · rename_i hend
        cases h
        obtain ⟨m, rfl, hminute, hsecond, hnanos⟩ := readMinutes_sound rminutes
        rw [List.isEmpty_iff.1 hend.1, List.append_nil]
        exact .minutes hminute hsecond hnanos hend.2
      · cases h
  · intro h
    cases h with
    | minutes hminute hsecond hnanos hw =>
      have hread := readMinutes_complete hminute noDigit_nil
      have hwall : { w with second := 0, nanos := 0 } = w := by
        cases w
        cases hsecond
        cases hnanos
        rfl
      rw [List.append_nil, hwall] at hread
      have hnone : readLocalSeconds s = none := by
        rw [readLocalSeconds, hread]
        rfl
      have hsome : readLocalMinutes s = some w := by
        rw [readLocalMinutes, hread]
        exact if_pos ⟨rfl, hw⟩
      rw [readLocal, hnone, hsome]
      rfl
    | seconds hminute hsecond hfraction hw =>
      rename_i m sec f
      have hfield : readField 2 (sec ++ f) = some (w.second, f) := by
        refine readField_complete hsecond ?_
        rw [← List.append_nil f]
        exact hfraction.noDigit noDigit_nil
      have hnanos : readFraction f = some (w.nanos, []) := by
        rw [← List.append_nil f]
        exact readFraction_complete hfraction ⟨noDigit_nil, nofun⟩
      have hsome : readLocalSeconds (m ++ ':' :: (sec ++ f)) = some w := by
        refine Option.bind_eq_some_iff.2 ⟨_, readMinutes_complete hminute (noDigit_colon _), ?_⟩
        refine Option.bind_eq_some_iff.2 ⟨_, expect_cons ':' _, ?_⟩
        refine Option.bind_eq_some_iff.2 ⟨_, hfield, ?_⟩
        refine Option.bind_eq_some_iff.2 ⟨_, hnanos, ?_⟩
        exact if_pos ⟨rfl, hw⟩
      rw [readLocal, hsome]
      rfl

/-! ## The two forms -/

/-- A text with so many colons and no `Z`. -/
def Colons (s : List Char) (k : Nat) : Prop := 'Z' ∉ s ∧ 'z' ∉ s ∧ s.count ':' = k

theorem colons_of_forall (h : ∀ c ∈ s, c ∉ ['Z', 'z', ':']) : Colons s 0 :=
  ⟨fun hc => h _ hc (by decide), fun hc => h _ hc (by decide), List.count_eq_zero.2 fun hc => h _ hc (by decide)⟩

theorem Colons.append (hs : Colons s k) (hr : Colons r l) : Colons (s ++ r) (k + l) := by
  obtain ⟨hs₁, hs₂, rfl⟩ := hs
  obtain ⟨hr₁, hr₂, rfl⟩ := hr
  exact ⟨by simp [hs₁, hr₁], by simp [hs₂, hr₂], List.count_append⟩

theorem Colons.colon (h : Colons s k) : Colons (':' :: s) (k + 1) := by
  obtain ⟨hs₁, hs₂, rfl⟩ := h
  exact ⟨by simp [hs₁], by simp [hs₂], List.count_cons_self⟩

theorem Colons.cons (hc : c ∉ ['Z', 'z', ':']) (h : Colons s k) : Colons (c :: s) k := by
  rw [← Nat.zero_add k]
  exact (colons_of_forall (s := [c]) (by simpa using hc)).append h

theorem colons_digits (h : Denotes s n) : Colons s 0 :=
  colons_of_forall fun c hc hmem => not_isDigit_of_mem (by decide) hmem (h.isDigit c hc)

theorem colons_blanks (h : ∀ c ∈ s, isBlank c) : Colons s 0 := by
  have hall : ['Z', 'z', ':'].all (fun c => !isBlank c) := by decide
  exact colons_of_forall fun c hc hmem => absurd (h c hc) (by simpa using List.all_eq_true.1 hall c hmem)

theorem IsField.colons (h : IsField s n) : Colons s 0 := by
  obtain ⟨a, u, rfl, ha, hu⟩ := h
  exact (colons_blanks ha).append (colons_digits hu.1)

theorem IsYear.colons (h : IsYear s y) : Colons s 0 := by
  obtain ⟨a, u, n, rfl, ha, ⟨hu, -⟩ | ⟨v, hv, ⟨rfl, -⟩ | ⟨rfl, -⟩⟩⟩ := h
  · exact (colons_blanks ha).append (colons_digits hu.1)
  · exact (colons_blanks ha).append (.cons (by decide) (colons_digits hv.1))
  · exact (colons_blanks ha).append (.cons (by decide) (colons_digits hv.1))

theorem IsFraction.colons (h : IsFraction s n) : Colons s 0 := by
  rcases h with ⟨rfl, -⟩ | ⟨ds, m, rfl, -, hds, -⟩
  · exact colons_of_forall nofun
  · exact .cons (by decide) (colons_digits hds)

theorem IsMinute.colons (h : IsMinute s w) : Colons s 1 := by
  obtain ⟨hyear, hmonth, hday, hhour, hminute⟩ := h
  have htime := hhour.colons.append hminute.colons.colon
  have hdate := hmonth.colons.append (.cons (c := '-') (by decide) (hday.colons.append (.cons (c := 'T') (by decide) htime)))
  exact hyear.colons.append (.cons (c := '-') (by decide) hdate)

/-- A local time has no offset, which would begin with a `Z` or have a third colon. -/
theorem not_isRfc3339_of_isLocal (h : IsLocal s w) (t : Timestamp) : ¬ IsRfc3339 s t := by
  have hlocal : ∃ k ≤ 2, Colons s k := by
    cases h with
    | minutes hminute => exact ⟨1, by decide, hminute.colons⟩
    | seconds hminute hsecond hfraction =>
      exact ⟨2, le_rfl, hminute.colons.append (hsecond.colons.append hfraction.colons).colon⟩
  obtain ⟨k, hk, hupper, hlower, rfl⟩ := hlocal
  intro hoffset
  cases hoffset with
  | intro _ _ _ _ _ _ _ _ _ hoffset _ =>
    rcases hoffset with ⟨ho, -⟩ | ⟨sign, a, b, h, m, rfl, -⟩
    · simp only [List.mem_cons, List.not_mem_nil, or_false] at ho
      rcases ho with rfl | rfl
      · exact hupper (by simp)
      · exact hlower (by simp)
    · simp only [List.count_append, List.count_cons, beq_self_eq_true, if_true] at hk
      omega

end RateDesk.Timestamp
