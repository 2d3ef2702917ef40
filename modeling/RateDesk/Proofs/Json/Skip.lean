import RateDesk.Proofs.Json.Written

/-!
# Skipping over a value

* `Ends r` : the text `r` is what can follow a value;
* `skipScalar_string`, `skipScalar_number` : a scalar is skipped to its end;
* `skipFuel_scalar`, `skipFuel_open`, `skipFuel_close`, `skipFuel_comma`, `skipFuel_name` : the steps of a skip;
* `Skipped p s` : the text of a value, elements or members is skipped, in no more steps than it has characters;
* `skipValue_text` : any value is skipped to its end, whatever it holds and however deep.
-/

namespace RateDesk.Json

open Text

/-- What follows a value begins with white space, or ends an element or a member. -/
def Ends (r : List Char) : Prop := ∃ c t, r = c :: t ∧ (isSpace c ∨ c ∈ [',', ']', '\x7d'])

variable {a b k s t r n : List Char} {c e : Char} {v : Written} {fuel : Nat} {opened : List Bool} {state : Expecting}

theorem IsSpaces.ends (ha : IsSpaces a) (hc : c ∈ [',', ']', '\x7d']) (r : List Char) : Ends (a ++ c :: r) := by
  cases a with
  | nil => exact ⟨c, r, rfl, Or.inr hc⟩
  | cons d a => exact ⟨d, _, rfl, Or.inl (ha d List.mem_cons_self)⟩

theorem Ends.stops (hr : Ends r) : Stops r ∧ ∀ c ∈ r.head?, c ∉ ['e', 'E'] := by
  obtain ⟨c, t, rfl, hc⟩ := hr
  simp only [isSpace, Bool.or_eq_true, beq_iff_eq, List.mem_cons, List.not_mem_nil, or_false] at hc
  constructor
  · rintro c ⟨⟩
    rcases hc with (((rfl | rfl) | rfl) | rfl) | rfl | rfl | rfl <;> decide
  · rintro c ⟨⟩
    rcases hc with (((rfl | rfl) | rfl) | rfl) | rfl | rfl | rfl <;> decide

/-! ## Scalars -/

theorem skipScalar_string (hb : IsBody b) (r : List Char) : skipScalar ('"' :: (b ++ '"' :: r)) = .ok (some r) := by
  obtain ⟨t, ht⟩ := readStringBody_lax hb []
  rw [skipScalar, ht]
  rfl

theorem skipScalar_cons (hc : c = '-' ∨ isDigit c) (t : List Char) :
    skipScalar (c :: t) = (readNumber (c :: t)).map fun x => some x.2.2 := by
  rw [skipScalar, if_pos hc]
  · rfl
  all_goals
    rintro rfl
    exact absurd hc (by decide)

theorem skipScalar_number (hn : IsNumber n) (hr : Ends r) : skipScalar (n ++ r) = .ok (some r) := by
  obtain ⟨m, i, -, hread⟩ := readNumber_number hn hr.stops.1 hr.stops.2
  obtain ⟨c, t, rfl, hc⟩ := hn.exists_cons
  exact (skipScalar_cons hc _).trans (congrArg _ hread)

/-! ## Steps of a skip -/

def opening : (inArray : Bool) → Char
  | true => '['
  | false => '\x7b'

def closing : (inArray : Bool) → Char
  | true => ']'
  | false => '\x7d'

/-- What is expected after the opening mark. -/
def firstIn : (inArray : Bool) → Expecting
  | true => .firstElement
  | false => .firstMember

/-- What is expected after a comma. -/
def nextIn : (inArray : Bool) → Expecting
  | true => .value
  | false => .member

/-- A skip goes on after a value, unless nothing is open around it. -/
def resume (fuel : Nat) (opened : List Bool) (r : List Char) : Except Error (List Char) :=
  if opened.isEmpty then .ok r else skipFuel fuel opened .separator r

theorem skipFuel_spaces (ha : IsSpaces a) (hc : isSpace c = false) (r : List Char) :
    skipFuel (fuel + 1) opened state (a ++ c :: r) = skipFuel (fuel + 1) opened state (c :: r) := by
  rw [skipFuel.eq_def, skipFuel.eq_def (fuel + 1) opened state (c :: r)]
  dsimp only
  rw [skipSpace_append ha hc, skipSpace_cons hc]

theorem skipFuel_scalar (hstate : state ∈ [.value, .firstElement]) (ha : IsSpaces a) (hc : isSpace c = false)
    (hopen : c ∉ ['[', ']', '\x7b']) (hskip : skipScalar (c :: t) = .ok (some r)) :
    skipFuel (fuel + 1) opened state (a ++ c :: t) = resume fuel opened r := by
  simp only [List.mem_cons, List.not_mem_nil, or_false, not_or] at hstate hopen
  rw [skipFuel_spaces ha hc, skipFuel.eq_def]
  dsimp only
  rw [skipSpace_cons hc]
  rcases hstate with rfl | rfl
  all_goals
    split
    case h_11 =>
      rw [hskip]
      rfl
    all_goals simp_all

theorem skipFuel_open (inArray : Bool) (hstate : state ∈ [.value, .firstElement]) (ha : IsSpaces a) (r : List Char) :
    skipFuel (fuel + 1) opened state (a ++ opening inArray :: r) = skipFuel fuel (inArray :: opened) (firstIn inArray) r := by
  cases inArray <;>
  · rw [skipFuel_spaces ha rfl]
    rcases List.mem_pair.1 hstate with rfl | rfl <;> rfl

/-- Where an array or object may end, its bracket ends it. -/
theorem skipFuel_close (inArray : Bool) (hstate : state ∈ [firstIn inArray, .separator]) (ha : IsSpaces a)
    (r : List Char) :
    skipFuel (fuel + 1) (inArray :: opened) state (a ++ closing inArray :: r) = resume fuel opened r := by
  cases inArray <;>
  · rw [skipFuel_spaces ha rfl]
    rcases List.mem_pair.1 hstate with rfl | rfl <;> cases opened <;> rfl

theorem skipFuel_comma (inArray : Bool) (ha : IsSpaces a) (r : List Char) :
    skipFuel (fuel + 1) (inArray :: opened) .separator (a ++ ',' :: r) =
      skipFuel fuel (inArray :: opened) (nextIn inArray) r := by
  rw [skipFuel_spaces ha rfl]
  cases inArray <;> rfl

theorem skipName_append (hk : IsBody k) (hb : IsSpaces b) (r : List Char) :
    skipName ('"' :: (k ++ '"' :: (b ++ ':' :: r))) = .ok r := by
  obtain ⟨t, ht⟩ := readStringBody_lax hk []
  rw [skipName, ht]
  simp only [bind, Except.bind, skipSpace_append hb (show isSpace ':' = false from rfl)]
  rfl

theorem skipFuel_name (hstate : state ∈ [.member, .firstMember]) (ha : IsSpaces a) (hk : IsBody k) (hb : IsSpaces b)
    (r : List Char) : skipFuel (fuel + 1) opened state (a ++ '"' :: (k ++ '"' :: (b ++ ':' :: r))) =
      skipFuel fuel opened .value r := by
  rw [skipFuel_spaces ha rfl]
  have hname := congrArg (fun x => x >>= fun r => skipFuel fuel opened .value r) (skipName_append hk hb r)
  rcases List.mem_pair.1 hstate with rfl | rfl
  · exact hname
  · exact hname

/-! ## Runs of a skip -/

/-- Elements or members are skipped with the closing mark after them, in no more steps than there are characters. -/
def SkippedIn (inArray : Bool) (s : List Char) : Prop :=
  ∃ k ≤ s.length + 1, ∀ fuel opened state r, state ∈ [nextIn inArray, firstIn inArray] →
    skipFuel (fuel + k) (inArray :: opened) state (s ++ closing inArray :: r) = resume fuel opened r

/-- A value is skipped in no more steps than it has characters. -/
def Skipped : Piece → List Char → Prop
  | .value _, s => ∃ k ≤ s.length, ∀ fuel opened state a r, state ∈ [.value, .firstElement] → IsSpaces a → Ends r →
      skipFuel (fuel + k) opened state (a ++ (s ++ r)) = resume fuel opened r
  | .elements _, s => SkippedIn true s
  | .members _, s => SkippedIn false s

/-- A scalar is skipped in one step. -/
theorem skipped_scalar (v : Written) (hc : isSpace c = false) (hopen : c ∉ ['[', ']', '\x7b'])
    (hskip : ∀ r, Ends r → skipScalar (c :: (t ++ r)) = .ok (some r)) : Skipped (.value v) (c :: t) :=
  ⟨1, Nat.le_add_left 1 t.length, fun _ _ _ _ r hstate ha hr => skipFuel_scalar hstate ha hc hopen (hskip r hr)⟩

theorem skipped_empty (inArray : Bool) (v : Written) (ha : IsSpaces a) :
    Skipped (.value v) (opening inArray :: (a ++ [closing inArray])) := by
  refine ⟨2, by simp, fun fuel opened state b r hstate hb _ => ?_⟩
  rw [List.cons_append, List.append_assoc]
  exact (skipFuel_open inArray hstate hb _).trans (skipFuel_close inArray List.mem_cons_self ha r)

theorem skipped_nested {inArray : Bool} (v : Written) (h : SkippedIn inArray s) :
    Skipped (.value v) (opening inArray :: (s ++ [closing inArray])) := by
  obtain ⟨k, hk, hskip⟩ := h
  refine ⟨k + 1, by simp; omega, fun fuel opened state b r hstate hb _ => ?_⟩
  rw [List.cons_append, List.append_assoc]
  exact (skipFuel_open inArray hstate hb _).trans
    (hskip fuel opened _ r (List.mem_cons_of_mem _ List.mem_cons_self))

theorem skipped_of_isText {p : Piece} (h : IsText p s) : Skipped p s := by
  induction h with
  | null => exact skipped_scalar _ rfl (by decide) fun r _ => rfl
  | bool b => cases b <;> exact skipped_scalar _ rfl (by decide) fun r _ => rfl
  | number hn =>
    obtain ⟨c, t, rfl, hc⟩ := hn.exists_cons
    have hopen : c ∉ ['[', ']', '\x7b'] := by
      simp [ne_of_numeral '[' hc rfl (by decide), ne_of_numeral ']' hc rfl (by decide),
        ne_of_numeral '\x7b' hc rfl (by decide)]
    exact skipped_scalar _ (not_isSpace_of_numeral hc) hopen fun r hr => skipScalar_number hn hr
  | @string b hb =>
    refine skipped_scalar _ rfl (by decide) fun r _ => ?_
    rw [List.append_assoc]
    exact skipScalar_string hb r
  | noElements ha => exact skipped_empty true _ ha
  | array hs ih => exact skipped_nested _ ih
  | noMembers ha => exact skipped_empty false _ ha
  | object hs ih => exact skipped_nested _ ih
  | @lastElement v a s b ha hs hb ih =>
    obtain ⟨k, hk, hskip⟩ := ih
    refine ⟨1 + k, by simp; omega, fun fuel opened state r hstate => ?_⟩
    rw [List.append_assoc, List.append_assoc, ← Nat.add_assoc,
      hskip _ _ _ _ _ hstate ha (hb.ends (by decide) r)]
    exact skipFuel_close true (by decide) hb r
  | @element v w vs a s b t ha hs hb ht ihs iht =>
    obtain ⟨k, hk, hskip⟩ := ihs
    obtain ⟨i, hi, hrest⟩ := iht
    refine ⟨i + 1 + k, by simp; omega, fun fuel opened state r hstate => ?_⟩
    rw [List.append_assoc, List.append_assoc, List.append_assoc, List.cons_append, ← Nat.add_assoc,
      hskip _ _ _ _ _ hstate ha (hb.ends (by decide) _)]
    exact (skipFuel_comma true hb _).trans (hrest fuel opened _ r (by decide))
  | @lastMember n v a b c s d ha hn hb hc hs hd ih =>
    obtain ⟨k, hk, hskip⟩ := ih
    refine ⟨1 + k + 1, by simp; omega, fun fuel opened state r hstate => ?_⟩
    simp only [List.append_assoc, List.cons_append]
    rw [← Nat.add_assoc, ← Nat.add_assoc, skipFuel_name hstate ha hn hb,
      hskip _ _ _ _ _ (by decide) hc (hd.ends (by decide) r)]
    exact skipFuel_close false (by decide) hd r
  | @member n v m ms a b c s d t ha hn hb hc hs hd ht ihs iht =>
    obtain ⟨k, hk, hskip⟩ := ihs
    obtain ⟨i, hi, hrest⟩ := iht
    refine ⟨i + 1 + k + 1, by simp; omega, fun fuel opened state r hstate => ?_⟩
    simp only [List.append_assoc, List.cons_append]
    rw [← Nat.add_assoc, ← Nat.add_assoc, skipFuel_name hstate ha hn hb,
      hskip _ _ _ _ _ (by decide) hc (hd.ends (by decide) _)]
    exact (skipFuel_comma false hd _).trans (hrest fuel opened _ r (by decide))

/-- **A value of any shape and depth is skipped to its end.** -/
theorem skipValue_text (h : IsText (.value v) s) (ha : IsSpaces a) (hr : Ends r) :
    skipValue (a ++ (s ++ r)) = .ok r := by
  obtain ⟨k, hk, hskip⟩ := skipped_of_isText h
  obtain ⟨fuel, hfuel⟩ := Nat.exists_eq_add_of_le (show k ≤ 2 * (a ++ (s ++ r)).length + 2 by simp; omega)
  rw [skipValue, hfuel, Nat.add_comm k fuel, hskip fuel [] _ a r (by decide) ha hr]
  rfl

example : skipValue " [1.5e3, \x7b\"a\": [null]\x7d] ,\"b\"".toList = .ok " ,\"b\"".toList := by decide +kernel

end RateDesk.Json
