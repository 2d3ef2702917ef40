import RateDesk.Proofs.Json.Skip

/-!
# Objects read as records

* `IsObject ms s` : the text `s` is an object with the members `ms`, and nothing else;
* `textOf? b` : the text that a string's body stands for;
* `RecordReader.Acts reader act` : a member's value does to the fields read so far what `act` says;
* `RecordReader.put`, `RecordReader.fold` : what a member and what all of them do to the fields;
* `RecordReader.readAll_object` : a text is read as its members say, one after the other.
-/

namespace RateDesk.Json

/-- A text that is an object with the given members, and nothing else. -/
def IsObject (ms : List (List Char × Written)) (s : List Char) : Prop :=
  ∃ a t b, IsSpaces a ∧ IsText (.value (.object ms)) t ∧ IsSpaces b ∧ s = a ++ (t ++ b)

/-- The text that the body of a string stands for. -/
def textOf? (b : List Char) : Option (List Char) := (readString (b ++ ['"'])).toOption.map Prod.fst

variable {a b k s t r n : List Char} {v : Written} {ms : List (List Char × Written)} {first : Bool}

theorem readString_toOption (hb : IsBody b) (r : List Char) :
    (readString (b ++ '"' :: r)).toOption = (textOf? b).map fun t => (t, r) := by
  rw [readString_body hb, textOf?]
  cases readString (b ++ ['"']) <;> rfl

/-- Characters that need no escape stand for themselves. -/
theorem textOf?_clear (hs : ∀ c ∈ s, isClear c) : textOf? s = some s := by
  rw [textOf?, readString, readStringBody_clear true hs]
  rfl

/-- White space before a member, after the comma that is between two of them. -/
inductive Lead : Bool → List Char → Prop
  | first {a : List Char} (ha : IsSpaces a) : Lead true a
  | next {a b : List Char} (hb : IsSpaces b) (ha : IsSpaces a) : Lead false (b ++ ',' :: a)

theorem Lead.append (ha : Lead first a) (hb : IsSpaces b) : Lead first (a ++ b) := by
  cases ha with
  | first ha => exact .first (List.forall_mem_append.2 ⟨ha, hb⟩)
  | next hd ha =>
    rw [List.append_assoc, List.cons_append]
    exact .next hd (List.forall_mem_append.2 ⟨ha, hb⟩)

namespace RecordReader

variable {σ α : Type} {reader : RecordReader σ α} {act : List Char → Written → σ → Option σ} {fuel : Nat}
  {state : σ}

/-! ## One member -/

/-- Reads the value of a member after its name, and the members that follow. -/
def readNamed (reader : RecordReader σ α) (fuel : Nat) (name : List Char) (state : σ) (s : List Char) :
    Except Error (σ × List Char) :=
  match skipSpace s with
  | ':' :: r => do
    let (state, r) ← reader.member name state r
    reader.readMembers fuel false state r
  | _ => .error .malformed

def readMember (reader : RecordReader σ α) (fuel : Nat) (state : σ) : List Char → Except Error (σ × List Char)
  | '"' :: s => do
    let (name, r) ← readString s
    reader.allow name state
    reader.readNamed fuel name state r
  | _ => .error .malformed

theorem readMembers_lead (ha : Lead first a) (s : List Char) :
    reader.readMembers (fuel + 1) first state (a ++ '"' :: s) = reader.readMember fuel state ('"' :: s) := by
  have hquote : isSpace '"' = false := rfl
  rw [readMembers]
  cases ha with
  | first ha =>
    rw [skipSpace_append ha hquote]
    rfl
  | @next a _ hb ha =>
    rw [List.append_assoc, List.cons_append, skipSpace_append hb rfl]
    show reader.readMember fuel state (skipSpace (a ++ '"' :: s)) = _
    rw [skipSpace_append ha hquote]

theorem readMembers_end (ha : IsSpaces a) (r : List Char) :
    reader.readMembers (fuel + 1) first state (a ++ '\x7d' :: r) = .ok (state, r) := by
  rw [readMembers, skipSpace_append ha rfl]
  rfl

/-- What a reader makes of the value of a member. -/
def Acts (reader : RecordReader σ α) (act : List Char → Written → σ → Option σ) : Prop :=
  ∀ name state v s a r, IsText (.value v) s → IsSpaces a → Ends r →
    (reader.member name state (a ++ (s ++ r))).toOption = (act name v state).map fun state => (state, r)

/-- The fields after a member, if its name is allowed and its value can be used. -/
def put (reader : RecordReader σ α) (act : List Char → Written → σ → Option σ) (state : σ) (m : List Char × Written) :
    Option σ := do
  let name ← textOf? m.1
  (reader.allow name state).toOption
  act name m.2 state

theorem readNamed_toOption (hact : reader.Acts act) (hb : IsSpaces b) (ha : IsSpaces a) (hs : IsText (.value v) s)
    (hr : Ends r) : (reader.readNamed fuel n state (b ++ ':' :: (a ++ (s ++ r)))).toOption =
      (act n v state).bind fun state => (reader.readMembers fuel false state r).toOption := by
  rw [readNamed, skipSpace_append hb rfl]
  show (reader.member n state (a ++ (s ++ r)) >>= _).toOption = _
  rw [toOption_bind, hact n state v s a r hs ha hr]
  cases act n v state <;> rfl

theorem readMember_toOption (hact : reader.Acts act) (hk : IsBody k) (hb : IsSpaces b) (ha : IsSpaces a)
    (hs : IsText (.value v) s) (hr : Ends r) :
    (reader.readMember fuel state ('"' :: (k ++ '"' :: (b ++ ':' :: (a ++ (s ++ r)))))).toOption =
      (reader.put act state (k, v)).bind fun state => (reader.readMembers fuel false state r).toOption := by
  rw [readMember, toOption_bind, readString_toOption hk, put]
  cases textOf? k with
  | none => rfl
  | some name =>
    show (reader.allow name state >>= _).toOption = ((reader.allow name state).toOption.bind _).bind _
    cases reader.allow name state with
    | error e => rfl
    | ok _ => exact readNamed_toOption hact hb ha hs hr

/-! ## All members -/

/-- What all members make of the fields, one after the other. -/
def fold (reader : RecordReader σ α) (act : List Char → Written → σ → Option σ) (ms : List (List Char × Written))
    (state : σ) : Option σ := ms.foldlM (reader.put act) state

theorem fold_cons (m : List Char × Written) (ms : List (List Char × Written)) :
    reader.fold act (m :: ms) state = (reader.put act state m).bind (reader.fold act ms) := List.foldlM_cons

/-- Where of two members it does not matter which one is first, members may stand in any order. -/
theorem fold_perm {ms' : List (List Char × Written)} (h : ms.Perm ms')
    (hcomm : ∀ state m m', (reader.put act state m).bind (fun state => reader.put act state m') =
      (reader.put act state m').bind fun state => reader.put act state m) (state : σ) :
    reader.fold act ms state = reader.fold act ms' state := by
  induction h generalizing state with
  | nil => rfl
  | cons m _ ih => rw [fold_cons, fold_cons, funext ih]
  | swap m m' ms =>
    simp only [fold_cons]
    rw [← Option.bind_assoc, ← Option.bind_assoc, hcomm]
  | trans _ _ ih₁ ih₂ => exact (ih₁ state).trans (ih₂ state)

theorem readMembers_toOption (hact : reader.Acts act) (hs : IsText (.members ms) s) (ha : Lead first a)
    (hfuel : s.length < fuel) (r : List Char) :
    (reader.readMembers fuel first state (a ++ (s ++ '\x7d' :: r))).toOption =
      (reader.fold act ms state).map fun state => (state, r) := by
  induction ms generalizing s a first state fuel with
  | nil => cases hs
  | cons m ms ih =>
    obtain ⟨fuel, rfl⟩ := Nat.exists_eq_add_one_of_ne_zero (Nat.ne_zero_of_lt hfuel)
    cases hs with
    | @lastMember k v a' b c s d ha' hk hb hc hs hd =>
      simp only [List.length_append, List.length_cons] at hfuel
      obtain ⟨fuel, rfl⟩ : ∃ i, fuel = i + 1 := Nat.exists_eq_add_one_of_ne_zero (by omega)
      simp only [List.append_assoc, List.cons_append]
      rw [← List.append_assoc, readMembers_lead (ha.append ha'),
        readMember_toOption hact hk hb hc hs (hd.ends (by decide) r), fold_cons]
      cases reader.put act state (k, v) with
      | none => rfl
      | some state => exact congrArg Except.toOption (readMembers_end hd r)
    | @member k v m ms a' b c s d t ha' hk hb hc hs hd ht =>
      simp only [List.length_append, List.length_cons] at hfuel
      simp only [List.append_assoc, List.cons_append]
      rw [← List.append_assoc, readMembers_lead (ha.append ha'),
        readMember_toOption hact hk hb hc hs (hd.ends (by decide) _), fold_cons]
      cases reader.put act state (k, v) with
      | none => rfl
      | some state =>
        have hlead : Lead false (d ++ [',']) := .next hd nofun
        have hrest : (reader.readMembers fuel false state ((d ++ [',']) ++ (t ++ '\x7d' :: r))).toOption =
            (reader.fold act (m :: ms) state).map fun state => (state, r) := ih ht hlead (by omega)
        rw [List.append_assoc] at hrest
        exact hrest

/-! ## The whole text -/

theorem read_toOption {result : Option σ} (ha : IsSpaces a)
    (hread : (reader.readMembers (s.length + 1) true reader.start s).toOption = result.map fun state => (state, r)) :
    (reader.read (a ++ '\x7b' :: s)).toOption =
      (result.bind fun state => (reader.finish state).toOption).map fun x => (x, r) := by
  rw [read, skipSpace_append ha rfl]
  show (reader.readMembers (s.length + 1) true reader.start s >>= _).toOption = _
  rw [toOption_bind, hread]
  cases result with
  | none => rfl
  | some state =>
    show (reader.finish state >>= _).toOption = _
    rw [toOption_bind, Option.bind_some]
    cases reader.finish state <;> rfl

/-- **An object is read as its members say, one after the other.** -/
theorem readAll_object (hact : reader.Acts act) (hs : IsObject ms s) :
    (reader.readAll s).toOption =
      (reader.fold act ms reader.start).bind fun state => (reader.finish state).toOption := by
  obtain ⟨a, t, b, ha, ht, hb, rfl⟩ := hs
  have hread : (reader.read (a ++ (t ++ b))).toOption = ((reader.fold act ms reader.start).bind
      fun state => (reader.finish state).toOption).map fun x => (x, b) := by
    cases ht with
    | noMembers hc =>
      rw [List.cons_append, List.append_assoc]
      exact read_toOption ha (congrArg Except.toOption (readMembers_end hc b))
    | object hs =>
      have hlead : Lead true [] := .first nofun
      rw [List.cons_append, List.append_assoc]
      exact read_toOption ha (readMembers_toOption hact hs hlead (by simp only [List.length_append]; omega) b)
  rw [readAll, toOption_bind, hread]
  cases (reader.fold act ms reader.start).bind fun state => (reader.finish state).toOption with
  | none => rfl
  | some x =>
    show (if (skipSpace b).isEmpty then _ else _ : Except Error α).toOption = _
    rw [skipSpace_eq_nil hb]
    rfl

end RecordReader

end RateDesk.Json
