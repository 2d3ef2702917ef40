import RateDesk.Proofs.Rest.Prices

/-!
# The members of a reported rate

* `RestRate.text?`, `RestRate.time?` : what a field becomes, by its value in writing;
* `RestRate.meaning?` : what a member is to a rate, as far as it can be used;
* `RestRate.acts` : the reader of rates does to the fields what the members mean;
* `RestRate.put_eq`, `RestRate.add_comm` : a member adds its value once, and it does not matter which one is first.
-/

namespace RateDesk.RestRate

open Json Text

variable {zone : Time.Zone} {a r s m n : List Char} {c : Char} {v : Written} {f : Fields}

/-! ## Values in writing -/

def text? : Written → Option (List Char)
  | .string b => textOf? b
  | _ => none

def time? (zone : Time.Zone) (v : Written) : Option Timestamp :=
  (text? v).bind fun t => (readTimestamp zone t).toOption

theorem readText_none (ha : IsSpaces a) (hc : isSpace c = false) (hquote : c ≠ '"') (t : List Char) :
    (readText (a ++ c :: t)).toOption = none := by
  rw [readText, skipSpace_append ha hc]
  split
  · rename_i heq
    cases heq
    exact absurd rfl hquote
  · rfl

theorem readText_toOption (h : IsText (.value v) s) (ha : IsSpaces a) (r : List Char) :
    (readText (a ++ (s ++ r))).toOption = (text? v).map fun t => (t, r) := by
  cases h with
  | null => exact readText_none ha rfl (by decide) _
  | bool b => cases b <;> exact readText_none ha rfl (by decide) _
  | number hn =>
    obtain ⟨c, t, rfl, hc⟩ := hn.exists_cons
    exact readText_none ha (not_isSpace_of_numeral hc) (ne_of_numeral '"' hc rfl (by decide)) _
  | string hb =>
    rw [readText, List.cons_append, skipSpace_append ha rfl, List.append_assoc]
    exact readString_toOption hb r
  | noElements hb => exact readText_none ha rfl (by decide) _
  | array hs => exact readText_none ha rfl (by decide) _
  | noMembers hb => exact readText_none ha rfl (by decide) _
  | object hs => exact readText_none ha rfl (by decide) _

theorem readTime_toOption (h : IsText (.value v) s) (ha : IsSpaces a) (r : List Char) :
    (readTime zone (a ++ (s ++ r))).toOption = (time? zone v).map fun t => (t, r) := by
  rw [readTime, toOption_bind, readText_toOption h ha, time?]
  cases text? v with
  | none => rfl
  | some t => cases ht : readTimestamp zone t <;> simp [ht] <;> rfl

/-! ## Values of fields -/

inductive Value where
  | name (t : List Char)
  | bid (x : Decimal)
  | ask (x : Decimal)
  | timestamp (t : Timestamp)

/-- The place of the field that a value is for. -/
def Value.place : Value → Nat
  | name _ => 0
  | bid _ => 1
  | ask _ => 2
  | timestamp _ => 3

/-- What the field at a place becomes. -/
def value? (zone : Time.Zone) (place : Nat) (v : Written) : Option Value :=
  match place with
  | 0 => (text? v).map .name
  | 1 => (price? v).map .bid
  | 2 => (price? v).map .ask
  | _ => (time? zone v).map .timestamp

namespace Fields

/-- Whether the field of a value was read before. -/
def has (f : Fields) : Value → Bool
  | .name _ => f.name.isSome
  | .bid _ => f.bid.isSome
  | .ask _ => f.ask.isSome
  | .timestamp _ => f.timestamp.isSome

def set (f : Fields) : Value → Fields
  | .name t => { f with name := some t }
  | .bid x => { f with bid := some x }
  | .ask x => { f with ask := some x }
  | .timestamp t => { f with timestamp := some t }

/-- Adds the value of a field that was not read before. -/
def add (f : Fields) (x : Value) : Option Fields := if f.has x then none else some (f.set x)

theorem has_set (f : Fields) (x y : Value) : (f.set x).has y = (f.has y || x.place == y.place) := by
  cases x <;> cases y <;> simp [set, has, Value.place]

theorem set_comm {x y : Value} (h : x.place ≠ y.place) (f : Fields) : (f.set x).set y = (f.set y).set x := by
  cases x <;> cases y <;> first | rfl | exact absurd rfl h

theorem has_congr {x y : Value} (h : x.place = y.place) (f : Fields) : f.has x = f.has y := by
  cases x <;> cases y <;> first | rfl | cases h

/-- Of two values it does not matter which one is added first. -/
theorem add_comm (f : Fields) (x y : Value) : (f.add x).bind (fun f => f.add y) = (f.add y).bind fun f => f.add x := by
  by_cases hplace : x.place = y.place
  · cases hx : f.has x <;> simp [add, has_set, ← has_congr hplace, hx, hplace]
  · cases hx : f.has x <;> cases hy : f.has y <;>
      simp [add, has_set, hx, hy, hplace, Ne.symm hplace, set_comm hplace]

end Fields

theorem readField_toOption (h : IsText (.value v) s) (ha : IsSpaces a) (hr : Ends r) (place : Nat) :
    (readField zone place f (a ++ (s ++ r))).toOption = (value? zone place v).map fun x => (f.set x, r) := by
  match place with
  | 0 =>
    rw [readField, toOption_map, readText_toOption h ha, value?, Option.map_map, Option.map_map]
    rfl
  | 1 =>
    rw [readField, toOption_map, readPrice_toOption h ha hr, value?, Option.map_map, Option.map_map]
    rfl
  | 2 =>
    rw [readField, toOption_map, readPrice_toOption h ha hr, value?, Option.map_map, Option.map_map]
    rfl
  | place + 3 =>
    rw [readField, toOption_map, readTime_toOption h ha, value?, Option.map_map, Option.map_map]
    · rfl
    all_goals omega

/-! ## Members -/

/-- What the reader of rates makes of a member's value. -/
def act (zone : Time.Zone) (name : List Char) (v : Written) (f : Fields) : Option Fields :=
  match place? name with
  | some place => (value? zone place v).map f.set
  | none => some f

theorem acts (zone : Time.Zone) : (reader zone).Acts (act zone) := by
  intro name f v s a r h ha hr
  show (match place? name with
    | some place => readField zone place f (a ++ (s ++ r))
    | none => (skipValue (a ++ (s ++ r))).map fun r => (f, r)).toOption = _
  rw [act]
  cases place? name with
  | none => rw [skipValue_text h ha hr]; rfl
  | some place => rw [readField_toOption h ha hr, Option.map_map]; rfl

/-- What a member is to a rate: the value of a field, or nothing where its name is none of theirs. -/
def meaning? (zone : Time.Zone) (m : List Char × Written) : Option (Option Value) :=
  (textOf? m.1).bind fun name =>
    match place? name with
    | some place => (value? zone place m.2).map some
    | none => some none

theorem allow_value (f : Fields) (place : Nat) (v : Written) :
    ((allow place f).toOption.bind fun _ => (value? zone place v).map f.set) = (value? zone place v).bind f.add := by
  obtain ⟨name, bid, ask, time⟩ := f
  match place with
  | 0 => cases name <;> cases h : text? v <;> simp [value?, h] <;> rfl
  | 1 => cases bid <;> cases h : price? v <;> simp [value?, h] <;> rfl
  | 2 => cases ask <;> cases h : price? v <;> simp [value?, h] <;> rfl
  | place + 3 => cases time <;> cases h : time? zone v <;> simp [value?, h] <;> rfl

theorem put_eq (f : Fields) (m : List Char × Written) :
    (reader zone).put (act zone) f m = (meaning? zone m).bind fun x => x.elim (some f) f.add := by
  rw [RecordReader.put, meaning?]
  cases textOf? m.1 with
  | none => rfl
  | some name =>
    show ((match place? name with
      | some place => allow place f
      | none => .ok ()).toOption.bind fun _ => act zone name m.2 f) = _
    rw [act, Option.bind_some]
    cases place? name with
    | none => rfl
    | some place =>
      refine (allow_value f place m.2).trans ?_
      show _ = ((value? zone place m.2).map some).bind _
      cases value? zone place m.2 <;> rfl

end RateDesk.RestRate
