import RateDesk.Proofs.Rest.Members

/-!
# Rates written in another way

* `Respelled ms ms'` : the members `ms'` are `ms` in another order, with other members between them, and with prices
  as strings instead of numbers;
* `fold_respelled` : the fields that are read from them are the same;
* `respelled_read` : the rate that is read is the same, whatever white space stands between the tokens.
-/

namespace RateDesk.RestRate

open Json

def fieldNames : List (List Char) := ["name".toList, "bid".toList, "ask".toList, "timestamp".toList]

/-- Ways to write the same rate: members in another order, a member whose name is some other text, with any value,
and a bid or ask as a string of the number's characters. -/
inductive Respelled : List (List Char × Written) → List (List Char × Written) → Prop
  | reordered {ms ms' : List (List Char × Written)} (h : ms.Perm ms') : Respelled ms ms'
  | inserted {k name : List Char} {v : Written} {ms : List (List Char × Written)} (hk : textOf? k = some name)
      (hname : name ∉ fieldNames) : Respelled ms ((k, v) :: ms)
  | quoted {k n : List Char} {ms : List (List Char × Written)}
      (hk : textOf? k = some "bid".toList ∨ textOf? k = some "ask".toList) (hn : IsNumber n) :
      Respelled ((k, .number n) :: ms) ((k, .string n) :: ms)
  | trans {ms ms' ms'' : List (List Char × Written)} (h : Respelled ms ms') (h' : Respelled ms' ms'') :
      Respelled ms ms''

variable {zone : Time.Zone} {ms ms' : List (List Char × Written)} {k n s s' name : List Char} {v : Written}

theorem put_comm (f : Fields) (m m' : List Char × Written) :
    ((reader zone).put (act zone) f m).bind (fun f => (reader zone).put (act zone) f m') =
      ((reader zone).put (act zone) f m').bind fun f => (reader zone).put (act zone) f m := by
  simp only [put_eq]
  cases meaning? zone m with
  | none => cases meaning? zone m' <;> simp
  | some x =>
    cases meaning? zone m' with
    | none => simp
    | some y => cases x <;> cases y <;> simp [f.add_comm]

theorem place?_eq_none (h : name ∉ fieldNames) : place? name = none := by
  simp only [fieldNames, List.mem_cons, List.not_mem_nil, or_false, not_or] at h
  rw [place?, if_neg h.1, if_neg h.2.1, if_neg h.2.2.1, if_neg h.2.2.2]

theorem meaning?_inserted (hk : textOf? k = some name) (hname : name ∉ fieldNames) (v : Written) :
    meaning? zone (k, v) = some none := by
  rw [meaning?, hk, Option.bind_some, place?_eq_none hname]

theorem price?_quoted (hn : IsNumber n) : price? (.string n) = price? (.number n) := by
  rw [price?, price?, textOf?_number hn, Option.bind_some]

theorem meaning?_quoted (hk : textOf? k = some "bid".toList ∨ textOf? k = some "ask".toList) (hn : IsNumber n) :
    meaning? zone (k, .string n) = meaning? zone (k, .number n) := by
  rcases hk with hk | hk
  · rw [meaning?, meaning?, hk, Option.bind_some, Option.bind_some]
    show ((price? (.string n)).map Value.bid).map some = ((price? (.number n)).map Value.bid).map some
    rw [price?_quoted hn]
  · rw [meaning?, meaning?, hk, Option.bind_some, Option.bind_some]
    show ((price? (.string n)).map Value.ask).map some = ((price? (.number n)).map Value.ask).map some
    rw [price?_quoted hn]

theorem fold_respelled (h : Respelled ms ms') (f : Fields) :
    (reader zone).fold (act zone) ms f = (reader zone).fold (act zone) ms' f := by
  induction h generalizing f with
  | reordered h => exact RecordReader.fold_perm h put_comm f
  | @inserted k name v ms hk hname =>
    rw [RecordReader.fold_cons, put_eq, meaning?_inserted hk hname]
    rfl
  | @quoted k n ms hk hn => rw [RecordReader.fold_cons, RecordReader.fold_cons, put_eq, put_eq, meaning?_quoted hk hn]
  | trans _ _ ih ih' => exact (ih f).trans (ih' f)

/-- **The same rate is read however it is written.** From an object with its members in another order, with more
members of other names, with a price as a string instead of a number, and with any white space between its tokens, a
rate is read if and only if it is read from the object itself. -/
theorem respelled_read (zone : Time.Zone) (hms : Respelled ms ms') (hs : IsObject ms s) (hs' : IsObject ms' s')
    (x : RestRate) : (reader zone).readAll s = .ok x ↔ (reader zone).readAll s' = .ok x := by
  rw [← toOption_eq_some, ← toOption_eq_some, RecordReader.readAll_object (acts zone) hs,
    RecordReader.readAll_object (acts zone) hs', fold_respelled hms]

/-! ## A rate in two spellings -/

/-- The members of a rate, of which the bid is a number. -/
def sample : List (List Char × Written) :=
  [("name".toList, .string "A".toList), ("bid".toList, .number "1.5".toList), ("ask".toList, .string "2".toList),
    ("timestamp".toList, .string "2024-05-01T12:30:45Z".toList)]

/-- The same rate, with the bid as a string before the name and with another member. -/
def respelledSample : List (List Char × Written) :=
  [("venue".toList, .array [.null]), ("bid".toList, .string "1.5".toList), ("name".toList, .string "A".toList),
    ("ask".toList, .string "2".toList), ("timestamp".toList, .string "2024-05-01T12:30:45Z".toList)]

def respelledText : List Char :=
  ("\x7b\"venue\": [null],\"bid\": \"1.5\",\"name\":\"A\",\"ask\":\"2\"," ++
    "\"timestamp\":\"2024-05-01T12:30:45Z\"\x7d\n").toList

theorem isNumber_sample : IsNumber "1.5".toList := by
  have hfraction : IsDigits ['5'] := ⟨by decide, List.forall_mem_singleton.2 rfl⟩
  exact .plain (@IsPlain.intro [] ['1'] ['.', '5'] (by decide) ⟨by decide, List.forall_mem_singleton.2 rfl⟩ (Or.inl rfl)
    (Or.inr ⟨['5'], hfraction, rfl⟩))

theorem respelled_sample : Respelled sample respelledSample := by
  have hbid : textOf? "bid".toList = some "bid".toList := by decide +kernel
  have hvenue : textOf? "venue".toList = some "venue".toList := by decide +kernel
  refine .trans (.reordered (.swap _ _ _)) (.trans (.quoted (Or.inl hbid) isNumber_sample) (.inserted hvenue ?_))
  decide

theorem isBody_of_all (h : s.all isClear = true) : IsBody s := isBody_of_clear (List.all_eq_true.1 h)

theorem isText_string (h : s.all isClear = true) : IsText (.value (.string s)) ('"' :: (s ++ ['"'])) :=
  .string (isBody_of_all h)

/-- A member with no white space but behind its colon. -/
theorem isText_member {m : List Char × Written} {a t : List Char} (hk : k.all isClear = true)
    (ha : a.all isSpace = true) (hs : IsText (.value v) s) (ht : IsText (.members (m :: ms)) t) :
    IsText (.members ((k, v) :: m :: ms)) ('"' :: (k ++ '"' :: ':' :: (a ++ (s ++ ',' :: t)))) :=
  .member (a := []) (b := []) (d := []) nofun (isBody_of_all hk) nofun (List.all_eq_true.1 ha) hs nofun ht

theorem isText_timestamp : IsText (.members [("timestamp".toList, .string "2024-05-01T12:30:45Z".toList)])
    "\"timestamp\":\"2024-05-01T12:30:45Z\"".toList := by
  have hname : IsBody "timestamp".toList := isBody_of_all (by decide)
  have hvalue : IsText (.value (.string "2024-05-01T12:30:45Z".toList)) _ := isText_string (by decide)
  exact .lastMember (a := []) (b := []) (c := []) (d := []) nofun hname nofun nofun hvalue nofun

theorem isObject_sample : IsObject sample
    "\x7b\"name\":\"A\",\"bid\":1.5,\"ask\":\"2\",\"timestamp\":\"2024-05-01T12:30:45Z\"\x7d".toList :=
  ⟨[], _, [], nofun, .object (isText_member (a := []) (by decide) rfl (isText_string (by decide))
    (isText_member (a := []) (by decide) rfl (.number isNumber_sample)
      (isText_member (a := []) (by decide) rfl (isText_string (by decide)) isText_timestamp))), nofun, by decide +kernel⟩

theorem isObject_respelledSample : IsObject respelledSample respelledText := by
  have hnull : IsText (.value (.array [.null])) ('[' :: (([] ++ (['n', 'u', 'l', 'l'] ++ [])) ++ [']'])) :=
    .array (.lastElement nofun .null nofun)
  have hask : IsText (.members [("ask".toList, .string "2".toList), _]) _ :=
    isText_member (a := []) (by decide) rfl (isText_string (by decide)) isText_timestamp
  exact ⟨[], _, ['\n'], nofun, .object (isText_member (a := [' ']) (by decide) rfl hnull
    (isText_member (a := [' ']) (by decide) rfl (isText_string (by decide))
      (isText_member (a := []) (by decide) rfl (isText_string (by decide)) hask))),
    List.forall_mem_singleton.2 rfl, by decide +kernel⟩

theorem respelled_read_sample :
    Respelled sample respelledSample ∧
    (reader .utc).readAll respelledText =
      .ok ⟨"A".toList, ⟨15, 1, by decide, by decide⟩, ⟨2, 0, by decide, by decide⟩, ⟨1714566645, 0⟩⟩ :=
  ⟨respelled_sample,
    (respelled_read .utc respelled_sample isObject_sample isObject_respelledSample _).1 (by decide +kernel)⟩

end RateDesk.RestRate
