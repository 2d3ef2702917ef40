import RateDesk.Proofs.Feed.Prices
import RateDesk.Proofs.Json.Record
import RateDesk.Rest.Payload

/-!
# Prices in JSON

* `price?` : the decimal that a value in writing stands for;
* `readDecimal_kept` : it does not matter how the exponent of a number is marked;
* `textOf?_number` : a number's characters stand for themselves in a string;
* `readPrice_toOption` : a price is read from a number or a string, and from nothing else.
-/

namespace RateDesk.RestRate

open Json Text

variable {a r s m n : List Char} {c : Char} {v : Written} {fuel depth : Nat} {t : List Char} {x : Json × List Char}

def price? : Written → Option Decimal
  | .number n => (readDecimal n).toOption
  | .string b => (textOf? b).bind fun t => (readDecimal t).toOption
  | _ => none

/-! ## Number literals -/

theorem isPlainMark_of_isPlain (h : Json.IsPlain s) : ∀ c ∈ s, Decimal.IsPlainMark c := by
  obtain @⟨sign, whole, fraction, hsign, hwhole, -, hfraction⟩ := h
  refine List.forall_mem_append.2 ⟨?_, List.forall_mem_append.2 ⟨fun c hc => Or.inl (hwhole.2 c hc), ?_⟩⟩
  · rcases List.mem_pair.1 hsign with rfl | rfl
    · nofun
    · exact List.forall_mem_singleton.2 (Or.inr (by simp))
  · rcases hfraction with rfl | ⟨ds, hds, rfl⟩
    · nofun
    · exact List.forall_mem_cons.2 ⟨Or.inr (by simp), fun c hc => Or.inl (hds.2 c hc)⟩

theorem isMark_of_isNumber (h : IsNumber n) : ∀ c ∈ n, Decimal.IsMark c := by
  cases h with
  | plain hs => exact fun c hc => (isPlainMark_of_isPlain hs c hc).isMark
  | @scientific s sign ds e hs he hsign hds =>
    refine List.forall_mem_append.2 ⟨fun c hc => (isPlainMark_of_isPlain hs c hc).isMark,
      List.forall_mem_cons.2 ⟨Or.inr (List.mem_of_mem_drop (i := 4) he), List.forall_mem_append.2
        ⟨?_, fun c hc => Or.inl (hds.2 c hc)⟩⟩⟩
    simp only [List.mem_cons, List.not_mem_nil, or_false] at hsign
    rcases hsign with rfl | rfl | rfl
    · nofun
    · exact List.forall_mem_singleton.2 (Or.inr (by simp))
    · exact List.forall_mem_singleton.2 (Or.inr (by simp))

theorem readDecimal_number (h : IsNumber n) {x : Decimal} : readDecimal n = .ok x ↔ Decimal.read n = .ok x := by
  have hblank : ∀ c ∈ n, ¬ isBlank c := fun c hc => (isMark_of_isNumber h c hc).not_isBlank
  rw [readDecimal_eq_ok, trim_eq_self (fun c hc => hblank c (List.mem_of_head? hc))
    (fun c hc => hblank c (List.mem_of_getLast? hc))]

/-- A plus before the exponent does not matter. -/
theorem shiftBy_digits (x : Decimal) {ds : List Char} (hds : IsDigits ds) :
    Decimal.shiftBy x ds = Decimal.shiftBy x ('+' :: ds) := by
  obtain ⟨k, hk⟩ := exists_denotes hds.2
  have hplain := Decimal.shiftBy_of_plus x .none hk
  have hplus := Decimal.shiftBy_of_plus x .plus hk
  rw [Decimal.readExponent_digits .none hds.1 hk] at hplain
  rw [Decimal.readExponent_digits .plus hds.1 hk] at hplus
  exact hplain.trans hplus.symm

theorem read_kept (h : Kept n m) : Decimal.read n = Decimal.read m := by
  cases h with
  | plain => rfl
  | @scientific s sign ds e hs he hsign hds =>
    rw [Decimal.read_exponent (isPlainMark_of_isPlain hs) (List.mem_pair.1 he),
      Decimal.read_exponent (isPlainMark_of_isPlain hs) (Or.inl rfl)]
    simp only [List.mem_cons, List.not_mem_nil, or_false] at hsign
    rcases hsign with rfl | rfl | rfl
    · exact congrArg _ (funext fun x => shiftBy_digits x hds)
    · rfl
    · rfl

theorem readDecimal_kept (h : Kept n m) : (readDecimal n).toOption = (readDecimal m).toOption := by
  ext x
  rw [toOption_eq_some, toOption_eq_some, readDecimal_number h.isNumber.1, readDecimal_number h.isNumber.2,
    read_kept h]

theorem isClear_of_isDigit (h : isDigit c) : isClear c := by
  obtain ⟨d, hd⟩ := isDigit_iff.1 h
  unfold digit? at hd
  split at hd
  · rename_i hrange
    have hquote : c ≠ '"' := by
      rintro rfl
      cases h
    have hescape : c ≠ '\\' := by
      rintro rfl
      cases h
    simpa [isClear, hquote, hescape] using le_trans (by decide) hrange.1
  · cases hd

/-- A number's characters stand for themselves in a string. -/
theorem textOf?_number (h : IsNumber n) : textOf? n = some n := by
  refine textOf?_clear fun c hc => ?_
  rcases isMark_of_isNumber h c hc with hdigit | hmark
  · exact isClear_of_isDigit hdigit
  · simp only [List.mem_cons, List.not_mem_nil, or_false] at hmark
    rcases hmark with rfl | rfl | rfl | rfl | rfl | rfl <;> decide

/-! ## Values -/

def decimalOf? (v : Json) : Option Decimal := (decimalText v).toOption.bind fun t => (readDecimal t).toOption

theorem readPrice_eq (s : List Char) : (readPrice s).toOption =
    (readValue (maxDepth - 1) s).toOption.bind fun x => (decimalOf? x.1).map fun y => (y, x.2) := by
  rw [readPrice, toOption_bind]
  congr
  funext x
  show (decimalText x.1 >>= _).toOption = _
  rw [toOption_bind, decimalOf?]
  cases (decimalText x.1).toOption with
  | none => rfl
  | some t => cases ht : readDecimal t <;> simp [ht] <;> rfl

theorem readValueFuel_spaces (ha : IsSpaces a) (hc : isSpace c = false) (t : List Char) :
    readValueFuel (fuel + 1) depth (a ++ c :: t) = readValueFuel (fuel + 1) depth (c :: t) := by
  rw [readValueFuel.eq_def, readValueFuel.eq_def (fuel + 1) depth (c :: t)]
  dsimp only
  rw [skipSpace_append ha hc, skipSpace_cons hc]

theorem readValueFuel_number (fuel depth : Nat) (hn : IsNumber n) (hr : Ends r) :
    ∃ m, Kept n m ∧ readValueFuel (fuel + 1) depth (n ++ r) = .ok (.number m, r) := by
  obtain ⟨m, i, hkept, hread⟩ := readNumber_number hn hr.stops.1 hr.stops.2
  obtain ⟨c, t, rfl, hc⟩ := hn.exists_cons
  refine ⟨m, hkept, ?_⟩
  rw [List.cons_append] at hread ⊢
  rw [readValueFuel.eq_def]
  dsimp only
  rw [skipSpace_cons (not_isSpace_of_numeral hc)]
  split
  case h_1 =>
    rename_i heq
    cases heq
  case h_8 =>
    rename_i heq
    cases heq
    rw [if_pos hc, hread]
    rfl
  all_goals
    rename_i heq
    cases heq
    exact absurd hc (by decide)

/-- What is read from an opening mark on is an array or an object, if it can be read. -/
theorem decimalOf?_of_nested (hc : c ∈ ['[', '\x7b'])
    (h : readValueFuel (fuel + 1) depth (c :: t) = .ok x) : decimalOf? x.1 = none := by
  have hspace : isSpace c = false := by rcases List.mem_pair.1 hc with rfl | rfl <;> rfl
  rw [readValueFuel.eq_def] at h
  dsimp only at h
  rw [skipSpace_cons hspace] at h
  split at h
  case h_1 =>
    rename_i heq
    cases heq
  case h_6 | h_7 =>
    cases depth with
    | zero => cases h
    | succ depth =>
      dsimp only at h
      split at h
      · cases h
        rfl
      · obtain ⟨y, -, hy⟩ := bind_eq_ok.1 h
        cases hy
        rfl
  case h_8 =>
    rename_i hopen hopen' heq
    cases heq
    rcases List.mem_pair.1 hc with rfl | rfl
    · exact absurd rfl hopen
    · exact absurd rfl hopen'
  all_goals
    rename_i heq
    cases heq
    exact absurd hc (by decide)

theorem readPrice_cons (ha : IsSpaces a) (hc : isSpace c = false) (t : List Char) :
    (readPrice (a ++ c :: t)).toOption =
      (readValueFuel ((a ++ c :: t).length + 1) (maxDepth - 1) (c :: t)).toOption.bind fun x =>
        (decimalOf? x.1).map fun y => (y, x.2) := by
  rw [readPrice_eq, readValue, readValueFuel_spaces ha hc]

theorem readPrice_none (ha : IsSpaces a) (hc : isSpace c = false)
    (hread : ∀ fuel x, readValueFuel (fuel + 1) (maxDepth - 1) (c :: t) = .ok x → decimalOf? x.1 = none) :
    (readPrice (a ++ c :: t)).toOption = none := by
  rw [readPrice_cons ha hc, Option.bind_eq_none_iff]
  intro x hx
  rw [hread _ x (toOption_eq_some.1 hx)]
  rfl

theorem readPrice_toOption (h : IsText (.value v) s) (ha : IsSpaces a) (hr : Ends r) :
    (readPrice (a ++ (s ++ r))).toOption = (price? v).map fun x => (x, r) := by
  cases h with
  | null =>
    refine readPrice_none ha rfl fun fuel x hx => ?_
    cases hx
    rfl
  | bool b =>
    cases b <;>
    · refine readPrice_none ha rfl fun fuel x hx => ?_
      cases hx
      rfl
  | number hn =>
    obtain ⟨m, hkept, hread⟩ := readValueFuel_number (a ++ (s ++ r)).length (maxDepth - 1) hn hr
    obtain ⟨c, t, rfl, hc⟩ := hn.exists_cons
    rw [List.cons_append] at hread ⊢
    rw [readPrice_cons ha (not_isSpace_of_numeral hc), hread, price?, readDecimal_kept hkept]
    rfl
  | @string b hb =>
    rw [List.cons_append, List.append_assoc, readPrice_cons ha rfl]
    show (readString (b ++ '"' :: r) >>= fun x => Except.ok (Json.string x.1, x.2)).toOption.bind _ = _
    rw [toOption_bind, readString_toOption hb, price?]
    cases textOf? b with
    | none => rfl
    | some t => rfl
  | noElements hb => exact readPrice_none ha rfl fun _ _ => decimalOf?_of_nested (by decide)
  | array hs => exact readPrice_none ha rfl fun _ _ => decimalOf?_of_nested (by decide)
  | noMembers hb => exact readPrice_none ha rfl fun _ _ => decimalOf?_of_nested (by decide)
  | object hs => exact readPrice_none ha rfl fun _ _ => decimalOf?_of_nested (by decide)

end RateDesk.RestRate
