import Mathlib.Data.List.TakeWhile
import RateDesk.Json.Reader
import RateDesk.Proofs.Outcome
import RateDesk.Proofs.Text.Numeral

/-!
# The grammar of JSON texts

* `IsBody`, `IsNumber` : strings and numbers as they are written;
* `Written` : a value with its strings and numbers as they are written, so all of its text but the white space;
* `IsText p s` : the text `s` writes the value, elements or members `p`, with any white space between its tokens;
* `readStringBody_lax`, `readString_body` : what is read of a string does not depend on what follows it;
* `readNumber_number` : a number is read to its end, with another mark for its exponent at most.
-/

namespace RateDesk.Json

open Text

/-! ## Scalars -/

def IsSpaces (s : List Char) : Prop := ∀ c ∈ s, isSpace c

/-- A character that needs no escape in a string. -/
def isClear (c : Char) : Bool := c != '"' && c != '\\' && 0x20 ≤ c.toNat

/-- What stands between the quotes of a string: characters and escapes. -/
inductive IsBody : List Char → Prop
  | nil : IsBody []
  | plain {c : Char} {s : List Char} (hc : isClear c) (hs : IsBody s) : IsBody (c :: s)
  | short {c e : Char} {s : List Char} (he : shortEscape? e = some c) (hs : IsBody s) : IsBody ('\\' :: e :: s)
  | unicode {a b c d : Char} {n : Nat} {s : List Char} (hn : hex4? a b c d = some n) (hs : IsBody s) :
      IsBody ('\\' :: 'u' :: a :: b :: c :: d :: s)

def IsDigits (s : List Char) : Prop := s ≠ [] ∧ ∀ c ∈ s, isDigit c

/-- Digits with no needless zero before them, perhaps after a minus and before a fraction. -/
inductive IsPlain : List Char → Prop
  | intro {sign whole fraction : List Char} (hsign : sign ∈ [[], ['-']]) (hwhole : IsDigits whole)
      (hzero : whole.length = 1 ∨ whole.head? ≠ some '0')
      (hfraction : fraction = [] ∨ ∃ ds, IsDigits ds ∧ fraction = '.' :: ds) : IsPlain (sign ++ (whole ++ fraction))

inductive IsNumber : List Char → Prop
  | plain {s : List Char} (hs : IsPlain s) : IsNumber s
  | scientific {s sign ds : List Char} {e : Char} (hs : IsPlain s) (he : e ∈ ['e', 'E'])
      (hsign : sign ∈ [[], ['+'], ['-']]) (hds : IsDigits ds) : IsNumber (s ++ e :: (sign ++ ds))

/-! ## Values -/

/-- A value with its strings and numbers as they are written. -/
inductive Written where
  | null
  | bool (b : Bool)
  | number (literal : List Char)
  | string (body : List Char)
  | array (elements : List Written)
  | object (members : List (List Char × Written))

/-- What a text writes: a value, the elements of an array, or the members of an object. -/
inductive Piece where
  | value (v : Written)
  | elements (vs : List Written)
  | members (ms : List (List Char × Written))

/-- The texts of values, elements and members; white space may stand around each token. -/
inductive IsText : Piece → List Char → Prop
  | null : IsText (.value .null) ['n', 'u', 'l', 'l']
  | bool (b : Bool) : IsText (.value (.bool b)) (if b then ['t', 'r', 'u', 'e'] else ['f', 'a', 'l', 's', 'e'])
  | number {n : List Char} (hn : IsNumber n) : IsText (.value (.number n)) n
  | string {b : List Char} (hb : IsBody b) : IsText (.value (.string b)) ('"' :: (b ++ ['"']))
  | noElements {a : List Char} (ha : IsSpaces a) : IsText (.value (.array [])) ('[' :: (a ++ [']']))
  | array {v : Written} {vs : List Written} {s : List Char} (hs : IsText (.elements (v :: vs)) s) :
      IsText (.value (.array (v :: vs))) ('[' :: (s ++ [']']))
  | noMembers {a : List Char} (ha : IsSpaces a) : IsText (.value (.object [])) ('\x7b' :: (a ++ ['\x7d']))
  | object {m : List Char × Written} {ms : List (List Char × Written)} {s : List Char}
      (hs : IsText (.members (m :: ms)) s) : IsText (.value (.object (m :: ms))) ('\x7b' :: (s ++ ['\x7d']))
  | lastElement {v : Written} {a s b : List Char} (ha : IsSpaces a) (hs : IsText (.value v) s) (hb : IsSpaces b) :
      IsText (.elements [v]) (a ++ (s ++ b))
  | element {v w : Written} {vs : List Written} {a s b t : List Char} (ha : IsSpaces a) (hs : IsText (.value v) s)
      (hb : IsSpaces b) (ht : IsText (.elements (w :: vs)) t) :
      IsText (.elements (v :: w :: vs)) (a ++ (s ++ (b ++ ',' :: t)))
  | lastMember {k : List Char} {v : Written} {a b c s d : List Char} (ha : IsSpaces a) (hk : IsBody k)
      (hb : IsSpaces b) (hc : IsSpaces c) (hs : IsText (.value v) s) (hd : IsSpaces d) :
      IsText (.members [(k, v)]) (a ++ '"' :: (k ++ '"' :: (b ++ ':' :: (c ++ (s ++ d)))))
  | member {k : List Char} {v : Written} {m : List Char × Written} {ms : List (List Char × Written)}
      {a b c s d t : List Char} (ha : IsSpaces a) (hk : IsBody k) (hb : IsSpaces b) (hc : IsSpaces c)
      (hs : IsText (.value v) s) (hd : IsSpaces d) (ht : IsText (.members (m :: ms)) t) :
      IsText (.members ((k, v) :: m :: ms)) (a ++ '"' :: (k ++ '"' :: (b ++ ':' :: (c ++ (s ++ (d ++ ',' :: t))))))

variable {a b s r n : List Char} {c e : Char} {v : Written}

/-! ## White space -/

theorem skipSpace_append (ha : IsSpaces a) (hc : isSpace c = false) (r : List Char) :
    skipSpace (a ++ c :: r) = c :: r := by
  rw [skipSpace, List.dropWhile_append_of_pos ha, List.dropWhile_cons_of_neg (by simp [hc])]

theorem skipSpace_cons (hc : isSpace c = false) (r : List Char) : skipSpace (c :: r) = c :: r :=
  List.dropWhile_cons_of_neg (by simp [hc])

theorem skipSpace_eq_nil (ha : IsSpaces a) : skipSpace a = [] := List.dropWhile_eq_nil_iff.2 ha

/-! ## Strings -/

theorem readStringBody_plain (strict : Bool) (hc : isClear c) (acc r : List Char) :
    readStringBody strict acc (c :: r) = readStringBody strict (c :: acc) r := by
  obtain ⟨⟨hquote, hescape⟩, hcontrol⟩ : (c ≠ '"' ∧ c ≠ '\\') ∧ 0x20 ≤ c.toNat := by simpa [isClear] using hc
  rw [readStringBody.eq_def]
  split
  · rename_i heq; cases heq
  · rename_i heq; cases heq; exact absurd rfl hquote
  · rename_i heq; cases heq; exact absurd rfl hescape
  · rename_i heq; cases heq; exact absurd rfl hescape
  · rename_i heq
    cases heq
    rw [if_neg (by simp [hescape]; omega)]

theorem readStringBody_short (strict : Bool) (he : shortEscape? e = some c) (acc r : List Char) :
    readStringBody strict acc ('\\' :: e :: r) = readStringBody strict (c :: acc) r := by
  rw [readStringBody.eq_def]
  split
  · rename_i heq; cases heq
  · rename_i heq; cases heq
  · rename_i heq
    cases heq
    cases he
  · rename_i heq
    cases heq
    simp only [he]
  · rename_i hne heq
    cases heq
    exact (hne e r rfl rfl).elim

/-- Where halves of surrogate pairs may stand alone, four hexadecimal digits are always a character. -/
theorem readStringBody_unicode {a b c d : Char} {k : Nat} {strict : Bool} (hn : hex4? a b c d = some k)
    (hk : k < 0xD800 ∨ 0xDFFF < k ∨ !strict) (acc r : List Char) :
    readStringBody strict acc ('\\' :: 'u' :: a :: b :: c :: d :: r) =
      readStringBody strict (Char.ofNat k :: acc) r := by
  rw [readStringBody, hn]
  simp only [if_pos hk]

/-- A body is read to its end where halves of surrogate pairs may stand alone. -/
theorem readStringBody_lax (hb : IsBody b) (acc : List Char) :
    ∃ t, ∀ r, readStringBody false acc (b ++ '"' :: r) = .ok (t, r) := by
  induction hb generalizing acc with
  | nil => exact ⟨acc.reverse, fun r => by rw [List.nil_append, readStringBody]⟩
  | plain hc _ ih =>
    obtain ⟨t, ht⟩ := ih (_ :: acc)
    exact ⟨t, fun r => by rw [List.cons_append, readStringBody_plain false hc, ht]⟩
  | short he _ ih =>
    obtain ⟨t, ht⟩ := ih (_ :: acc)
    exact ⟨t, fun r => by rw [List.cons_append, List.cons_append, readStringBody_short false he, ht]⟩
  | unicode hn _ ih =>
    obtain ⟨t, ht⟩ := ih (_ :: acc)
    exact ⟨t, fun r => (readStringBody_unicode hn (Or.inr (Or.inr rfl)) acc _).trans (ht r)⟩

/-- The first half of a surrogate pair needs the second one behind it. -/
theorem readStringBody_pair {a b c d a' b' c' d' : Char} {k m : Nat} (hn : hex4? a b c d = some k)
    (hk : 0xD800 ≤ k ∧ k < 0xDC00) (hm : hex4? a' b' c' d' = some m) (acc r : List Char) :
    readStringBody true acc ('\\' :: 'u' :: a :: b :: c :: d :: '\\' :: 'u' :: a' :: b' :: c' :: d' :: r) =
      if 0xDC00 ≤ m ∧ m ≤ 0xDFFF then
        readStringBody true (Char.ofNat (0x10000 + (k - 0xD800) * 0x400 + (m - 0xDC00)) :: acc) r
      else .error .malformed := by
  rw [readStringBody, hn]
  dsimp only
  rw [if_neg (by simp; omega), if_neg (by omega)]
  simp only [hm]

theorem readStringBody_half {a b c d : Char} {k : Nat} {r : List Char} (hn : hex4? a b c d = some k)
    (hk : 0xD800 ≤ k ∧ k < 0xDC00) (hr : ∀ s, r ≠ '\\' :: 'u' :: s) (acc : List Char) :
    readStringBody true acc ('\\' :: 'u' :: a :: b :: c :: d :: r) = .error .malformed := by
  rw [readStringBody, hn]
  dsimp only
  rw [if_neg (by simp; omega), if_neg (by omega)]
  split
  · exact absurd rfl (hr _)
  · rfl

theorem readStringBody_low {a b c d : Char} {k : Nat} (hn : hex4? a b c d = some k) (hlow : 0xDC00 ≤ k)
    (hhigh : k ≤ 0xDFFF) (acc r : List Char) :
    readStringBody true acc ('\\' :: 'u' :: a :: b :: c :: d :: r) = .error .malformed := by
  rw [readStringBody, hn]
  dsimp only
  rw [if_neg (by simp; omega), if_pos hlow]

/-- A body begins with a whole `\u` escape or does not begin like one, whatever stands behind its closing quote. -/
theorem IsBody.unicode_or (hb : IsBody b) :
    (∃ w x y z m s, b = '\\' :: 'u' :: w :: x :: y :: z :: s ∧ hex4? w x y z = some m ∧ IsBody s) ∨
      ∀ r s, b ++ '"' :: r ≠ '\\' :: 'u' :: s := by
  cases hb with
  | nil => exact Or.inr nofun
  | plain hc =>
    right
    intro r s heq
    obtain rfl := (List.cons.inj heq).1
    cases hc
  | short he =>
    right
    intro r s heq
    obtain rfl := (List.cons.inj (List.cons.inj heq).2).1
    cases he
  | unicode hn hs => exact Or.inl ⟨_, _, _, _, _, _, rfl, hn, hs⟩

/-- What is read of a string does not depend on what follows it. -/
theorem readStringBody_strict (hb : IsBody b) (acc r : List Char) :
    readStringBody true acc (b ++ '"' :: r) = (readStringBody true acc (b ++ ['"'])).map fun x => (x.1, r) := by
  -- by induction on the length, as a surrogate pair takes two escapes at once
  induction hlen : b.length using Nat.strongRecOn generalizing b acc with
  | _ l ih =>
    subst hlen
    cases hb with
    | nil => rfl
    | plain hc hs =>
      rw [List.cons_append, List.cons_append, readStringBody_plain true hc, readStringBody_plain true hc]
      exact ih _ (by simp only [List.length_cons]; omega) hs _ rfl
    | short he hs =>
      rw [List.cons_append, List.cons_append, List.cons_append, List.cons_append, readStringBody_short true he,
        readStringBody_short true he]
      exact ih _ (by simp only [List.length_cons]; omega) hs _ rfl
    | @unicode a b c d k s hn hs =>
      simp only [List.cons_append]
      rcases (by omega : (k < 0xD800 ∨ 0xDFFF < k) ∨ (0xDC00 ≤ k ∧ k ≤ 0xDFFF) ∨ 0xD800 ≤ k ∧ k < 0xDC00) with
        hplain | ⟨hlow, hhigh⟩ | hhalf
      · have hk : k < 0xD800 ∨ 0xDFFF < k ∨ !true := hplain.imp_right Or.inl
        rw [readStringBody_unicode hn hk, readStringBody_unicode hn hk]
        exact ih _ (by simp only [List.length_cons]; omega) hs _ rfl
      · rw [readStringBody_low hn hlow hhigh, readStringBody_low hn hlow hhigh]
        rfl
      · rcases hs.unicode_or with ⟨w, x, y, z, m, t, rfl, hm, ht⟩ | hother
        · simp only [List.cons_append]
          rw [readStringBody_pair hn hhalf hm, readStringBody_pair hn hhalf hm]
          split
          · exact ih _ (by simp only [List.length_cons]; omega) ht _ rfl
          · rfl
        · rw [readStringBody_half hn hhalf (hother r), readStringBody_half hn hhalf (hother [])]
          rfl

theorem isBody_of_clear (hs : ∀ c ∈ s, isClear c) : IsBody s := by
  induction s with
  | nil => exact .nil
  | cons c s ih => exact .plain (hs c List.mem_cons_self) (ih fun d hd => hs d (List.mem_cons_of_mem c hd))

theorem readStringBody_clear (strict : Bool) (hs : ∀ c ∈ s, isClear c) (acc r : List Char) :
    readStringBody strict acc (s ++ '"' :: r) = .ok (acc.reverse ++ s, r) := by
  induction s generalizing acc with
  | nil => rw [List.nil_append, readStringBody, List.append_nil]
  | cons c s ih =>
    obtain ⟨hc, hs⟩ := List.forall_mem_cons.1 hs
    rw [List.cons_append, readStringBody_plain strict hc, ih hs, List.reverse_cons,
      List.append_assoc, List.singleton_append]

theorem readString_body (hb : IsBody b) (r : List Char) :
    readString (b ++ '"' :: r) = (readString (b ++ ['"'])).map fun x => (x.1, r) :=
  readStringBody_strict hb [] r

/-! ## Numbers -/

/-- A text that does not carry on the digits before it. -/
def Stops (r : List Char) : Prop := ∀ c ∈ r.head?, isDigit c = false ∧ c ≠ '.'

/-- A number and what is kept of it: the mark of its exponent is an `e` with a sign. -/
inductive Kept : List Char → List Char → Prop
  | plain {s : List Char} (hs : IsPlain s) : Kept s s
  | scientific {s sign ds : List Char} {e : Char} (hs : IsPlain s) (he : e ∈ ['e', 'E'])
      (hsign : sign ∈ [[], ['+'], ['-']]) (hds : IsDigits ds) :
      Kept (s ++ e :: (sign ++ ds)) (s ++ 'e' :: sign.headD '+' :: ds)

theorem readDigits_append {ds : List Char} (hds : IsDigits ds) (hr : ∀ c ∈ r.head?, isDigit c = false) :
    readDigits (ds ++ r) = .ok (ds, r) := by
  have hrest : r.takeWhile isDigit = [] ∧ r.dropWhile isDigit = r := by
    cases r with
    | nil => exact ⟨rfl, rfl⟩
    | cons c r => simp [hr c rfl]
  rw [readDigits, List.takeWhile_append_of_pos hds.2, List.dropWhile_append_of_pos hds.2, hrest.1, hrest.2,
    List.append_nil]
  exact if_neg (by simpa using hds.1)

theorem readInteger_append {ds : List Char} (hds : IsDigits ds) (hzero : ds.length = 1 ∨ ds.head? ≠ some '0')
    (hr : ∀ c ∈ r.head?, isDigit c = false) : readInteger (ds ++ r) = .ok (ds, r) := by
  rw [readInteger, readDigits_append hds hr]
  exact if_neg (by tauto)

theorem readFraction_append {f : List Char} (hf : f = [] ∨ ∃ ds, IsDigits ds ∧ f = '.' :: ds) (hr : Stops r) :
    readFraction (f ++ r) = .ok (f, r) := by
  rcases hf with rfl | ⟨ds, hds, rfl⟩
  · cases r with
    | nil => rfl
    | cons c r =>
      rw [List.nil_append, readFraction.eq_def]
      split
      · rename_i heq
        cases heq
        exact absurd rfl (hr '.' rfl).2
      · rfl
  · rw [List.cons_append, readFraction, readDigits_append hds fun c hc => (hr c hc).1]
    rfl

theorem readExponent_of_ne (hr : ∀ c ∈ r.head?, c ∉ ['e', 'E']) : readExponent r = .ok ([], r) := by
  cases r with
  | nil => rfl
  | cons c r =>
    have hc := hr c rfl
    exact if_neg (by simpa using hc)

theorem readExponent_append {sign ds : List Char} (he : e ∈ ['e', 'E']) (hsign : sign ∈ [[], ['+'], ['-']])
    (hds : IsDigits ds) (hr : ∀ c ∈ r.head?, isDigit c = false) :
    readExponent (e :: (sign ++ ds ++ r)) = .ok ('e' :: sign.headD '+' :: ds, r) := by
  have hread : readDigits (ds ++ r) = .ok (ds, r) := readDigits_append hds hr
  rw [readExponent.eq_def]
  dsimp only
  rw [if_pos (by simpa using he)]
  simp only [List.mem_cons, List.not_mem_nil, or_false] at hsign
  rcases hsign with rfl | rfl | rfl
  · obtain ⟨d, ds, rfl⟩ := List.exists_cons_of_ne_nil hds.1
    have hd : isDigit d := hds.2 d List.mem_cons_self
    split
    · rename_i heq
      cases heq
      cases hd
    · rename_i heq
      cases heq
      cases hd
    · rw [List.nil_append, hread]
      rfl
  · simp only [List.cons_append, List.nil_append, hread, List.headD_cons]
    rfl
  · simp only [List.cons_append, List.nil_append, hread, List.headD_cons]
    rfl

def readUnsigned (sign s : List Char) : Except Error (List Char × Bool × List Char) := do
  let (whole, s) ← readInteger s
  let (fraction, s) ← readFraction s
  let (exponent, s) ← readExponent s
  return (sign ++ whole ++ fraction ++ exponent, fraction.isEmpty && exponent.isEmpty, s)

theorem readNumber_minus (s : List Char) : readNumber ('-' :: s) = readUnsigned ['-'] s := rfl

theorem readNumber_of_ne (hc : c ≠ '-') (s : List Char) : readNumber (c :: s) = readUnsigned [] (c :: s) := by
  unfold readNumber
  split
  rename_i heq
  split at heq
  · rename_i h
    cases h
    exact absurd rfl hc
  · cases heq
    rfl

theorem not_isDigit_of_mem_exponent (he : e ∈ ['e', 'E']) : isDigit e = false ∧ e ≠ '.' := by
  simp only [List.mem_cons, List.not_mem_nil, or_false] at he
  rcases he with rfl | rfl <;> decide

/-- Where a number goes on after its plain part, its exponent is read. -/
theorem readNumber_plain (hs : IsPlain s) (hr : Stops r) :
    ∃ i, readNumber (s ++ r) = (readExponent r).map fun x => (s ++ x.1, i && x.1.isEmpty, x.2) := by
  obtain @⟨sign, whole, fraction, hsign, hwhole, hzero, hfraction⟩ := hs
  have hstops : ∀ c ∈ (fraction ++ r).head?, isDigit c = false := by
    rcases hfraction with rfl | ⟨ds, -, rfl⟩
    · exact fun c hc => (hr c hc).1
    · rintro c ⟨⟩
      rfl
  have hread (sign : List Char) : readUnsigned sign (whole ++ (fraction ++ r)) =
      (readExponent r).map fun x => (sign ++ (whole ++ fraction) ++ x.1, fraction.isEmpty && x.1.isEmpty, x.2) := by
    rw [readUnsigned, readInteger_append hwhole hzero hstops]
    simp only [bind, Except.bind, readFraction_append hfraction hr]
    cases readExponent r with
    | error e => rfl
    | ok x => simp [Except.map, pure, Except.pure]
  refine ⟨fraction.isEmpty, ?_⟩
  rw [List.append_assoc, List.append_assoc, ← hread]
  rcases List.mem_pair.1 hsign with rfl | rfl
  · obtain ⟨d, ds, rfl⟩ := List.exists_cons_of_ne_nil hwhole.1
    refine readNumber_of_ne ?_ _
    rintro rfl
    cases hwhole.2 '-' List.mem_cons_self
  · exact readNumber_minus _

/-- A number is read to its end. -/
theorem readNumber_number (hn : IsNumber n) (hr : Stops r) (hexponent : ∀ c ∈ r.head?, c ∉ ['e', 'E']) :
    ∃ m i, Kept n m ∧ readNumber (n ++ r) = .ok (m, i, r) := by
  cases hn with
  | @plain s hs =>
    obtain ⟨i, hread⟩ := readNumber_plain hs hr
    rw [readExponent_of_ne hexponent] at hread
    exact ⟨_, _, .plain hs, by rw [hread, Except.map, List.append_nil]⟩
  | @scientific s sign ds e hs he hsign hds =>
    obtain ⟨i, hread⟩ := readNumber_plain (r := e :: (sign ++ ds ++ r)) hs (by
      rintro c ⟨⟩
      exact not_isDigit_of_mem_exponent he)
    rw [readExponent_append he hsign hds fun c hc => (hr c hc).1] at hread
    exact ⟨_, _, .scientific hs he hsign hds, by rw [List.append_assoc, List.cons_append, hread, Except.map]⟩

theorem IsNumber.exists_cons (hn : IsNumber n) : ∃ c t, n = c :: t ∧ (c = '-' ∨ isDigit c) := by
  have hplain {s : List Char} (hs : IsPlain s) : ∃ c t, s = c :: t ∧ (c = '-' ∨ isDigit c) := by
    obtain @⟨sign, whole, fraction, hsign, hwhole, -, -⟩ := hs
    rcases List.mem_pair.1 hsign with rfl | rfl
    · obtain ⟨d, ds, rfl⟩ := List.exists_cons_of_ne_nil hwhole.1
      exact ⟨d, _, rfl, Or.inr (hwhole.2 d List.mem_cons_self)⟩
    · exact ⟨'-', _, rfl, Or.inl rfl⟩
  cases hn with
  | plain hs => exact hplain hs
  | scientific hs =>
    obtain ⟨c, t, rfl, hc⟩ := hplain hs
    exact ⟨c, _, rfl, hc⟩

theorem ne_of_numeral (d : Char) (hc : c = '-' ∨ isDigit c) (hd : isDigit d = false) (hminus : d ≠ '-') : c ≠ d := by
  rintro rfl
  rcases hc with rfl | hc
  · exact hminus rfl
  · exact absurd hc (by simp [hd])

theorem not_isSpace_of_numeral (hc : c = '-' ∨ isDigit c) : isSpace c = false := by
  simp [isSpace, ne_of_numeral ' ' hc rfl (by decide), ne_of_numeral '\t' hc rfl (by decide),
    ne_of_numeral '\n' hc rfl (by decide), ne_of_numeral '\r' hc rfl (by decide)]

theorem Kept.isNumber (h : Kept s n) : IsNumber s ∧ IsNumber n := by
  cases h with
  | plain hs => exact ⟨.plain hs, .plain hs⟩
  | @scientific s sign ds e hs he hsign hds =>
    have hhead : [sign.headD '+'] ∈ [[], ['+'], ['-']] := by
      simp only [List.mem_cons, List.not_mem_nil, or_false] at hsign
      rcases hsign with rfl | rfl | rfl <;> decide
    exact ⟨.scientific hs he hsign hds, .scientific hs List.mem_cons_self hhead hds⟩

end RateDesk.Json
