import RateDesk.Feed.Line
import RateDesk.Proofs.Decimal.Text
import RateDesk.Proofs.Time.Reader

/-!
# The grammar of feed lines

* `IsStatus`, `NamesFeed`, `IsQuote` : the three forms of lines, without the reader;
* `readQuote_eq_ok` : a quote is read from a line in the form of a quote, and from no other line;
* `read_eq_status`, `read_eq_unknown`, `read_eq_quote` : each kind of message is read from the lines of one form;
* `read_classes` : the forms of all lines, and what is read from each.
-/

namespace RateDesk

open Text

variable {zone : Time.Zone} {raw line s v r name p i b a t rest label : List Char} {part : Option (List Char)}
  {x : Decimal} {time : Timestamp} {q : FeedQuote} {m : FeedMessage}

/-! ## Values between bars -/

theorem readDecimal_eq_ok : readDecimal s = .ok x ↔ Decimal.read (trim s) = .ok x := by
  unfold readDecimal
  split <;> simp [*]

theorem readTimestamp_eq_ok : readTimestamp zone s = .ok time ↔ Timestamp.read zone (trim s) = .ok time := by
  unfold readTimestamp
  split <;> simp [*]

theorem readDecimal_print (x : Decimal) : readDecimal x.print = .ok x := by
  have hblank : ∀ c ∈ x.print, ¬ isBlank c := fun c hc =>
    (Decimal.isMark_of_read (Decimal.read_print x) c hc).not_isBlank
  rw [readDecimal_eq_ok, trim_eq_self (fun c hc => hblank c (List.mem_of_head? hc))
    (fun c hc => hblank c (List.mem_of_getLast? hc)), Decimal.read_print]

theorem bar_not_mem_of_readDecimal (h : readDecimal s = .ok x) : '|' ∉ s := by
  intro hbar
  have hmark := Decimal.isMark_of_read (readDecimal_eq_ok.1 h) '|' (mem_trim (by decide) hbar)
  rcases hmark with hdigit | hmark
  · cases hdigit
  · simp at hmark

theorem bar_not_mem_of_readTimestamp (h : readTimestamp zone s = .ok time) : '|' ∉ s := by
  intro hbar
  obtain ⟨hpasses, -⟩ := Timestamp.read_spec (readTimestamp_eq_ok.1 h)
  rcases hpasses.isMark '|' (mem_trim (by decide) hbar) with hdigit | hblank | hmark
  · cases hdigit
  · revert hblank
    decide
  · simp at hmark

namespace FeedMessage

/-! ## Forms -/

def content (raw : List Char) : List Char := raw.rdropWhile isLineEnd

inductive Status where
  | success
  | info
  | error

namespace Status

/-- The word that a status line begins with. -/
def word : Status → String
  | success => "SUCCESS"
  | info => "INFO"
  | error => "ERROR"

def message (text : List Char) : Status → FeedMessage
  | success => .success text
  | info => .info text
  | error => .error text

end Status

/-- A line that begins with a status word, and the text after the word and the bars behind it. -/
def IsStatus (k : Status) (line text : List Char) : Prop :=
  ∃ n, line = k.word.toList ++ List.replicate n '|' ++ text ∧ text.head? ≠ some '|'

/-- A line that begins with no status word. -/
def IsOther (line : List Char) : Prop := ∀ k : Status, ¬ k.word.toList <+: line

/-- A line with an underscore before its first bar. -/
def NamesFeed (line : List Char) : Prop := ∃ name rest, line = name ++ '|' :: rest ∧ '|' ∉ name ∧ '_' ∈ name

/-- A line with a feed name, three labelled values, and something behind them. -/
def quoteLine (platform instrument bid ask time rest : List Char) : List Char :=
  platform ++ '_' :: instrument ++ "|B:".toList ++ bid ++ "|A:".toList ++ ask ++ "|T:".toList ++ time ++ rest

/-- A line in the form of a quote, and the quote. -/
def IsQuote (zone : Time.Zone) (line : List Char) (q : FeedQuote) : Prop :=
  ∃ b a t rest, line = quoteLine q.platform q.instrument b a t rest ∧ (rest = [] ∨ rest.head? = some '|') ∧
    q.platform ≠ [] ∧ '_' ∉ q.platform ∧ '|' ∉ q.platform ∧ q.instrument ≠ [] ∧ '|' ∉ q.instrument ∧
    readDecimal b = .ok q.bid ∧ readDecimal a = .ok q.ask ∧ readTimestamp zone t = .ok q.timestamp

variable {k k' : Status}

/-! ## Parts of a quote -/

theorem readName_eq_ok : readName name = .ok (p, i) ↔ name = p ++ '_' :: i ∧ '_' ∉ p ∧ p ≠ [] ∧ i ≠ [] := by
  rw [← and_assoc, ← cutAt_eq_some, readName]
  cases cutAt '_' name with
  | none => simp
  | some y =>
    obtain ⟨p', i'⟩ := y
    by_cases h : p' = [] ∨ i' = []
    · simp only [List.isEmpty_iff, if_pos h, reduceCtorEq, Option.some.injEq, Prod.mk.injEq, false_iff]
      rintro ⟨⟨rfl, rfl⟩, hp, hi⟩
      exact h.elim hp hi
    · simp only [List.isEmpty_iff, if_neg h, Except.ok.injEq, Option.some.injEq, Prod.mk.injEq, iff_self_and]
      rintro ⟨rfl, rfl⟩
      exact not_or.1 h

theorem readField_eq_ok : readField label line part = .ok v ↔ part = some (label ++ v) := by
  unfold readField
  cases part with
  | none => simp
  | some f =>
    simp only [Option.bind_some, Option.some.injEq, ← afterPrefix?_eq_some]
    split <;> simp [*]

/-- The fields of a line in the form of a quote. -/
theorem fields_quoteLine (hp : '|' ∉ p) (hi : '|' ∉ i) (hb : '|' ∉ b) (ha : '|' ∉ a) :
    fields '|' (quoteLine p i b a t rest) =
      (p ++ '_' :: i) :: ('B' :: ':' :: b) :: ('A' :: ':' :: a) :: fields '|' ('T' :: ':' :: (t ++ rest)) := by
  have hline : quoteLine p i b a t rest =
      (p ++ '_' :: i) ++ '|' :: (('B' :: ':' :: b) ++ '|' :: (('A' :: ':' :: a) ++ '|' :: 'T' :: ':' :: (t ++ rest))) := by
    simp [quoteLine]
  rw [hline, fields_append (by simp [hp, hi]), fields_append (by simp [hb]), fields_append (by simp [ha])]

theorem readQuote_eq_ok : readQuote zone line = .ok q ↔ IsQuote zone line q := by
  constructor
  · intro h
    obtain ⟨⟨p, i⟩, hname, h⟩ := bind_eq_ok.1 h
    obtain ⟨b, hb, h⟩ := bind_eq_ok.1 h
    obtain ⟨a, ha, h⟩ := bind_eq_ok.1 h
    split at h
    · cases h
    · rename_i t ht
      obtain ⟨bid, hbid, h⟩ := bind_eq_ok.1 h
      obtain ⟨ask, hask, h⟩ := bind_eq_ok.1 h
      obtain ⟨time, htime, h⟩ := bind_eq_ok.1 h
      cases h
      obtain ⟨hname, hp, hpne, hine⟩ := readName_eq_ok.1 hname
      rw [readField_eq_ok] at hb ha
      obtain ⟨f, hf, ht⟩ := Option.bind_eq_some_iff.1 ht
      obtain rfl := afterPrefix?_eq_some.1 ht
      obtain ⟨x, y, rfl, hx, hf₁⟩ := getElem?_fields_succ.1 hf
      obtain ⟨x₁, y₁, rfl, hx₁, hf₂⟩ := getElem?_fields_succ.1 hf₁
      obtain ⟨x₂, y₂, rfl, hx₂, hf₃⟩ := getElem?_fields_succ.1 hf₂
      rw [fields_append hx, fields_append hx₁, fields_append hx₂] at hb ha hname
      cases hb
      cases ha
      obtain rfl : x = p ++ '_' :: i := hname
      simp only [List.mem_append, List.mem_cons, not_or] at hx
      obtain ⟨-, hend⟩ := getElem?_fields_zero.1 hf₃
      have hform : ∃ rest, y₂ = ['T', ':'] ++ t ++ rest ∧ (rest = [] ∨ rest.head? = some '|') := by
        rcases hend with rfl | ⟨r, rfl⟩
        · exact ⟨[], by simp, Or.inl rfl⟩
        · exact ⟨'|' :: r, rfl, Or.inr rfl⟩
      obtain ⟨rest, rfl, hrest⟩ := hform
      exact ⟨b, a, t, rest, by simp [quoteLine], hrest, hpne, hp, hx.1, hine, hx.2.2, hbid, hask, htime⟩
  · rintro ⟨b, a, t, rest, rfl, hrest, hpne, hp, hpbar, hine, hibar, hbid, hask, htime⟩
    have hfields : fields '|' (quoteLine q.platform q.instrument b a t rest) = _ :: _ :: _ :: fields '|' _ :=
      fields_quoteLine hpbar hibar (bar_not_mem_of_readDecimal hbid) (bar_not_mem_of_readDecimal hask)
    have hlast : (fields '|' ('T' :: ':' :: (t ++ rest)))[0]? = some ('T' :: ':' :: t) := by
      refine getElem?_fields_zero.2 ⟨by simpa using bar_not_mem_of_readTimestamp htime, ?_⟩
      rcases hrest with rfl | hrest
      · exact Or.inl (by simp)
      · obtain ⟨r, rfl⟩ := List.head?_eq_some_iff.1 hrest
        exact Or.inr ⟨r, rfl⟩
    have hname := readName_eq_ok.2 ⟨rfl, hp, hpne, hine⟩
    unfold readQuote
    rw [hfields]
    simp only [List.headD_cons, hname, List.getElem?_cons_succ, List.getElem?_cons_zero, hlast, readField, afterPrefix?,
      Option.bind_some, if_true, hbid, hask, htime, bind, Except.bind, pure, Except.pure]

/-! ## Status words and feed names -/

theorem isStatus_iff : IsStatus k line v ↔ ∃ r, line = k.word.toList ++ r ∧ statusText r = v := by
  constructor
  · rintro ⟨n, rfl, hv⟩
    refine ⟨List.replicate n '|' ++ v, by simp, ?_⟩
    rw [statusText, List.dropWhile_append_of_pos (by simp)]
    cases v with
    | nil => rfl
    | cons c v => exact List.dropWhile_cons_of_neg (by simpa using hv)
  · rintro ⟨r, rfl, rfl⟩
    refine ⟨(r.takeWhile (· == '|')).length, ?_, ?_⟩
    · have hbars : r.takeWhile (· == '|') = List.replicate (r.takeWhile (· == '|')).length '|' :=
        List.eq_replicate_of_mem fun c hc => by simpa using List.mem_takeWhile_imp hc
      rw [List.append_assoc, ← hbars, statusText, List.takeWhile_append_dropWhile]
    · intro hhead
      have hbar := List.head?_dropWhile_not (· == '|') r
      rw [show (r.dropWhile (· == '|')).head? = some '|' from hhead] at hbar
      simp at hbar

theorem Status.word_unique (h : k.word.toList <+: line) (h' : k'.word.toList <+: line) : k = k' := by
  obtain ⟨r, rfl⟩ := h
  obtain ⟨r', h'⟩ := h'
  cases k <;> cases k' <;> simp [word] at h' ⊢

theorem Status.message_inj : k.message v = k'.message s ↔ k = k' ∧ v = s := by
  cases k <;> cases k' <;> simp [message]

theorem namesFeed_iff : namesFeed line = true ↔ NamesFeed line := by
  unfold namesFeed NamesFeed
  cases h : cutAt '|' line with
  | none =>
    rw [cutAt_eq_none] at h
    simp only [Bool.false_eq_true, false_iff]
    rintro ⟨name, rest, rfl, -⟩
    simp at h
  | some y =>
    simp only [List.contains_eq_mem, decide_eq_true_eq]
    constructor
    · intro hy
      obtain ⟨hline, hbar⟩ := cutAt_eq_some.1 h
      exact ⟨y.1, y.2, hline, hbar, hy⟩
    · rintro ⟨name, rest, hline, hbar, hname⟩
      rw [cutAt_eq_some.2 ⟨hline, hbar⟩] at h
      cases h
      exact hname

theorem IsQuote.namesFeed (h : IsQuote zone line q) : NamesFeed line := by
  obtain ⟨b, a, t, rest, rfl, -, -, -, hp, -, hi, -⟩ := h
  exact ⟨q.platform ++ '_' :: q.instrument, 'B' :: ':' :: b ++ "|A:".toList ++ a ++ "|T:".toList ++ t ++ rest,
    by simp [quoteLine], by simp [hp, hi], by simp⟩

/-! ## Lines -/

theorem read_of_status (h : content raw = k.word.toList ++ r) : read zone raw = .ok (k.message (statusText r)) := by
  unfold read
  rw [dropTrailing_eq, ← content, h]
  cases k <;> rfl

theorem read_of_other (h : IsOther (content raw)) :
    read zone raw = if namesFeed (content raw) then
      (readQuote zone (content raw)).map .quote else .ok (.unknown (content raw)) := by
  unfold read
  rw [dropTrailing_eq, ← content]
  have hsuccess := afterPrefix?_eq_none.2 (h .success)
  have hinfo := afterPrefix?_eq_none.2 (h .info)
  have herror := afterPrefix?_eq_none.2 (h .error)
  simp only [Status.word] at hsuccess hinfo herror
  simp only [hsuccess, hinfo, herror]

theorem isOther_or (line : List Char) : IsOther line ∨ ∃ (k : Status) (r : List Char), line = k.word.toList ++ r := by
  by_cases h : IsOther line
  · exact Or.inl h
  · simp only [IsOther, not_forall, not_not] at h
    obtain ⟨k, r, hr⟩ := h
    exact Or.inr ⟨k, r, hr.symm⟩

/-- What can be read is a status, a line without a feed name, or a quote. -/
theorem read_eq_ok : read zone raw = .ok m ↔
    (∃ k v, m = Status.message v k ∧ IsStatus k (content raw) v) ∨
    IsOther (content raw) ∧
      (¬ NamesFeed (content raw) ∧ m = .unknown (content raw) ∨
        ∃ q, m = .quote q ∧ IsQuote zone (content raw) q) := by
  rcases isOther_or (content raw) with hother | ⟨k, r, hr⟩
  · have hstatus : ∀ k v, ¬ IsStatus k (content raw) v := by
      intro k v h
      obtain ⟨r, hr, -⟩ := isStatus_iff.1 h
      exact hother k ⟨r, hr.symm⟩
    simp only [hstatus, and_false, exists_false, false_or, hother, true_and]
    rw [read_of_other hother]
    by_cases hname : NamesFeed (content raw)
    · rw [if_pos (namesFeed_iff.2 hname)]
      simp only [hname, not_true_eq_false, false_and, false_or, ← readQuote_eq_ok]
      cases readQuote zone (content raw) <;> simp [Except.map, eq_comm]
    · rw [if_neg (mt namesFeed_iff.1 hname)]
      have hquote : ∀ q, ¬ IsQuote zone (content raw) q := fun q h => hname h.namesFeed
      simp [hname, hquote, eq_comm]
  · have hword : k.word.toList <+: content raw := ⟨r, hr.symm⟩
    rw [read_of_status hr, Except.ok.injEq]
    constructor
    · rintro rfl
      exact Or.inl ⟨k, _, rfl, isStatus_iff.2 ⟨r, hr, rfl⟩⟩
    · rintro (⟨k', v, rfl, hv⟩ | ⟨hother, -⟩)
      · obtain ⟨r', hr', rfl⟩ := isStatus_iff.1 hv
        obtain rfl := Status.word_unique hword ⟨r', hr'.symm⟩
        rw [hr, List.append_cancel_left_eq] at hr'
        rw [hr']
      · exact absurd hword (hother k)

theorem read_eq_status : read zone raw = .ok (k.message v) ↔ IsStatus k (content raw) v := by
  rw [read_eq_ok]
  constructor
  · rintro (⟨k', v', heq, h⟩ | ⟨-, ⟨-, heq⟩ | ⟨q, heq, -⟩⟩)
    · obtain ⟨rfl, rfl⟩ := Status.message_inj.1 heq
      exact h
    · cases k <;> cases heq
    · cases k <;> cases heq
  · exact fun h => Or.inl ⟨k, v, rfl, h⟩

theorem read_eq_unknown : read zone raw = .ok (.unknown v) ↔
    IsOther (content raw) ∧ ¬ NamesFeed (content raw) ∧ v = content raw := by
  rw [read_eq_ok]
  constructor
  · rintro (⟨k, v', heq, -⟩ | ⟨hother, ⟨hname, heq⟩ | ⟨q, heq, -⟩⟩)
    · cases k <;> cases heq
    · cases heq
      exact ⟨hother, hname, rfl⟩
    · cases heq
  · rintro ⟨hother, hname, rfl⟩
    exact Or.inr ⟨hother, Or.inl ⟨hname, rfl⟩⟩

theorem read_eq_quote : read zone raw = .ok (.quote q) ↔
    IsOther (content raw) ∧ IsQuote zone (content raw) q := by
  rw [read_eq_ok]
  constructor
  · rintro (⟨k, v', heq, -⟩ | ⟨hother, ⟨-, heq⟩ | ⟨q', heq, h⟩⟩)
    · cases k <;> cases heq
    · cases heq
    · cases heq
      exact ⟨hother, h⟩
  · rintro ⟨hother, h⟩
    exact Or.inr ⟨hother, Or.inr ⟨q, rfl, h⟩⟩

theorem exists_error : (∃ e, read zone raw = .error e) ↔ IsOther (content raw) ∧
    NamesFeed (content raw) ∧ ∀ q, ¬ IsQuote zone (content raw) q := by
  have hok : (∃ e, read zone raw = .error e) ↔ ∀ m, read zone raw ≠ .ok m := by
    cases read zone raw <;> simp
  rw [hok]
  constructor
  · intro h
    have hother : IsOther (content raw) := by
      rcases isOther_or (content raw) with hother | ⟨k, r, hr⟩
      · exact hother
      · exact absurd (read_of_status hr) (h _)
    refine ⟨hother, ?_, fun q hq => h _ (read_eq_quote.2 ⟨hother, hq⟩)⟩
    by_contra hname
    exact h _ (read_eq_unknown.2 ⟨hother, hname, rfl⟩)
  · rintro ⟨hother, hname, hquote⟩ m h
    rcases read_eq_ok.1 h with ⟨k, v, -, hv⟩ | ⟨-, ⟨hnot, -⟩ | ⟨q, -, hq⟩⟩
    · obtain ⟨r, hr, -⟩ := isStatus_iff.1 hv
      exact hother k ⟨r, hr.symm⟩
    · exact hnot hname
    · exact hquote q hq

/-- Each kind of message is read from the lines of one form, and a line that names a feed but is neither a
status nor a quote is a protocol error. No mark of the form is left in the parts of the name. -/
theorem read_classes (zone : Time.Zone) (raw : List Char) :
    (∀ (k : Status) v, read zone raw = .ok (k.message v) ↔ IsStatus k (content raw) v) ∧
    (∀ v, read zone raw = .ok (.unknown v) ↔
      IsOther (content raw) ∧ ¬ NamesFeed (content raw) ∧ v = content raw) ∧
    (∀ q, read zone raw = .ok (.quote q) ↔
      IsOther (content raw) ∧ NamesFeed (content raw) ∧ IsQuote zone (content raw) q) ∧
    ((∃ e detail, read zone raw = .error e ∧ e.toFailure = .protocol detail) ↔
      IsOther (content raw) ∧ NamesFeed (content raw) ∧ ∀ q, ¬ IsQuote zone (content raw) q) ∧
    (∀ q, read zone raw = .ok (.quote q) → '_' ∉ q.platform ∧ '|' ∉ q.platform ∧ '|' ∉ q.instrument) := by
  refine ⟨fun k v => read_eq_status, fun v => read_eq_unknown, fun q => ?_, ?_, fun q h => ?_⟩
  · rw [read_eq_quote, and_iff_right_of_imp IsQuote.namesFeed]
  · have herror : (∃ e, read zone raw = .error e) ↔ _ := exists_error
    rw [← herror]
    constructor
    · rintro ⟨e, -, he, -⟩
      exact ⟨e, he⟩
    · rintro ⟨e, he⟩
      exact ⟨e, e.message, he, rfl⟩
  · obtain ⟨b, a, t, rest, -, -, -, hp, hpbar, -, hibar, -⟩ := (read_eq_quote.1 h).2
    exact ⟨hp, hpbar, hibar⟩

/-- The first underscore ends the platform, and fields after the third value are ignored. -/
example : ∃ q, read .utc "TCP_USD_TRY|B:34.40|A:34.50|T:2024-05-01T12:30:45Z|V:7\r\n".toList = .ok (.quote q) ∧
    q.platform = "TCP".toList ∧ q.instrument = "USD_TRY".toList := by
  refine ⟨⟨_, _, _, _, _⟩, rfl, rfl, rfl⟩

end FeedMessage

end RateDesk
