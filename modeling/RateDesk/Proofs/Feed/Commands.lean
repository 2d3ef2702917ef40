import RateDesk.Feed.Command
import RateDesk.Proofs.Text.Cut
import RateDesk.Proofs.Text.Utf8
import RateDesk.Venue.Wire

/-!
# Commands as a venue reads them

* `Wire.splitLines` : the lines of a stream of bytes, each with a carriage return and a line feed at its end;
* `splitLines_append` : a line end ends a line whatever comes before and after it;
* `FeedCommand.read?`, `readCommands` : the command in a line, and the commands in a stream;
* `FeedCommand.Legible` : the texts of a command keep clear of the marks that set them apart;
* `read?_content`, `readCommands_eq_iff` : these are the commands that are read back, one by one and in a stream.
-/

namespace RateDesk

open Text

/-! ## Lines -/

namespace Wire

variable {a b r : List UInt8} {x : UInt8}

/-- A byte in front of the first line, or of what follows the last line if there is none. -/
def consFirst (x : UInt8) : List (List UInt8) × List UInt8 → List (List UInt8) × List UInt8
  | ([], rest) => ([], x :: rest)
  | (l :: ls, rest) => ((x :: l) :: ls, rest)

/-- The lines that end with a carriage return and a line feed, without these, and what follows the last of them. -/
def splitLines : List UInt8 → List (List UInt8) × List UInt8
  | [] => ([], [])
  | [x] => ([], [x])
  | x :: y :: r =>
    if x = 13 ∧ y = 10 then ([] :: (splitLines r).1, (splitLines r).2) else consFirst x (splitLines (y :: r))

theorem splitLines_lineEnd (r : List UInt8) : splitLines (13 :: 10 :: r) = ([] :: (splitLines r).1, (splitLines r).2) := by
  rw [splitLines, if_pos ⟨rfl, rfl⟩]

theorem splitLines_cons {y : UInt8} (h : ¬ (x = 13 ∧ y = 10)) (r : List UInt8) :
    splitLines (x :: y :: r) = consFirst x (splitLines (y :: r)) := by
  rw [splitLines, if_neg h]

theorem consFirst_append {ls ms : List (List UInt8)} {rest rest' : List UInt8} (h : ls ≠ []) :
    (consFirst x (ls, rest)).1 ≠ [] ∧
      consFirst x (ls ++ ms, rest') = ((consFirst x (ls, rest)).1 ++ ms, rest') := by
  cases ls with
  | nil => exact absurd rfl h
  | cons l ls => exact ⟨List.cons_ne_nil _ _, rfl⟩

/-- Some bytes and a line end make one line or more, and what follows is split by itself. -/
theorem splitLines_append (a r : List UInt8) :
    (splitLines (a ++ [13, 10])).1 ≠ [] ∧
      splitLines (a ++ 13 :: 10 :: r) = ((splitLines (a ++ [13, 10])).1 ++ (splitLines r).1, (splitLines r).2) := by
  induction a using splitLines.induct with
  | case1 =>
    rw [List.nil_append, List.nil_append, splitLines_lineEnd, splitLines_lineEnd]
    exact ⟨List.cons_ne_nil _ _, rfl⟩
  | case2 x =>
    have hx : ¬ (x = 13 ∧ (13 : UInt8) = 10) := fun h => absurd h.2 (by decide)
    rw [List.cons_append, List.nil_append, List.cons_append, List.nil_append, splitLines_cons hx, splitLines_cons hx,
      splitLines_lineEnd, splitLines_lineEnd]
    exact consFirst_append (List.cons_ne_nil [] [])
  | case3 x y a h ih =>
    obtain ⟨rfl, rfl⟩ := h
    rw [List.cons_append, List.cons_append, List.cons_append, List.cons_append, splitLines_lineEnd, splitLines_lineEnd,
      ih.2]
    exact ⟨List.cons_ne_nil _ _, rfl⟩
  | case4 x y a h ih =>
    rw [List.cons_append, List.cons_append, splitLines_cons h, List.cons_append, List.cons_append, splitLines_cons h,
      ← List.cons_append, ← List.cons_append, ih.2]
    exact consFirst_append ih.1

/-- Bytes that hold no line end make one line with the line end behind them. -/
theorem splitLines_clear (h : ¬ [13, 10] <:+: a) : (splitLines (a ++ [13, 10])).1 = [a] := by
  induction a using splitLines.induct with
  | case1 => rfl
  | case2 x =>
    rw [List.cons_append, List.nil_append, splitLines_cons fun h => absurd h.2 (by decide)]
    rfl
  | case3 x y a hxy => exact absurd ⟨[], a, by rw [hxy.1, hxy.2]; rfl⟩ h
  | case4 x y a hxy ih =>
    have hrest := ih fun hends => h (hends.trans (List.suffix_cons x _).isInfix)
    rw [List.cons_append] at hrest
    rw [List.cons_append, List.cons_append, splitLines_cons hxy]
    cases hsplit : splitLines (y :: (a ++ [13, 10])) with
    | mk ls rest =>
      rw [hsplit] at hrest
      obtain rfl : ls = [y :: a] := hrest
      rfl

/-- Bytes that hold a line end make more than one line. -/
theorem splitLines_broken (h : [13, 10] <:+: a) : 1 < (splitLines (a ++ [13, 10])).1.length := by
  obtain ⟨b, c, rfl⟩ := h
  obtain ⟨hb, hsplit⟩ := splitLines_append b (c ++ [13, 10])
  obtain ⟨hc, -⟩ := splitLines_append c []
  have hlines : b ++ [13, 10] ++ c ++ [13, 10] = b ++ 13 :: 10 :: (c ++ [13, 10]) := by simp
  rw [hlines, hsplit, List.length_append]
  have hb := List.length_pos_iff.2 hb
  have hc := List.length_pos_iff.2 hc
  omega

end Wire

/-! ## Commands -/

/-- What a command asks for. -/
inductive FeedVerb where
  | connect
  | disconnect
  | subscribe
  | unsubscribe
deriving DecidableEq, Repr

namespace FeedVerb

def word : FeedVerb → String
  | connect => "connect"
  | disconnect => "disconnect"
  | subscribe => "subscribe"
  | unsubscribe => "unsubscribe"

def mark : FeedVerb → Char
  | connect | disconnect => '|'
  | subscribe | unsubscribe => '_'

def command : FeedVerb → String → String → FeedCommand
  | connect => .connect
  | disconnect => .disconnect
  | subscribe => .subscribe
  | unsubscribe => .unsubscribe

def ofWord? (word : List Char) : Option FeedVerb :=
  [connect, disconnect, subscribe, unsubscribe].find? fun k => k.word.toList = word

theorem ofWord?_word (k : FeedVerb) : ofWord? k.word.toList = some k := by
  cases k <;> decide

theorem bar_not_mem_word (k : FeedVerb) : '|' ∉ k.word.toList := by
  cases k <;> decide

theorem word_clear (k : FeedVerb) : ¬ ['\r', '\n'] <:+: k.word.toList := by
  cases k <;> decide

theorem mark_ne (k : FeedVerb) : k.mark ≠ '\r' ∧ k.mark ≠ '\n' := by
  cases k <;> decide

end FeedVerb

namespace FeedCommand

variable {c : FeedCommand} {cs : List FeedCommand}

def verb : FeedCommand → FeedVerb
  | connect .. => .connect
  | disconnect .. => .disconnect
  | subscribe .. => .subscribe
  | unsubscribe .. => .unsubscribe

/-- The text before the mark. -/
def first : FeedCommand → String
  | connect a _ | disconnect a _ | subscribe a _ | unsubscribe a _ => a

/-- The text after the mark. -/
def second : FeedCommand → String
  | connect _ b | disconnect _ b | subscribe _ b | unsubscribe _ b => b

theorem command_verb (c : FeedCommand) : c.verb.command c.first c.second = c := by
  cases c <;> rfl

theorem first_command (k : FeedVerb) (a b : String) : (k.command a b).first = a := by
  cases k <;> rfl

/-- The command in a line: the verb before the first bar, and the texts before and after the first mark behind it. -/
def read? (line : List UInt8) : Option FeedCommand := do
  let (word, texts) ← cutAt '|' (← Wire.lineText? line)
  let k ← FeedVerb.ofWord? word
  let (a, b) ← cutAt k.mark texts
  return k.command (String.ofList a) (String.ofList b)

/-- The commands in a stream of bytes, one for every line; `none` stands for a line that holds no command. -/
def readCommands (bytes : List UInt8) : List (Option FeedCommand) := (Wire.splitLines bytes).1.map read?

/-! ## Lines of commands -/

def content (c : FeedCommand) : List Char :=
  c.verb.word.toList ++ '|' :: (c.first.toList ++ c.verb.mark :: c.second.toList)

theorem toList_line (c : FeedCommand) : c.line.toList = c.content ++ ['\r', '\n'] := by
  unfold line
  cases c <;> simp [content, verb, first, second, FeedVerb.word, FeedVerb.mark]

def bytes (c : FeedCommand) : List UInt8 := c.line.toUTF8.toList

theorem bytes_eq (c : FeedCommand) : c.bytes = encoded c.content ++ [13, 10] := by
  rw [bytes, toUTF8_eq_encoded, toList_line, encoded_append]
  rfl

/-- A text holds a line end. -/
def BreaksLine (t : String) : Prop := ['\r', '\n'] <:+: t.toList

instance (t : String) : Decidable (BreaksLine t) := inferInstanceAs (Decidable (_ <:+: _))

/-- The texts of a command keep clear of the marks that set them apart. -/
structure Legible (c : FeedCommand) : Prop where
  mark : c.verb.mark ∉ c.first.toList
  first : ¬ BreaksLine c.first
  second : ¬ BreaksLine c.second

instance (c : FeedCommand) : Decidable c.Legible :=
  decidable_of_iff (_ ∧ _ ∧ _) ⟨fun h => ⟨h.1, h.2.1, h.2.2⟩, fun h => ⟨h.mark, h.first, h.second⟩⟩

/-- A mark that is not part of a line end keeps line ends on either side of it. -/
theorem lineEnd_infix_append {a b : List Char} {m : Char} (hr : m ≠ '\r') (hn : m ≠ '\n') :
    ['\r', '\n'] <:+: a ++ m :: b ↔ ['\r', '\n'] <:+: a ∨ ['\r', '\n'] <:+: b := by
  constructor
  · intro h
    rw [List.infix_append_iff] at h
    obtain h | h | ⟨x, y, hxy, hx, hy⟩ := h
    · exact Or.inl h
    · rw [List.infix_cons_iff, List.cons_prefix_cons] at h
      exact Or.inr (h.resolve_left fun h => hr h.1.symm)
    · cases y with
      | nil =>
        rw [List.append_nil] at hxy
        exact Or.inl (hxy ▸ hx.isInfix)
      | cons d y =>
        have hd : d = m := (List.cons_prefix_cons.1 hy).1
        have hmem : m ∈ ['\r', '\n'] := by
          rw [hxy, ← hd]
          simp
        simp [hr, hn] at hmem
  · rintro (h | h)
    · exact h.trans (List.infix_append' [] a _)
    · exact h.trans ⟨a ++ [m], [], by simp⟩

theorem content_breaks : ['\r', '\n'] <:+: c.content ↔ BreaksLine c.first ∨ BreaksLine c.second := by
  rw [content, lineEnd_infix_append (by decide) (by decide), lineEnd_infix_append c.verb.mark_ne.1 c.verb.mark_ne.2]
  exact or_iff_right c.verb.word_clear

theorem lineText?_encoded (s : List Char) : Wire.lineText? (encoded s) = some s := by
  have hs := fromUTF8?_toUTF8 (String.ofList s)
  rw [toUTF8_eq_encoded, String.toList_ofList] at hs
  rw [Wire.lineText?, hs, Option.map_some, String.toList_ofList]

/-- The line of a command is read as the command if the mark that sets its texts apart is not in the first of them. -/
theorem read?_content : read? (encoded c.content) = some c ↔ c.verb.mark ∉ c.first.toList := by
  have hword : cutAt '|' c.content = some (c.verb.word.toList, c.first.toList ++ c.verb.mark :: c.second.toList) :=
    cutAt_eq_some.2 ⟨rfl, c.verb.bar_not_mem_word⟩
  have hread : read? (encoded c.content) =
      (cutAt c.verb.mark (c.first.toList ++ c.verb.mark :: c.second.toList)).map fun (a, b) =>
        c.verb.command (String.ofList a) (String.ofList b) := by
    simp only [read?, lineText?_encoded, hword, FeedVerb.ofWord?_word, Option.bind_eq_bind, Option.bind_some,
      Option.map_eq_bind]
    rfl
  rw [hread, Option.map_eq_some_iff]
  constructor
  · rintro ⟨⟨a, b⟩, hcut, heq⟩ hmem
    obtain ⟨-, ha⟩ := cutAt_eq_some.1 hcut
    have hfirst := congrArg first heq
    rw [first_command] at hfirst
    rw [← hfirst, String.toList_ofList] at hmem
    exact ha hmem
  · intro h
    refine ⟨(c.first.toList, c.second.toList), cutAt_eq_some.2 ⟨rfl, h⟩, ?_⟩
    dsimp only
    rw [String.ofList_toList, String.ofList_toList, command_verb]

/-- What is read back of a single command, with its line end, is the command if it is legible. -/
theorem readCommands_bytes : readCommands c.bytes = [some c] ↔ c.Legible := by
  rw [readCommands, bytes_eq]
  by_cases hbreaks : ['\r', '\n'] <:+: c.content
  · have hlines := Wire.splitLines_broken (lineEnd_infix_iff.2 hbreaks)
    constructor
    · intro h
      rw [← List.length_map (f := read?), h] at hlines
      exact absurd hlines (Nat.lt_irrefl 1)
    · intro h
      exact absurd (content_breaks.1 hbreaks) (not_or.2 ⟨h.first, h.second⟩)
  · obtain ⟨hfirst, hsecond⟩ := not_or.1 (mt content_breaks.2 hbreaks)
    rw [Wire.splitLines_clear (mt lineEnd_infix_iff.1 hbreaks), List.map_singleton, List.singleton_inj, read?_content]
    exact ⟨fun h => ⟨h, hfirst, hsecond⟩, fun h => h.mark⟩

/-! ## Streams of commands -/

/-- The lines of a command are read by themselves, whatever follows them. -/
theorem readCommands_append (c : FeedCommand) (r : List UInt8) :
    readCommands c.bytes ≠ [] ∧ readCommands (c.bytes ++ r) = readCommands c.bytes ++ readCommands r := by
  obtain ⟨hne, hsplit⟩ := Wire.splitLines_append (encoded c.content) r
  have happend : encoded c.content ++ [13, 10] ++ r = encoded c.content ++ 13 :: 10 :: r := by simp
  rw [bytes_eq, readCommands, readCommands, happend, hsplit, List.map_append]
  exact ⟨mt List.map_eq_nil_iff.1 hne, rfl⟩

/-- A stream of commands ends with a line end. -/
theorem splitLines_commands (cs : List FeedCommand) : (Wire.splitLines (cs.flatMap bytes)).2 = [] := by
  induction cs with
  | nil => rfl
  | cons c cs ih =>
    have happend : c.bytes ++ cs.flatMap bytes = encoded c.content ++ 13 :: 10 :: cs.flatMap bytes := by
      rw [bytes_eq, List.append_assoc]
      rfl
    rw [List.flatMap_cons, happend, (Wire.splitLines_append _ _).2]
    exact ih

theorem length_le_readCommands (cs : List FeedCommand) : cs.length ≤ (readCommands (cs.flatMap bytes)).length := by
  induction cs with
  | nil => exact Nat.zero_le _
  | cons c cs ih =>
    obtain ⟨hne, happend⟩ := readCommands_append c (cs.flatMap bytes)
    have hpos := List.length_pos_iff.2 hne
    rw [List.flatMap_cons, happend, List.length_append, List.length_cons]
    omega

/-- Commands are read back from their stream, each as it is and in order, if and only if all of them are legible. -/
theorem readCommands_eq_iff : readCommands (cs.flatMap bytes) = cs.map some ↔ ∀ c ∈ cs, c.Legible := by
  induction cs with
  | nil => exact iff_of_true rfl nofun
  | cons c cs ih =>
    obtain ⟨hne, happend⟩ := readCommands_append c (cs.flatMap bytes)
    rw [List.flatMap_cons, happend, List.map_cons, List.forall_mem_cons, ← readCommands_bytes, ← ih]
    constructor
    · intro h
      -- the first command makes one line at least and so do all others, so the first one makes no more
      have hlen := congrArg List.length h
      have hle := length_le_readCommands cs
      have hpos := List.length_pos_iff.2 hne
      rw [List.length_append, List.length_cons, List.length_map] at hlen
      exact List.append_inj (h.trans List.singleton_append.symm) (by rw [List.length_singleton]; omega)
    · rintro ⟨hc, hcs⟩
      rw [hc, hcs, List.singleton_append]

end FeedCommand

end RateDesk
