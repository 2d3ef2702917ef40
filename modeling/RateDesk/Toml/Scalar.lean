import RateDesk.Text.Numeral
import RateDesk.Toml.Basic

/-!
# TOML scalars

Strings, numbers, dates and times. Main definitions: `readString`, `readBare`.
-/

namespace RateDesk.Toml

open Text

/-! ## Characters -/

def isSpace (c : Char) : Bool := c == ' ' || c == '\t'

def isBare (c : Char) : Bool := c.isAlphanum || c == '-' || c == '_'

/-- The characters that may stand unescaped in a string, apart from the line feed. -/
def isPlain (c : Char) : Bool := c == '\t' || (' ' ≤ c && c != '\x7f')

def hexValue? (c : Char) : Option Nat :=
  if isDigit c then digit? c
  else if 'a' ≤ c ∧ c ≤ 'f' then some (c.toNat - 'a'.toNat + 10)
  else if 'A' ≤ c ∧ c ≤ 'F' then some (c.toNat - 'A'.toNat + 10)
  else none

/-! ## Strings -/

def charOfHex? (s : List Char) : Option Char := do
  let n ← s.foldlM (fun acc c => (hexValue? c).map (acc * 16 + ·)) 0
  if n.isValidChar then some (Char.ofNat n) else none

def escaped? (c : Char) : Option Char :=
  match c with
  | '"' => some '"'
  | '\\' => some '\\'
  | 'b' => some '\x08'
  | 'f' => some '\x0c'
  | 'n' => some '\n'
  | 'r' => some '\r'
  | 't' => some '\t'
  | _ => none

/-- The rest after a backslash that ends a line of a long string, and after the blanks and line
feeds that follow. -/
def afterLineEnd? (s : List Char) : Option (List Char) :=
  match s.dropWhile isSpace with
  | '\n' :: r => some (r.dropWhile fun c => isSpace c || c == '\n')
  | [] => some []
  | _ => none

/-- The body of a string up to its closing mark, and the rest. A `long` string ends at three marks
and may hold two more before them; escapes stand only between double quotes. -/
def readBody (mark : Char) (long : Bool) : (fuel : Nat) → List Char → Option (List Char × List Char)
  | 0, _ => none
  | _, [] => none
  | fuel + 1, c :: r => do
    if c = mark then
      if long then
        match r with
        | m₂ :: m₃ :: r =>
          if m₂ = mark ∧ m₃ = mark then
            let more := (r.take 2).takeWhile (· == mark)
            return (more, r.drop more.length)
          else
            let (s, rest) ← readBody mark long fuel (m₂ :: m₃ :: r)
            return (c :: s, rest)
        | _ => none
      else return ([], r)
    else if c = '\n' then
      if long then
        let (s, rest) ← readBody mark long fuel r
        return (c :: s, rest)
      else none
    else if c = '\\' ∧ mark = '"' then
      match r with
      | [] => none
      | e :: r =>
        if e = 'u' ∨ e = 'U' then
          let width := if e = 'u' then 4 else 8
          if r.length < width then none
          else
            let x ← charOfHex? (r.take width)
            let (s, rest) ← readBody mark long fuel (r.drop width)
            return (x :: s, rest)
        else if long ∧ (isSpace e ∨ e = '\n') then
          readBody mark long fuel (← afterLineEnd? (e :: r))
        else
          let x ← escaped? e
          let (s, rest) ← readBody mark long fuel r
          return (x :: s, rest)
    else if isPlain c then
      let (s, rest) ← readBody mark long fuel r
      return (c :: s, rest)
    else none

/-- A string, whether it is a long one, and the rest, after the opening mark. -/
def readString (mark : Char) (s : List Char) : Option (List Char × Bool × List Char) := do
  match s with
  | m₁ :: m₂ :: r =>
    if m₁ = mark then
      if m₂ = mark then
        let (t, rest) ← readBody mark true (r.length + 1) (match r with | '\n' :: r => r | r => r)
        return (t, true, rest)
      else return ([], false, m₂ :: r)
    else
      let (t, rest) ← readBody mark false (s.length + 1) s
      return (t, false, rest)
  | [m] => if m = mark then some ([], false, []) else none
  | [] => none

/-! ## Numbers -/

/-- Digits with single underscores between them, without the underscores. -/
def grouped? (digit : Char → Bool) : List Char → Option (List Char)
  | [] => none
  | [c] => if digit c then some [c] else none
  | c :: '_' :: r => if digit c then (grouped? digit r).map (c :: ·) else none
  | c :: r => if digit c then (grouped? digit r).map (c :: ·) else none

/-- Whole digits without a superfluous leading zero. -/
def whole? (s : List Char) : Option (List Char) := do
  match ← grouped? isDigit s with
  | '0' :: _ :: _ => none
  | ds => some ds

/-- The number with digits in a radix, if it fits in 64 signed bits. -/
def inRadix? (radix : Nat) (s : List Char) : Option Int := do
  let ds ← grouped? (fun c => (hexValue? c).any (· < radix)) s
  let n ← ds.foldlM (fun acc c => (hexValue? c).map (acc * radix + ·)) 0
  if n < twoPow 63 then some n else none

/-- An integer without a plus sign. -/
def integer? : List Char → Option Int
  | '0' :: 'x' :: r => inRadix? 16 r
  | '0' :: 'o' :: r => inRadix? 8 r
  | '0' :: 'b' :: r => inRadix? 2 r
  | '-' :: r => do signed64? ('-' :: (← whole? r))
  | r => do signed64? (← whole? r)

/-- The exponent of a float after its `e`, without underscores. -/
def exponent? : List Char → Option (List Char)
  | '+' :: r => grouped? isDigit r
  | '-' :: r => (grouped? isDigit r).map ('-' :: ·)
  | r => grouped? isDigit r

/-- The digits of an unsigned float without underscores: an exponent, a fraction, or both must be
there. -/
def floatDigits? (s : List Char) : Option (List Char) := do
  let isMark (c : Char) : Bool := c == 'e' || c == 'E'
  let significand := s.takeWhile (!isMark ·)
  let exponent ← match s.dropWhile (!isMark ·) with
    | [] => some []
    | _ :: r => (exponent? r).map ('e' :: ·)
  match significand.dropWhile (· != '.') with
  | [] => if exponent.isEmpty then none else return (← whole? significand) ++ exponent
  | _ :: fraction =>
    return (← whole? (significand.takeWhile (· != '.'))) ++ '.' :: (← grouped? isDigit fraction) ++ exponent

/-- A float without a plus sign; one beyond the range of double precision is refused. -/
def float? (s : List Char) : Option Binary64 := do
  let (sign, r) := match s with
    | '-' :: r => (['-'], r)
    | r => ([], r)
  if r = ['i', 'n', 'f'] then return .infinite (sign = ['-'])
  else if r = ['n', 'a', 'n'] then return .nan
  else
    match ← Binary64.read (sign ++ (← floatDigits? r)) with
    | .infinite _ => none
    | x => some x

/-! ## Dates and times -/

/-- The value of exactly `n` digits. -/
def exactly? (n : Nat) (s : List Char) : Option Nat := if s.length = n then numeral? s else none

/-- A date, `YYYY-MM-DD`, and the rest. -/
def readDate (s : List Char) : Option (List Char × List Char) := do
  let _ ← exactly? 4 (s.take 4)
  let month ← exactly? 2 ((s.drop 5).take 2)
  let day ← exactly? 2 ((s.drop 8).take 2)
  if (s.drop 4).head? = some '-' ∧ (s.drop 7).head? = some '-' ∧ 1 ≤ month ∧ month ≤ 12 ∧ 1 ≤ day ∧ day ≤ 31 then
    some (s.take 10, s.drop 10)
  else none

/-- A fraction of a second in at most nine digits without trailing zeros, and the rest. -/
def readFraction : List Char → Option (List Char × List Char)
  | '.' :: r =>
    let ds := r.takeWhile isDigit
    if ds.isEmpty then none
    else
      let ds := ((ds.take 9).reverse.dropWhile (· == '0')).reverse
      some (if ds.isEmpty then [] else '.' :: ds, r.dropWhile isDigit)
  | r => some ([], r)

/-- A time, `hh:mm:ss` with an optional fraction, and the rest. -/
def readTime (s : List Char) : Option (List Char × List Char) := do
  let hour ← exactly? 2 (s.take 2)
  let minute ← exactly? 2 ((s.drop 3).take 2)
  let second ← exactly? 2 ((s.drop 6).take 2)
  if (s.drop 2).head? = some ':' ∧ (s.drop 5).head? = some ':' ∧ hour ≤ 24 ∧ minute ≤ 59 ∧ second ≤ 59 then
    let (fraction, r) ← readFraction (s.drop 8)
    return (s.take 8 ++ fraction, r)
  else none

/-- An offset that ends a date and time, or nothing. -/
def readOffset : List Char → Option (List Char)
  | [] => some []
  | ['z'] => some ['Z']
  | ['Z'] => some ['Z']
  | sign :: r => do
    let hour ← exactly? 2 (r.take 2)
    let minute ← exactly? 2 (r.drop 3)
    if (sign = '+' ∨ sign = '-') ∧ (r.drop 2).head? = some ':' ∧ hour ≤ 24 ∧ minute ≤ 59 then
      some (sign :: r)
    else none

/-- A date, a time, or both with an optional offset, in one spelling. -/
def datetime? (s : List Char) : Option (List Char) := do
  match readDate s with
  | none =>
    match ← readTime s with
    | (t, []) => some t
    | _ => none
  | some (date, []) => some date
  | some (date, c :: r) =>
    if c = 'T' ∨ c = 't' ∨ c = ' ' then
      let (time, r) ← readTime r
      return date ++ 'T' :: time ++ (← readOffset r)
    else none

/-! ## Bare values -/

def isWord (c : Char) : Bool := isBare c || c == '.' || c == '+' || c == ':'

/-- The word at the start of a text and the rest; a date and a time may have one blank between
them. -/
def readWord (s : List Char) : List Char × List Char :=
  let word := s.takeWhile isWord
  match s.dropWhile isWord with
  | ' ' :: c :: r =>
    if isDigit c ∧ ((readDate word).any fun p => p.2.isEmpty) then
      (word ++ ' ' :: (c :: r).takeWhile isWord, (c :: r).dropWhile isWord)
    else (word, ' ' :: c :: r)
  | rest => (word, rest)

def ofWord? (s : List Char) : Option Toml :=
  let (signed, r) := match s with
    | '+' :: r => (true, r)
    | r => (false, r)
  if s = "true".toList then some (bool true)
  else if s = "false".toList then some (bool false)
  else
    match integer? r with
    | some n => some (integer n)
    | none =>
      match float? r with
      | some x => some (float x)
      | none => if signed then none else (datetime? s).map datetime

def readBare (s : List Char) : Option (Toml × List Char) := do
  let (word, rest) := readWord s
  return (← ofWord? word, rest)

end RateDesk.Toml
