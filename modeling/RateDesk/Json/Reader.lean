import RateDesk.Json.Basic

/-!
# Reading JSON

Readers take the text from where they stand and return what they read with the rest. Main
definitions: `readValue` (any value), `readText` (a string, or an error that names what stands there
instead), `readRecord` (an object or an array as a record, field by field, so that the first error
in reading order counts) and `parse` (a whole text).
-/

namespace RateDesk.Json

open Text

/-- How many arrays and objects may be open at once, less one. -/
abbrev maxDepth : Nat := 127

def isSpace (c : Char) : Bool := c == ' ' || c == '\t' || c == '\n' || c == '\r'

def skipSpace (s : List Char) : List Char := s.dropWhile isSpace

/-! ## Strings -/

def hexDigit? (c : Char) : Option Nat :=
  if 'a'.toNat ≤ c.toNat ∧ c.toNat ≤ 'f'.toNat then some (c.toNat - 'a'.toNat + 10)
  else if 'A'.toNat ≤ c.toNat ∧ c.toNat ≤ 'F'.toNat then some (c.toNat - 'A'.toNat + 10)
  else digit? c

def hex4? (a b c d : Char) : Option Nat := do
  return (((← hexDigit? a) * 16 + (← hexDigit? b)) * 16 + (← hexDigit? c)) * 16 + (← hexDigit? d)

/-- The character that a one-letter escape stands for. -/
def shortEscape? (c : Char) : Option Char :=
  match c with
  | '"' => some '"'
  | '\\' => some '\\'
  | '/' => some '/'
  | 'b' => some '\x08'
  | 'f' => some '\x0c'
  | 'n' => some '\n'
  | 'r' => some '\r'
  | 't' => some '\t'
  | _ => none

/-- Reads a string after its opening quote; `acc` holds the characters read so far, last one first.
With `strict`, halves of surrogate pairs have to stand together. -/
def readStringBody (strict : Bool) (acc : List Char) : List Char → Except Error (List Char × List Char)
  | [] => .error .malformed
  | '"' :: r => .ok (acc.reverse, r)
  | '\\' :: 'u' :: a :: b :: c :: d :: r =>
    match hex4? a b c d with
    | none => .error .malformed
    | some n =>
      if n < 0xD800 ∨ 0xDFFF < n ∨ !strict then readStringBody strict (Char.ofNat n :: acc) r
      else if 0xDC00 ≤ n then .error .malformed
      else
        match r with
        | '\\' :: 'u' :: a :: b :: c :: d :: r =>
          match hex4? a b c d with
          | none => .error .malformed
          | some m =>
            if 0xDC00 ≤ m ∧ m ≤ 0xDFFF then
              readStringBody strict (Char.ofNat (0x10000 + (n - 0xD800) * 0x400 + (m - 0xDC00)) :: acc) r
            else .error .malformed
        | _ => .error .malformed
  | '\\' :: e :: r =>
    match shortEscape? e with
    | some c => readStringBody strict (c :: acc) r
    | none => .error .malformed
  | c :: r => if c = '\\' ∨ c.toNat < 0x20 then .error .malformed else readStringBody strict (c :: acc) r

def readString (s : List Char) : Except Error (List Char × List Char) := readStringBody true [] s

/-! ## Numbers and words -/

def readDigits (s : List Char) : Except Error (List Char × List Char) :=
  let ds := s.takeWhile isDigit
  if ds.isEmpty then .error .malformed else .ok (ds, s.dropWhile isDigit)

/-- The integer part of a number: one zero, or digits that begin with another one. -/
def readInteger (s : List Char) : Except Error (List Char × List Char) := do
  let (ds, r) ← readDigits s
  if ds.length ≠ 1 ∧ ds.head? = some '0' then .error .malformed else return (ds, r)

/-- A point and digits, or nothing. -/
def readFraction : List Char → Except Error (List Char × List Char)
  | '.' :: s => do
    let (ds, r) ← readDigits s
    return ('.' :: ds, r)
  | s => .ok ([], s)

/-- An exponent, written as `e`, a sign and digits, or nothing. -/
def readExponent : List Char → Except Error (List Char × List Char)
  | c :: s =>
    if c = 'e' ∨ c = 'E' then do
      let (sign, s) := match s with
        | '-' :: s => ('-', s)
        | '+' :: s => ('+', s)
        | s => ('+', s)
      let (ds, r) ← readDigits s
      return ('e' :: sign :: ds, r)
    else .ok ([], c :: s)
  | [] => .ok ([], [])

/-- A number: its literal, whether it is an integer, and the rest. -/
def readNumber (s : List Char) : Except Error (List Char × Bool × List Char) := do
  let (sign, s) := match s with
    | '-' :: s => (['-'], s)
    | s => ([], s)
  let (whole, s) ← readInteger s
  let (fraction, s) ← readFraction s
  let (exponent, s) ← readExponent s
  return (sign ++ whole ++ fraction ++ exponent, fraction.isEmpty && exponent.isEmpty, s)

def readWord (word s : List Char) : Except Error (List Char) :=
  if word.isPrefixOf s then .ok (s.drop word.length) else .error .malformed

/-! ## Values -/

mutual

/-- Reads a value; `depth` bounds the arrays and objects open at once, `fuel` the characters
left. -/
def readValueFuel : (fuel depth : Nat) → List Char → Except Error (Json × List Char)
  | 0, _, _ => .error .malformed
  | fuel + 1, depth, s =>
    match skipSpace s with
    | [] => .error .malformed
    | 'n' :: r => do return (.null, ← readWord "ull".toList r)
    | 't' :: r => do return (.bool true, ← readWord "rue".toList r)
    | 'f' :: r => do return (.bool false, ← readWord "alse".toList r)
    | '"' :: r => do
      let (t, r) ← readString r
      return (.string t, r)
    | '[' :: r =>
      match depth with
      | 0 => .error .malformed
      | depth + 1 => do
        match skipSpace r with
        | ']' :: r => return (.array [], r)
        | r =>
          let (xs, r) ← readElementsFuel fuel depth r
          return (.array xs, r)
    | '\x7b' :: r =>
      match depth with
      | 0 => .error .malformed
      | depth + 1 => do
        match skipSpace r with
        | '\x7d' :: r => return (.object [], r)
        | r =>
          let (ms, r) ← readMembersFuel fuel depth r
          return (.object ms, r)
    | c :: r =>
      if c = '-' ∨ isDigit c then do
        let (n, _, r) ← readNumber (c :: r)
        return (.number n, r)
      else .error .malformed

def readElementsFuel : (fuel depth : Nat) → List Char → Except Error (List Json × List Char)
  | 0, _, _ => .error .malformed
  | fuel + 1, depth, s => do
    let (x, r) ← readValueFuel fuel depth s
    match skipSpace r with
    | ']' :: r => return ([x], r)
    | ',' :: r =>
      let (xs, r) ← readElementsFuel fuel depth r
      return (x :: xs, r)
    | _ => .error .malformed

def readMembersFuel : (fuel depth : Nat) → List Char → Except Error (List (List Char × Json) × List Char)
  | 0, _, _ => .error .malformed
  | fuel + 1, depth, s => do
    match skipSpace s with
    | '"' :: r =>
      let (k, r) ← readString r
      match skipSpace r with
      | ':' :: r =>
        let (v, r) ← readValueFuel fuel depth r
        match skipSpace r with
        | '\x7d' :: r => return ([(k, v)], r)
        | ',' :: r =>
          let (ms, r) ← readMembersFuel fuel depth r
          return ((k, v) :: ms, r)
        | _ => .error .malformed
      | _ => .error .malformed
    | _ => .error .malformed

end

def readValue (depth : Nat) (s : List Char) : Except Error (Json × List Char) :=
  readValueFuel (s.length + 1) depth s

/-! ## Skipping -/

/-- The state of a skip: which brackets are open, innermost first, and what may come next. -/
inductive Expecting where
  /-- A value. -/
  | value
  /-- A value or the end of the array just opened. -/
  | firstElement
  /-- A member or the end of the object just opened. -/
  | firstMember
  /-- A member. -/
  | member
  /-- A comma or the end of what is open. -/
  | separator
deriving DecidableEq, Repr

/-- Skips one scalar: the rest, or none when an array or object begins. -/
def skipScalar : List Char → Except Error (Option (List Char))
  | 'n' :: r => do return some (← readWord "ull".toList r)
  | 't' :: r => do return some (← readWord "rue".toList r)
  | 'f' :: r => do return some (← readWord "alse".toList r)
  | '"' :: r => do return some (← readStringBody false [] r).2
  | '[' :: _ => .ok none
  | '\x7b' :: _ => .ok none
  | c :: r => if c = '-' ∨ isDigit c then do return some (← readNumber (c :: r)).2.2 else .error .malformed
  | [] => .error .malformed

def skipName : List Char → Except Error (List Char)
  | '"' :: r => do
    let (_, r) ← readStringBody false [] r
    match skipSpace r with
    | ':' :: r => return r
    | _ => .error .malformed
  | _ => .error .malformed

/-- Skips to the end of a value at any depth; `opened` lists what is open around it, true for an
array. -/
def skipFuel : (fuel : Nat) → (opened : List Bool) → Expecting → List Char → Except Error (List Char)
  | 0, _, _, _ => .error .malformed
  | fuel + 1, opened, state, s =>
    let closed (r : List Char) : Except Error (List Char) :=
      match opened.tail with
      | [] => .ok r
      | outer => skipFuel fuel outer .separator r
    match state, skipSpace s with
    | .firstElement, ']' :: r => closed r
    | .firstMember, '\x7d' :: r => closed r
    | .firstMember, r => do skipFuel fuel opened .value (← skipName r)
    | .member, r => do skipFuel fuel opened .value (← skipName r)
    | .separator, ',' :: r => skipFuel fuel opened (if opened.headD true then .value else .member) r
    | .separator, ']' :: r => if opened.headD false then closed r else .error .malformed
    | .separator, '\x7d' :: r => if opened.headD true then .error .malformed else closed r
    | .separator, _ => .error .malformed
    | _, '[' :: r => skipFuel fuel (true :: opened) .firstElement r
    | _, '\x7b' :: r => skipFuel fuel (false :: opened) .firstMember r
    | _, r => do
      match ← skipScalar r with
      | some r => if opened.isEmpty then return r else skipFuel fuel opened .separator r
      | none => .error .malformed

def skipValue (s : List Char) : Except Error (List Char) := skipFuel (2 * s.length + 2) [] .value s

/-! ## Expected shapes -/

/-- Whether the literal of an integer fits in 64 bits; a negative zero is not counted as an
integer. -/
def fits64 (literal : List Char) : Bool :=
  match literal with
  | '-' :: ds => match numeral? ds with
    | some n => n != 0 && n ≤ twoPow 63
    | none => false
  | ds => match numeral? ds with
    | some n => n < twoPow 64
    | none => false

/-- The error for a value of another type than expected: a scalar is read to its end first. -/
def wrongType (expected : String) (s : List Char) : Error :=
  let found (x : Except Error Found) : Error := match x with
    | .ok f => .wrongType f expected
    | .error e => e
  match s with
  | 'n' :: r => found ((readWord "ull".toList r).map fun _ => .null)
  | 't' :: r => found ((readWord "rue".toList r).map fun _ => .bool true)
  | 'f' :: r => found ((readWord "alse".toList r).map fun _ => .bool false)
  | '"' :: r => found ((readString r).map fun (t, _) => .string t)
  | '[' :: _ => .wrongType .array expected
  | '\x7b' :: _ => .wrongType .object expected
  | c :: r =>
    if c = '-' ∨ isDigit c then
      found ((readNumber (c :: r)).map fun (n, integer, _) => if integer && fits64 n then .integer n else .number)
    else .malformed
  | [] => .malformed

def readText (s : List Char) : Except Error (List Char × List Char) :=
  match skipSpace s with
  | '"' :: r => readString r
  | r => .error (wrongType "a string" r)

/-- How a record is read: the state before any field, a field by its name or its place, and the
end. -/
structure RecordReader (σ α : Type) where
  /-- The words for the record in error messages. -/
  expected : String
  /-- How many fields there are. -/
  width : Nat
  start : σ
  /-- Refuses a name that may not follow in a state. -/
  allow : (name : List Char) → σ → Except Error Unit
  /-- Reads the value of a field, the name of which may be unknown. -/
  member : (name : List Char) → σ → List Char → Except Error (σ × List Char)
  /-- Reads the value of the field at a place. -/
  element : (place : Nat) → σ → List Char → Except Error (σ × List Char)
  finish : σ → Except Error α

namespace RecordReader

variable {σ α : Type} (reader : RecordReader σ α)

def readMembers : (fuel : Nat) → (first : Bool) → σ → List Char → Except Error (σ × List Char)
  | 0, _, _, _ => .error .malformed
  | fuel + 1, first, state, s => do
    let s ← match skipSpace s with
      | '\x7d' :: r => return (state, r)
      | ',' :: r => if first then .error .malformed else pure (skipSpace r)
      | r => if first then pure r else .error .malformed
    match s with
    | '"' :: r =>
      let (name, r) ← readString r
      reader.allow name state
      match skipSpace r with
      | ':' :: r =>
        let (state, r) ← reader.member name state r
        readMembers fuel false state r
      | _ => .error .malformed
    | _ => .error .malformed

/-- Reads elements from the one at `place` on, as many as there are fields; `left` counts them. -/
def readElements : (left place : Nat) → σ → List Char → Except Error (σ × List Char)
  | 0, _, state, s =>
    match skipSpace s with
    | ']' :: r => .ok (state, r)
    | _ => .error .malformed
  | left + 1, place, state, s => do
    let s ← match skipSpace s with
      | [] => .error .malformed
      | ']' :: _ => .error (.tooShort place (reader.expected ++ " with " ++ toString reader.width ++
          (if reader.width = 1 then " element" else " elements")))
      | ',' :: r =>
        if place = 0 then .error .malformed
        else match skipSpace r with
          | ']' :: _ => .error .malformed
          | r => pure r
      | r => if place = 0 then pure r else .error .malformed
    let (state, r) ← reader.element place state s
    readElements left (place + 1) state r

/-- Reads a record, given as an object or as an array of its fields in order. -/
def read (s : List Char) : Except Error (α × List Char) := do
  let (state, r) ← match skipSpace s with
    | [] => .error .malformed
    | '\x7b' :: r => reader.readMembers (r.length + 1) true reader.start r
    | '[' :: r => reader.readElements reader.width 0 reader.start r
    | r => .error (wrongType reader.expected r)
  return (← reader.finish state, r)

def readAll (s : List Char) : Except Error α := do
  let (a, r) ← reader.read s
  if (skipSpace r).isEmpty then return a else .error .malformed

end RecordReader

def parse (s : List Char) : Except Error Json := do
  let (v, r) ← readValue maxDepth s
  if (skipSpace r).isEmpty then return v else .error .malformed

end RateDesk.Json
