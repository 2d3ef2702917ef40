import RateDesk.Text.Cut
import RateDesk.Toml.Scalar

/-!
# Reading TOML

Values, keys and lines of a TOML text. Main definition: `Toml.read`, the entries of the root table.
-/

namespace RateDesk.Toml

open Text

/-! ## Blanks and comments -/

def skipSpace (s : List Char) : List Char := s.dropWhile isSpace

/-- The rest after a comment, if one begins here; a control character ends it. -/
def skipComment : List Char → List Char
  | '#' :: r => r.dropWhile fun c => c == '\t' || ' ' ≤ c
  | r => r

def skipLines : (fuel : Nat) → List Char → List Char
  | 0, s => s
  | fuel + 1, s =>
    match skipComment (skipSpace s) with
    | '\n' :: r => skipLines fuel r
    | r => r

/-- The rest after the end of a line: blanks, a comment, and a line feed unless the text ends. -/
def endLine? (s : List Char) : Option (List Char) :=
  match skipComment (skipSpace s) with
  | [] => some []
  | '\n' :: r => some r
  | _ => none

/-! ## Keys -/

/-- One part of a key, bare or in quotes, and the rest. -/
def readKeyPart : List Char → Option (List Char × List Char)
  | [] => none
  | c :: r =>
    if c = '"' ∨ c = '\x27' then
      match readString c r with
      | some (k, false, rest) => some (k, rest)
      | _ => none
    else if isBare c then some ((c :: r).takeWhile isBare, (c :: r).dropWhile isBare)
    else none

/-- A key of parts with points between them, and the rest after blanks. -/
def readKey : (fuel : Nat) → List Char → Option (List (List Char) × List Char)
  | 0, _ => none
  | fuel + 1, s => do
    let (k, r) ← readKeyPart (skipSpace s)
    match skipSpace r with
    | '.' :: r =>
      let (ks, rest) ← readKey fuel r
      return (k :: ks, rest)
    | rest => return ([k], rest)

/-! ## Values -/

mutual

def readValue : (fuel : Nat) → List Char → Option (Toml × List Char)
  | 0, _ => none
  | _, [] => none
  | fuel + 1, c :: r => do
    if c = '"' ∨ c = '\x27' then
      let (s, _, rest) ← readString c r
      return (string s, rest)
    else if c = '[' then
      let (xs, rest) ← readElements fuel (skipLines r.length r)
      return (array false xs, rest)
    else if c = '\x7b' then
      match skipSpace r with
      | '\x7d' :: rest => return (table .braces [], rest)
      | r =>
        let (ps, rest) ← readPairs fuel r
        return (table .braces (← defineAll ps []), rest)
    else readBare (c :: r)

/-- The elements of an array up to its closing bracket, and the rest. -/
def readElements : (fuel : Nat) → List Char → Option (List Toml × List Char)
  | 0, _ => none
  | _, ']' :: rest => some ([], rest)
  | fuel + 1, s => do
    let (x, r) ← readValue fuel s
    match skipLines r.length r with
    | ',' :: r =>
      let (xs, rest) ← readElements fuel (skipLines r.length r)
      return (x :: xs, rest)
    | ']' :: rest => return ([x], rest)
    | _ => none

/-- The keys and values of a table in braces up to the closing brace, and the rest. -/
def readPairs : (fuel : Nat) → List Char → Option (List (List (List Char) × Toml) × List Char)
  | 0, _ => none
  | fuel + 1, s => do
    let (p, r) ← readPair fuel s
    match skipSpace r with
    | ',' :: r =>
      let (ps, rest) ← readPairs fuel r
      return (p :: ps, rest)
    | '\x7d' :: rest => return ([p], rest)
    | _ => none

def readPair : (fuel : Nat) → List Char → Option ((List (List Char) × Toml) × List Char)
  | 0, _ => none
  | fuel + 1, s => do
    let (k, r) ← readKey s.length s
    match r with
    | '=' :: r =>
      let (v, rest) ← readValue fuel (skipSpace r)
      return ((k, v), rest)
    | _ => none

end

/-! ## Documents -/

/-- The path of a header after its opening brackets, and the rest after the line. -/
def readHeader (grow : Bool) (s : List Char) : Option (List (List Char) × List Char) := do
  let (path, r) ← readKey s.length s
  match grow, r with
  | false, ']' :: r => return (path, ← endLine? r)
  | true, ']' :: ']' :: r => return (path, ← endLine? r)
  | _, _ => none

/-- The lines with keys and values up to the next header or the end of the text. -/
def readSection : (fuel : Nat) → List Char → Option (List (List (List Char) × Toml) × List Char)
  | 0, _ => none
  | fuel + 1, s => do
    match skipLines s.length s with
    | [] => return ([], [])
    | '[' :: r => return ([], '[' :: r)
    | r =>
      let (p, r) ← readPair (2 * r.length + 2) r
      let (ps, rest) ← readSection fuel (← endLine? r)
      return (p :: ps, rest)

/-- The headers with what follows them, applied to the entries so far. -/
def readSections : (fuel : Nat) → Entries → List Char → Option Entries
  | _, es, [] => some es
  | 0, _, _ => none
  | fuel + 1, es, '[' :: r => do
    let (grow, r) := match r with
      | '[' :: r => (true, r)
      | r => (false, r)
    let (path, r) ← readHeader grow r
    let (ps, rest) ← readSection (r.length + 1) r
    readSections fuel (← openTable grow (defineAll ps) path es) rest
  | _, _, _ => none

/-- The entries of the root table of a text; a byte order mark before it is ignored. -/
def read (s : List Char) : Option Entries := do
  let s := match s with
    | '\ufeff' :: r => r
    | r => r
  let s := replacePair '\r' '\n' '\n' s
  let (ps, rest) ← readSection (s.length + 1) s
  readSections (rest.length + 1) (← defineAll ps []) rest

end RateDesk.Toml
