import RateDesk.Settings.Tree
import RateDesk.Text.Blank
import RateDesk.Text.Cut
import RateDesk.Text.Numeral

/-!
# The environment

Environment variables as a source of settings, and the file `.env` that adds variables. Main
definitions: `Environment`, `Environment.entries`, `Environment.loadEnvFile`.
-/

namespace RateDesk

/-- Environment variables in the order in which they were set, with their values. -/
structure Environment where
  bindings : List (String × String)
deriving DecidableEq, Repr

namespace Environment

open Text

def get? (e : Environment) (name : String) : Option String := e.bindings.lookup name

def setDefault (e : Environment) (name value : String) : Environment :=
  if (e.get? name).isSome then e else ⟨e.bindings ++ [(name, value)]⟩

/-! ## Variables as settings -/

/-- A character of a variable name in lower case: ASCII letters, and the one other letter whose
lower case is ASCII. -/
def lowerChar (c : Char) : Char := if c = '\u212a' then 'k' else c.toLower

/-- The key that a variable name means: after `fx__`, in any case, with a point for every `__`. -/
def keyOf? (name : String) : Option String :=
  (afterPrefix? "fx__".toList (name.toList.map lowerChar)).map fun r => String.ofList (replacePair '_' '_' '.' r)

/-- The scalar that a value means: a truth value in any case, an integer, a float, or else a
text. -/
def scalarOf (value : String) : Scalar :=
  let s := value.toList
  let word := s.map Char.toLower
  if word = "true".toList then .flag true
  else if word = "false".toList then .flag false
  else
    match signed64? s with
    | some n => .integer n
    | none =>
      match Binary64.read s with
      | some x => .real x
      | none => .text value

/-- The entries that the variables assign; of two with the same key the later one counts. -/
def entries (e : Environment) : List (String × Tree) :=
  e.bindings.foldl
    (fun es (name, value) =>
      match keyOf? name with
      | some k => Tree.put k (.leaf (some .environment) (scalarOf value)) es
      | none => es)
    []

/-! ## The lines of a `.env` file -/

/-- How far quoting has got. -/
inductive Quoting where
  | plain
  /-- After a blank outside of quotes, where a comment may begin. -/
  | blank
  | escape
  | single
  | singleEscape
  | double
  | doubleEscape
  | comment
deriving DecidableEq, Repr

def Quoting.next (q : Quoting) (c : Char) : Quoting :=
  let outside : Quoting :=
    if c = '\\' then .escape else if c = '"' then .double else if c = '\x27' then .single else .plain
  match q with
  | .plain => if isBlank c ∧ c ≠ '\n' ∧ c ≠ '\r' then .blank else outside
  | .blank => if c = '#' then .comment else outside
  | .escape => .plain
  | .single => if c = '\\' then .singleEscape else if c = '\x27' then .plain else .single
  | .singleEscape => .single
  | .double => if c = '\\' then .doubleEscape else if c = '"' then .plain else .double
  | .doubleEscape => .double
  | .comment => .comment

/-- What of a physical line counts, up to a comment that ends it, and quoting after it. -/
def scanLine (q : Quoting) : List Char → List Char × Quoting
  | [] => ([], q)
  | c :: r =>
    match q.next c with
    | .comment => ([], .comment)
    | q =>
      let (s, q) := scanLine q r
      (c :: s, q)

/-- The physical lines of a text, with their line feeds. -/
def physicalLines : List Char → List (List Char)
  | [] => []
  | c :: r =>
    if c = '\n' then [c] :: physicalLines r
    else
      match physicalLines r with
      | [] => [[c]]
      | l :: ls => (c :: l) :: ls

/-- A line without its line feed. -/
def chomp (s : List Char) : List Char :=
  match s.reverse with
  | '\n' :: '\r' :: r => r.reverse
  | '\n' :: r => r.reverse
  | _ => s

/-- The logical lines made of physical ones: quotes hold lines together, and a line that begins with
a mark of a comment is empty. `none` marks text that ends inside quotes. -/
def logicalLines (held : List Char) (q : Quoting) : List (List Char) → List (Option (List Char))
  | [] => if q = .plain then [] else [none]
  | l :: ls =>
    if (trimStart (held ++ l)).head? = some '#' then some [] :: logicalLines [] .plain ls
    else
      match scanLine q l with
      | (_, .plain) => some (chomp (held ++ l)) :: logicalLines [] .plain ls
      | (s, .comment) => some (held ++ s) :: logicalLines [] .plain ls
      | (_, q) => logicalLines (held ++ l) q ls

/-! ## The value of a line -/

/-- How a value is being read. -/
inductive ValueMode where
  | plain
  | single
  | double
  /-- After a backslash, in double quotes or outside of quotes. -/
  | escape (double : Bool)
  /-- After a dollar sign, with the name so far. -/
  | name (double : Bool) (name : List Char)
  /-- After a dollar sign and a brace, with the name so far. -/
  | braced (double : Bool) (name : List Char)
  /-- After the value, where only blanks and a comment may stand. -/
  | ended
deriving DecidableEq, Repr

/-- The mode inside double quotes, or outside. -/
def ValueMode.within (double : Bool) : ValueMode := if double then .double else .plain

/-- Whether a character belongs to the name of a variable after a dollar sign. -/
def isNameChar (c : Char) : Bool := c.isAlphanum || (0x80 ≤ c.toNat && !isBlank c)

/-- The value of a variable in a substitution, empty when it is not set. -/
def substitute (e : Environment) (name : List Char) : List Char :=
  ((e.get? (String.ofList name)).getD "").toList

/-- A character outside of escapes and substitutions: what it adds, and the mode after it. -/
def stepPlain (double : Bool) (c : Char) : List Char × ValueMode :=
  if c = '$' then ([], .name double [])
  else if double then
    if c = '"' then ([], .plain) else if c = '\\' then ([], .escape true) else ([c], .double)
  else if c = '\x27' then ([], .single)
  else if c = '"' then ([], .double)
  else if c = '\\' then ([], .escape false)
  else if c = ' ' ∨ c = '\t' then ([], .ended)
  else ([c], .plain)

/-- The value that a text gives, with the variables substituted. -/
def readValue (e : Environment) : ValueMode → List Char → Option (List Char)
  | .plain, [] => some []
  | .ended, [] => some []
  | .escape false, [] => some []
  | .name false n, [] => some (e.substitute n)
  | _, [] => none
  | .ended, c :: r => if c = ' ' ∨ c = '\t' then readValue e .ended r else if c = '#' then some [] else none
  | .escape double, c :: r =>
    if c = 'n' then (readValue e (.within double) r).map ('\n' :: ·)
    else if c ∈ ['\\', '\x27', '"', '$', ' '] then (readValue e (.within double) r).map (c :: ·)
    else none
  | .single, c :: r => if c = '\x27' then readValue e .plain r else (readValue e .single r).map (c :: ·)
  | .braced double n, c :: r =>
    if c = '\x7d' then (readValue e (.within double) r).map (e.substitute n ++ ·)
    else readValue e (.braced double (n ++ [c])) r
  | .name double n, c :: r =>
    if isNameChar c then readValue e (.name double (n ++ [c])) r
    else if c = '\x7b' ∧ n.isEmpty then readValue e (.braced double []) r
    else if c = '$' then (readValue e (.name double []) r).map (e.substitute n ++ ·)
    else (readValue e (.within double) r).map (e.substitute n ++ c :: ·)
  | .double, c :: r => (readValue e (stepPlain true c).2 r).map ((stepPlain true c).1 ++ ·)
  | .plain, c :: r => (readValue e (stepPlain false c).2 r).map ((stepPlain false c).1 ++ ·)

/-! ## Assignments -/

def readName : List Char → Option (List Char × List Char)
  | [] => none
  | c :: r =>
    let isPart (c : Char) : Bool := c.isAlphanum || c == '_' || c == '.'
    if c.isAlpha ∨ c = '_' then some (c :: r.takeWhile isPart, r.dropWhile isPart) else none

/-- What a line says: nothing, or a variable and its value. -/
inductive Assignment where
  | nothing
  | variable (name value : String)
deriving DecidableEq, Repr

def readAssigned (e : Environment) (name s : List Char) : Option Assignment := do
  let s := trimStart s
  let value ← if s.isEmpty ∨ s.head? = some '#' then some [] else readValue e .plain s
  return .variable (String.ofList name) (String.ofList value)

/-- Reads a logical line: `name=value`, or `export name=value`. -/
def readLine (e : Environment) (line : List Char) : Option Assignment := do
  let s := trim line
  if s.isEmpty ∨ s.head? = some '#' then return .nothing
  else
    let (name, r) ← readName s
    match trimStart r with
    | '=' :: r => readAssigned e name r
    | r =>
      if name = "export".toList then
        let (name, r) ← readName r
        match trimStart r with
        | '=' :: r => readAssigned e name r
        | _ => none
      else none

/-- The environment after the logical lines up to the first one that cannot be read. -/
def addLines (e : Environment) : List (Option (List Char)) → Environment
  | [] => e
  | none :: _ => e
  | some l :: ls =>
    match e.readLine l with
    | none => e
    | some .nothing => addLines e ls
    | some (.variable name value) => addLines (e.setDefault name value) ls

/-- The environment after a `.env` file, which sets only what is not set yet. -/
def loadEnvFile (e : Environment) (s : List Char) : Environment :=
  let s := match s with
    | '\ufeff' :: r => r
    | r => r
  e.addLines (logicalLines [] .plain (physicalLines s))

end Environment

end RateDesk
