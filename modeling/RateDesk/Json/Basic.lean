import RateDesk.Text.Quoted

/-!
# JSON values

Numbers keep their digits as written. Main definitions: `Json`, `Json.print` (compact text, members
sorted by name) and `Json.Error`, which tells malformed text from well-formed text of the wrong
shape.
-/

namespace RateDesk

/-- A JSON value. A number is the text of its literal; members stand in the order of the text. -/
inductive Json where
  | null
  | bool (b : Bool)
  | number (literal : List Char)
  | string (s : List Char)
  | array (elements : List Json)
  | object (members : List (List Char × Json))

namespace Json

open Text

/-! ## Printing -/

def escapedChar (c : Char) : List Char :=
  if c = '"' then ['\\', '"']
  else if c = '\\' then ['\\', '\\']
  else if c = '\x08' then ['\\', 'b']
  else if c = '\x0c' then ['\\', 'f']
  else if c = '\n' then ['\\', 'n']
  else if c = '\r' then ['\\', 'r']
  else if c = '\t' then ['\\', 't']
  else if c.toNat < 0x20 then '\\' :: 'u' :: hex 4 c.toNat
  else [c]

def printString (s : List Char) : List Char := '"' :: s.flatMap escapedChar ++ ['"']

/-- Puts a member into a list that is sorted by name; a member of the same name is replaced. -/
def insertMember {α : Type} (k : List Char) (v : α) : List (List Char × α) → List (List Char × α)
  | [] => [(k, v)]
  | (k', v') :: r =>
    if k = k' then (k, v) :: r
    else if k < k' then (k, v) :: (k', v') :: r
    else (k', v') :: insertMember k v r

/-- Members sorted by name, the last one of each name. -/
def sortMembers {α : Type} (ms : List (List Char × α)) : List (List Char × α) :=
  ms.foldl (fun acc m => insertMember m.1 m.2 acc) []

def commaSeparated : List (List Char) → List Char
  | [] => []
  | [x] => x
  | x :: xs => x ++ ',' :: commaSeparated xs

def printMember (m : List Char × List Char) : List Char := printString m.1 ++ ':' :: m.2

mutual

/-- Compact text without blanks; members are sorted by name. -/
def print : Json → List Char
  | null => "null".toList
  | bool b => if b then "true".toList else "false".toList
  | number n => n
  | string s => printString s
  | array xs => '[' :: commaSeparated (printElements xs) ++ [']']
  | object ms => '\x7b' :: commaSeparated ((sortMembers (printMembers ms)).map printMember) ++ ['\x7d']

def printElements : List Json → List (List Char)
  | [] => []
  | x :: xs => print x :: printElements xs

def printMembers : List (List Char × Json) → List (List Char × List Char)
  | [] => []
  | (k, v) :: ms => (k, print v) :: printMembers ms

end

/-! ## Errors -/

/-- What stands where something else is expected. -/
inductive Found where
  | null
  | bool (b : Bool)
  | integer (digits : List Char)
  | number
  | string (s : List Char)
  | array
  | object
deriving DecidableEq, Repr

def Found.describe : Found → String
  | null => "null"
  | bool b => "boolean `" ++ (if b then "true" else "false") ++ "`"
  | integer n => "integer `" ++ String.ofList n ++ "`"
  | number => "number"
  | string s => "string " ++ String.ofList (quoted s)
  | array => "sequence"
  | object => "map"

inductive Error where
  /-- The text is not JSON, or ends early. -/
  | malformed
  /-- A value of another type is expected. -/
  | wrongType (found : Found) (expected : String)
  /-- An array stands for a record and has too few elements. -/
  | tooShort (length : Nat) (expected : String)
  | missingField (name : String)
  | duplicateField (name : String)
  /-- A value that its own reader refuses. -/
  | refused (why : String)
deriving DecidableEq, Repr

def Error.message : Error → String
  | malformed => "malformed JSON text"
  | wrongType f e => "invalid type: " ++ f.describe ++ ", expected " ++ e
  | tooShort n e => "invalid length " ++ toString n ++ ", expected " ++ e
  | missingField n => "missing field `" ++ n ++ "`"
  | duplicateField n => "duplicate field `" ++ n ++ "`"
  | refused why => why

end Json

end RateDesk
