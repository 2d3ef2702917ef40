import RateDesk.Json.Basic
import RateDesk.Number.Binary64
import RateDesk.Toml.Basic

/-!
# Configuration trees

What the sources of a configuration say: tables and lists with scalars at the leaves, each part with
the source it comes from. Later sources are laid over earlier ones, table entry by table entry. Main
definitions: `Tree`, `Tree.overlay`, `Tree.assign`, `Tree.ofToml`, `Tree.ofJson`.
-/

namespace RateDesk

inductive Origin where
  | file (name : String)
  | environment
deriving DecidableEq, Repr

def Origin.describe : Origin → String
  | file n => n
  | environment => "the environment"

/-- A value without parts. -/
inductive Scalar where
  | nothing
  | flag (b : Bool)
  | integer (n : Int)
  | real (x : Binary64)
  | text (s : String)
deriving DecidableEq, Repr

/-- A configuration, or a part of one. A table made by laying entries together has no origin of its
own. -/
inductive Tree where
  | leaf (origin : Option Origin) (value : Scalar)
  | list (origin : Option Origin) (elements : List Tree)
  | table (origin : Option Origin) (entries : List (String × Tree))

namespace Tree

def empty : Tree := table none []

def missing : Tree := leaf none .nothing

/-! ## Entries -/

def entry? (t : Tree) (k : String) : Option Tree :=
  match t with
  | table _ es => es.lookup k
  | _ => none

/-- Gives a name a value among entries, in its place if the name is there. -/
def put (k : String) (v : Tree) : List (String × Tree) → List (String × Tree)
  | [] => [(k, v)]
  | (k', v') :: r => if k' = k then (k, v) :: r else (k', v') :: put k v r

/-- Gives an entry a value; what is not a table becomes one. -/
def withEntry (t : Tree) (k : String) (v : Tree) : Tree :=
  match t with
  | table o es => table o (put k v es)
  | _ => table none [(k, v)]

def elements : Tree → List Tree
  | list _ xs => xs
  | _ => []

def listOrigin : Tree → Option Origin
  | list o _ => o
  | _ => none

/-! ## Laying one source over another -/

mutual

/-- What stands after `new` was laid over what stood there: a table entry by entry, anything else as
a whole. -/
def overlay (old : Option Tree) : (new : Tree) → Tree
  | leaf o v => leaf o v
  | list o xs => list o xs
  | table _ es => overlayEntries (old.getD empty) es

/-- A part after entries were laid over it; it stays what it is if there are none. -/
def overlayEntries (target : Tree) : List (String × Tree) → Tree
  | [] => target
  | (k, v) :: r => overlayEntries (target.withEntry k (overlay (target.entry? k) v)) r

end

/-- A step from a part to one of its parts. -/
inductive Step where
  | entry (name : String)
  /-- An element; a negative place counts from the end. -/
  | element (place : Int)
deriving DecidableEq, Repr

/-- The place in a list of a given length that a possibly negative place means. -/
def placeIn (length : Nat) (place : Int) : Nat :=
  if 0 ≤ place then place.toNat else length - place.natAbs

/-- Elements with one of them replaced; missing ones before it are filled up. -/
def withElement (i : Nat) (v : Tree) (xs : List Tree) : List Tree :=
  (xs ++ List.replicate (i + 1 - xs.length) missing).set i v

/-- What stands after a value was assigned along steps: an entry is laid over, an element is
replaced. -/
def assign (value : Tree) (replace : Bool) (old : Option Tree) : List Step → Tree
  | [] => if replace then value else overlay old value
  | .entry k :: r =>
    let t := old.getD empty
    t.withEntry k (assign value false (t.entry? k) r)
  | .element i :: r =>
    let t := old.getD missing
    let i := placeIn t.elements.length i
    list t.listOrigin (withElement i (assign value true t.elements[i]? r) t.elements)

/-! ## Trees of documents -/

mutual

def ofToml (o : Origin) : Toml → Tree
  | .bool b => leaf (some o) (.flag b)
  | .integer n => leaf (some o) (.integer n)
  | .float x => leaf (some o) (.real x)
  | .string s => leaf (some o) (.text (String.ofList s))
  | .datetime s => leaf (some o) (.text (String.ofList s))
  | .array _ xs => list (some o) (ofTomlElements o xs)
  | .table _ es => table (some o) (ofTomlEntries o es)

def ofTomlElements (o : Origin) : List Toml → List Tree
  | [] => []
  | x :: xs => ofToml o x :: ofTomlElements o xs

def ofTomlEntries (o : Origin) : List (List Char × Toml) → List (String × Tree)
  | [] => []
  | (k, v) :: es => (String.ofList k, ofToml o v) :: ofTomlEntries o es

end

/-- The scalar that a JSON number stands for: a float unless it is an integer of 64 bits. -/
def ofNumber (literal : List Char) : Scalar :=
  match Text.signed64? literal with
  | some n => .integer n
  | none => .real ((Binary64.read literal).getD .nan)

mutual

/-- The tree of a JSON value; of members with the same name the last one counts. -/
def ofJson (o : Origin) : Json → Tree
  | .null => leaf (some o) .nothing
  | .bool b => leaf (some o) (.flag b)
  | .number n => leaf (some o) (ofNumber n)
  | .string s => leaf (some o) (.text (String.ofList s))
  | .array xs => list (some o) (ofJsonElements o xs)
  | .object ms => table (some o) (ofJsonMembers o ms [])

def ofJsonElements (o : Origin) : List Json → List Tree
  | [] => []
  | x :: xs => ofJson o x :: ofJsonElements o xs

/-- The trees of the members of a JSON object, put among entries. -/
def ofJsonMembers (o : Origin) : List (List Char × Json) → List (String × Tree) → List (String × Tree)
  | [], es => es
  | (k, v) :: ms, es => ofJsonMembers o ms (put (String.ofList k) (ofJson o v) es)

end

end Tree

end RateDesk
