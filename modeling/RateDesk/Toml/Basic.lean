import RateDesk.Number.Binary64

/-!
# TOML values

A table remembers how it came to be, because that decides what a later line may add to it. Main
definitions: `Toml`, `Toml.openTable` (what a header does) and `Toml.define` (what a key with a
value does).
-/

namespace RateDesk

namespace Toml

/-- How a table came to be. -/
inductive Made where
  /-- Written in braces: complete. -/
  | braces
  /-- Opened by its own header. -/
  | header
  /-- Only passed through by the header of a table inside it. -/
  | passed
  /-- Made by a dotted key. -/
  | dotted
deriving DecidableEq, Repr

end Toml

/-- A value. An array of tables that grows by headers is `growing`. Dates and times are kept as
text. -/
inductive Toml where
  | bool (b : Bool)
  | integer (n : Int)
  | float (x : Binary64)
  | string (s : List Char)
  | datetime (text : List Char)
  | array (growing : Bool) (elements : List Toml)
  | table (made : Toml.Made) (entries : List (List Char × Toml))

namespace Toml

/-- The keys of a table with their values, in the order in which they were first met. -/
abbrev Entries := List (List Char × Toml)

/-- Gives a key a value, in its place if the key is there. -/
def put (k : List Char) (v : Toml) : Entries → Entries
  | [] => [(k, v)]
  | (k', v') :: r => if k' = k then (k, v) :: r else (k', v') :: put k v r

def mapLast (f : Entries → Option Entries) : List Toml → Option (List Toml)
  | [] => none
  | [table m es] => do return [table m (← f es)]
  | [_] => none
  | x :: y :: xs => do return x :: (← mapLast f (y :: xs))

/-- Opens the table of a header and fills it by `fill`: `[a.b]`, or `[[a.b]]` where `grow` holds. No
table is opened twice. -/
def openTable (grow : Bool) (fill : Entries → Option Entries) : (path : List (List Char)) → Entries → Option Entries
  | [], _ => none
  | [k], es => do
    match es.lookup k with
    | none =>
      let inner := table .header (← fill [])
      return put k (if grow then array true [inner] else inner) es
    | some (table .passed inner) => if grow then none else return put k (table .header (← fill inner)) es
    | some (array true rows) =>
      if grow then return put k (array true (rows ++ [table .header (← fill [])])) es else none
    | _ => none
  | k :: ks, es => do
    match es.lookup k with
    | none => return put k (table .passed (← openTable grow fill ks [])) es
    | some (table .header inner) => return put k (table .header (← openTable grow fill ks inner)) es
    | some (table .passed inner) => return put k (table .passed (← openTable grow fill ks inner)) es
    | some (array true rows) => return put k (array true (← mapLast (openTable grow fill ks) rows)) es
    | _ => none

/-- Gives a dotted key a value inside a table; no key gets a value twice. -/
def define (v : Toml) : (path : List (List Char)) → Entries → Option Entries
  | [], _ => none
  | [k], es =>
    match es.lookup k with
    | none => some (put k v es)
    | some _ => none
  | k :: ks, es => do
    match es.lookup k with
    | none => return put k (table .dotted (← define v ks [])) es
    | some (table .dotted inner) => return put k (table .dotted (← define v ks inner)) es
    | _ => none

def defineAll (pairs : List (List (List Char) × Toml)) (es : Entries) : Option Entries :=
  pairs.foldlM (fun es p => define p.2 p.1 es) es

end Toml

end RateDesk
