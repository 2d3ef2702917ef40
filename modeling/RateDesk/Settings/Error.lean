import RateDesk.Failure
import RateDesk.Settings.Tree
import RateDesk.Settings.Validation
import RateDesk.Text.Quoted

/-!
# Why settings cannot be used

Main definitions: `SettingsError`, `SettingsError.message`, and `printKey`, the written form of the
place of a value.
-/

namespace RateDesk

open Text

/-! ## Places -/

/-- A step on the way to a value: a field of a record or an element of a list. -/
inductive KeySegment where
  | field (name : String)
  | element (index : Nat)
deriving DecidableEq, Repr

/-- The written form of a place: an index in brackets, and a point between a field and a field
directly in it. -/
def printKey : List KeySegment → String
  | [] => ""
  | .element i :: r => "[" ++ toString i ++ "]" ++ printKey r
  | .field n :: .field m :: r => n ++ "." ++ printKey (.field m :: r)
  | .field n :: r => n ++ printKey r

/-! ## Found values -/

/-- A float with a point even if it is whole. -/
def printPointed (x : Binary64) : List Char :=
  match x with
  | .finite .. => if '.' ∈ x.print then x.print else x.print ++ ['.', '0']
  | _ => x.print

/-- The words for a scalar that stands where a record or a list is expected. -/
def Scalar.describe : Scalar → String
  | nothing => "unit value"
  | flag b => "boolean `" ++ (if b then "true" else "false") ++ "`"
  | integer n => "integer `" ++ String.ofList (printInt n) ++ "`"
  | real x => "floating point `" ++ String.ofList (printPointed x) ++ "`"
  | text s => "string " ++ String.ofList (quoted s.toList)

def Tree.describe : Tree → String
  | leaf _ v => v.describe
  | list .. => "sequence"
  | table .. => "map"

/-! ## Errors -/

inductive SettingsError where
  | noSuchFile (name : String)
  | unknownFormat (name : String)
  /-- The text of a file is not of its format. -/
  | malformed (name : String)
  /-- A value that cannot be converted, where it is and where it comes from. -/
  | unconvertible (found expected : String) (key : List KeySegment) (origin : Option Origin)
  /-- A record or a list is expected. -/
  | misshapen (found expected : String)
  /-- A list stands for a record and has too few elements. -/
  | tooShort (length : Nat) (expected : String)
  | missingField (name : String)
  | invalid (v : Violation)
deriving DecidableEq, Repr

namespace SettingsError

/-- The error with a step put in front of its place. -/
def within (s : KeySegment) : SettingsError → SettingsError
  | unconvertible f e key o => unconvertible f e (s :: key) o
  | e => e

def message : SettingsError → String
  | noSuchFile n => "configuration file \"" ++ n ++ "\" not found"
  | unknownFormat n => "configuration file \"" ++ n ++ "\" is not of a registered file format"
  | malformed n => "malformed text in " ++ n
  | unconvertible f e key o =>
    "invalid type: " ++ f ++ ", expected " ++ e ++ (if key.isEmpty then "" else " for key `" ++ printKey key ++ "`") ++
      match o with
      | some o => " in " ++ o.describe
      | none => ""
  | misshapen f e => "invalid type: " ++ f ++ ", expected " ++ e
  | tooShort n e => "invalid length " ++ toString n ++ ", expected " ++ e
  | missingField n => "missing field `" ++ n ++ "`"
  | invalid v => v.message

def toFailure (e : SettingsError) : Failure := .config e.message

end SettingsError

end RateDesk
