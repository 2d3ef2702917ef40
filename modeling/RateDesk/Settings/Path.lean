import RateDesk.Settings.Tree
import RateDesk.Text.Cut
import RateDesk.Text.Numeral

/-!
# Paths into a configuration

A key of a source may be a path such as `platforms[0].name`; one that is not is a plain name. Main
definitions: `readPath`, `Tree.assignAll`.
-/

namespace RateDesk

namespace Tree

open Text

def isNameChar (c : Char) : Bool := c.isAlphanum || c == ' ' || c == '_' || c == '-'

/-- The steps that follow a name: `.name` and `[place]`, with blanks allowed around a place. -/
def readSteps : (fuel : Nat) → List Char → Option (List Step)
  | _, [] => some []
  | 0, _ => none
  | fuel + 1, '.' :: r => do
    let name := r.takeWhile isNameChar
    if name.isEmpty then none
    else return .entry (String.ofList name) :: (← readSteps fuel (r.dropWhile isNameChar))
  | fuel + 1, '[' :: r => do
    let isSpace (c : Char) : Bool := c == ' ' || c == '\t'
    let (inside, rest) ← cutAt ']' r
    let numeral := dropTrailing isSpace (inside.dropWhile isSpace)
    match numeral with
    | '+' :: _ => none
    | _ =>
      let place ← signed64? numeral
      return .element place :: (← readSteps fuel rest)
  | _, _ => none

def readPath (s : List Char) : Option (List Step) := do
  let name := s.takeWhile isNameChar
  if name.isEmpty then none
  else return .entry (String.ofList name) :: (← readSteps s.length (s.dropWhile isNameChar))

def stepsOf (key : String) : List Step := (readPath key.toList).getD [.entry key]

/-- A tree after the entries of a source were assigned along the paths that their keys mean. -/
def assignAll (t : Tree) (entries : List (String × Tree)) : Tree :=
  entries.foldl (fun t (k, v) => assign v false (some t) (stepsOf k)) t

end Tree

end RateDesk
