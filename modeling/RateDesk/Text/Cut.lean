/-!
# Cutting texts at marks

Main definitions: `cutWhere` and `cutAt` (before and after the first mark), `fields` (all pieces
between marks), `afterPrefix?`, `dropTrailing`, `replacePair`.
-/

namespace RateDesk.Text

/-- What stands before and after the first character of a class, if there is one. -/
def cutWhere (p : Char → Bool) : List Char → Option (List Char × List Char)
  | [] => none
  | c :: r => if p c then some ([], r) else (cutWhere p r).map fun (a, b) => (c :: a, b)

/-- What stands before and after the first `mark`, if there is one. -/
def cutAt (mark : Char) (s : List Char) : Option (List Char × List Char) := cutWhere (· == mark) s

/-- The pieces between the marks, one more than there are marks. -/
def fields (mark : Char) : List Char → List (List Char)
  | [] => [[]]
  | c :: r =>
    if c = mark then [] :: fields mark r
    else
      match fields mark r with
      | [] => [[c]]
      | f :: fs => (c :: f) :: fs

def afterPrefix? : (head s : List Char) → Option (List Char)
  | [], s => some s
  | _ :: _, [] => none
  | h :: hs, c :: cs => if h = c then afterPrefix? hs cs else none

/-- A text without the trailing characters of a class. -/
def dropTrailing (p : Char → Bool) (s : List Char) : List Char := (s.reverse.dropWhile p).reverse

/-- Every occurrence of a two-character mark replaced by one character, from the left. -/
def replacePair (a b by' : Char) : List Char → List Char
  | c :: d :: r => if c = a ∧ d = b then by' :: replacePair a b by' r else c :: replacePair a b by' (d :: r)
  | s => s

end RateDesk.Text
