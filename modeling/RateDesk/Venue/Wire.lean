/-!
# Lines of a byte stream

A connection delivers bytes in pieces of any size; what counts is lines. Main definitions:
`cutLines`, `dropReturn`, `lineText?`.
-/

namespace RateDesk.Wire

/-- The whole lines at the start of a stream of bytes, without their line feeds, and the bytes after
the last one. -/
def cutLines : List UInt8 → List (List UInt8) × List UInt8
  | [] => ([], [])
  | b :: r =>
    let (lines, rest) := cutLines r
    if b = 10 then ([] :: lines, rest)
    else
      match lines with
      | [] => ([], b :: rest)
      | l :: ls => ((b :: l) :: ls, rest)

/-- A whole line without a carriage return at its end. -/
def dropReturn (line : List UInt8) : List UInt8 :=
  match line.reverse with
  | 13 :: r => r.reverse
  | _ => line

def lineText? (line : List UInt8) : Option (List Char) :=
  (String.fromUTF8? ⟨line.toArray⟩).map String.toList

end RateDesk.Wire
