import RateDesk.Decimal.Basic
import RateDesk.Number.Round
import RateDesk.Text.Blank
import RateDesk.Text.Cut
import RateDesk.Text.Numeral

/-!
# Decimals in writing

`Decimal.print` writes exactly `scale` fraction digits. `Decimal.read` accepts plain notation
(`-12.50`, with `_` after a digit) and, where that fails, scientific notation (`1.5e3`). Digits
beyond the 28th fraction digit, or beyond 96 bits after the point, are cut off after one rounding.
-/

namespace RateDesk.Decimal

open Text

inductive ReadError where
  | empty
  | noDigits
  | unknownCharacter
  | twoPoints
  | leadingSeparator
  | tooManyDigits
  | overflowAfterRounding
  | malformed
  | scaleTooLarge (scale : Nat)
  | tooLarge
deriving DecidableEq, Repr

def ReadError.message : ReadError → String
  | empty => "Invalid decimal: empty"
  | noDigits => "Invalid decimal: no digits found"
  | unknownCharacter => "Invalid decimal: unknown character"
  | twoPoints => "Invalid decimal: two decimal points"
  | leadingSeparator => "Invalid decimal: must start lead with a number"
  | tooManyDigits => "Invalid decimal: overflow from too many digits"
  | overflowAfterRounding => "Invalid decimal: overflow from mantissa after rounding"
  | malformed => "Failed to parse"
  | scaleTooLarge n => "Scale exceeds the maximum precision allowed: " ++ toString n ++ " > 28"
  | tooLarge => "Number exceeds maximum value that can be represented."

/-! ## Printing -/

/-- The digits of a coefficient with a point before the last `scale` of them. -/
def printMagnitude (m scale : Nat) : List Char :=
  let ds := padded (scale + 1) m
  if scale = 0 then ds else ds.take (ds.length - scale) ++ '.' :: ds.drop (ds.length - scale)

def print (x : Decimal) : List Char :=
  let ds := printMagnitude x.coeff.natAbs x.scale
  if x.coeff < 0 then '-' :: ds else ds

instance : ToString Decimal := ⟨fun x => String.ofList x.print⟩

/-! ## Plain notation -/

/-- What is wrong with a character that is neither expected digit, point nor separator. -/
def stray (c : Char) : ReadError :=
  if c = '.' then .twoPoints else if c = '_' then .leadingSeparator else .unknownCharacter

/-- The first character that is neither a digit nor a separator, as an error. -/
def checkRest : List Char → Except ReadError Unit
  | [] => .ok ()
  | c :: r => if isDigit c ∨ c = '_' then checkRest r else .error (stray c)

/-- The digit that decides a rounding: the first character, or the second one after a separator;
zero where that is a separator too or nothing is left. -/
def roundingDigit : List Char → Except ReadError Nat
  | [] => .ok 0
  | ['_'] => .ok 0
  | '_' :: c :: _ => match digit? c with
    | some d => .ok d
    | none => if c = '_' then .ok 0 else .error (stray c)
  | c :: _ => match digit? c with
    | some d => .ok d
    | none => .error (stray c)

/-- Ends a number of which no further digit can be kept: one digit of the rest decides the rounding,
the others only have to be digits. -/
def roundOff (m scale : Nat) (r : List Char) : Except ReadError (Nat × Nat) := do
  let d ← roundingDigit r
  checkRest r
  if d < 5 then return (m, scale)
  else if m + 1 < coeffBound then return (m + 1, scale)
  else if scale = 0 then .error .overflowAfterRounding
  else return ((m + 5) / 10, scale - 1)

/-- Reads coefficient and scale of an unsigned number. `point` tells that the point was read, `seen`
that a digit was. -/
def readMagnitude (point seen : Bool) (m scale : Nat) : List Char → Except ReadError (Nat × Nat)
  | [] => if seen then .ok (m, scale) else .error .noDigits
  | c :: r =>
    if point ∧ maxScale ≤ scale then roundOff m scale (c :: r)
    else
      match digit? c with
      | some d =>
        if m * 10 + d < coeffBound then
          readMagnitude point true (m * 10 + d) (if point then scale + 1 else scale) r
        else if point then roundOff m scale (c :: r)
        else .error .tooManyDigits
      | none =>
        if c = '.' ∧ !point then readMagnitude true seen m scale r
        else if c = '_' ∧ seen then readMagnitude point seen m scale r
        else .error (stray c)

def ofMagnitude (negative : Bool) (x : Nat × Nat) : Except ReadError Decimal :=
  match of? (if negative then -(x.1 : Int) else x.1) x.2 with
  | some z => .ok z
  | none => .error .tooManyDigits

def readPlain : List Char → Except ReadError Decimal
  | [] => .error .empty
  | '-' :: r => readMagnitude false false 0 0 r >>= ofMagnitude true
  | '+' :: r => readMagnitude false false 0 0 r >>= ofMagnitude false
  | s => readMagnitude false false 0 0 s >>= ofMagnitude false

/-! ## Scientific notation -/

/-- A decimal divided by `10 ^ e`; digits beyond the 28th fraction digit are rounded off, a half
going away from zero. -/
def shiftDown (x : Decimal) (e : Nat) : Except ReadError Decimal :=
  if maxScale < e then .error (.scaleTooLarge e)
  else if x.scale + e ≤ maxScale then ofMagnitude (x.coeff < 0) (x.coeff.natAbs, x.scale + e)
  else ofMagnitude (x.coeff < 0) (roundHalfUp x.coeff.natAbs (tenPow (x.scale + e - maxScale)), maxScale)

/-- A decimal multiplied by `10 ^ e`: fraction digits are used up first, zeros are appended then. -/
def shiftUp (x : Decimal) (e : Nat) : Except ReadError Decimal :=
  if e ≤ x.scale then ofMagnitude (x.coeff < 0) (x.coeff.natAbs, x.scale - e)
  else if maxScale < e then .error (.scaleTooLarge e)
  else
    match of? (x.coeff * tenPow (e - x.scale)) 0 with
    | some z => .ok z
    | none => .error .tooLarge

/-- The natural number below `2 ^ 32` that an exponent's digits denote. -/
def readExponent (s : List Char) : Except ReadError Nat :=
  match unsigned? (twoPow 32) s with
  | some n => .ok n
  | none => .error .malformed

def readScientific (s : List Char) : Except ReadError Decimal :=
  match cutWhere (fun c => c == 'e' || c == 'E') s with
  | none => .error .malformed
  | some (mantissa, exponent) => do
    let x ← readPlain mantissa
    match exponent with
    | '-' :: r => shiftDown x (← readExponent r)
    | r => shiftUp x (← readExponent r)

/-- Reads a decimal in plain or scientific notation; the error is that of the scientific reading. -/
def read (s : List Char) : Except ReadError Decimal :=
  match readPlain s with
  | .ok x => .ok x
  | .error _ => readScientific s

end RateDesk.Decimal
