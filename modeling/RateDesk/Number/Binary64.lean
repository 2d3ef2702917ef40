import RateDesk.Number.Round
import RateDesk.Text.Numeral

/-!
# Binary floating point

The numbers of IEEE 754 double precision in exact arithmetic: `± m * 2 ^ q` with `m` below `2 ^ 53`.
Main definitions: `ofBits`, `nearest` (the number nearest to a quotient), `read`, `print` (the
fewest digits that read back, never with an exponent) and `toNat64` (rounding to 64 bits).
-/

namespace RateDesk

/-- A floating-point number in double precision. -/
inductive Binary64 where
  | nan
  | infinite (negative : Bool)
  /-- The number `± m * 2 ^ q`. -/
  | finite (negative : Bool) (m : Nat) (q : Int)
deriving DecidableEq, Repr

namespace Binary64

open Text

abbrev minExp : Int := -1074

abbrev maxExp : Int := 971

def zero (negative : Bool) : Binary64 := .finite negative 0 minExp

/-- `m` with a factor `2 ^ q` applied to the numerator or the denominator of a quotient. -/
def timesTwo (q : Int) (x : Nat × Nat) : Nat × Nat :=
  if 0 ≤ q then (x.1 * twoPow q.toNat, x.2) else (x.1, x.2 * twoPow (-q).toNat)

/-- The number nearest to `num / den`, a half going to the even neighbour. -/
def nearest (negative : Bool) (num den : Nat) : Binary64 :=
  if num = 0 then zero negative
  else
    let scaled (q : Int) : Nat × Nat := timesTwo (-q) (num, den)
    let q : Int := (num.log2 : Int) - den.log2 - 53
    let q := if (scaled q).1 / (scaled q).2 < twoPow 53 then q else q + 1
    let q := max q minExp
    let m := roundHalfEven (scaled q).1 (scaled q).2
    let (m, q) := if m = twoPow 53 then (twoPow 52, q + 1) else (m, q)
    if maxExp < q then .infinite negative else .finite negative m q

/-- The whole number `n`, rounded where it needs more than 53 bits. -/
def ofInt (n : Int) : Binary64 := nearest (n < 0) n.natAbs 1

/-- A number from its sign, exponent and fraction fields, `bits` wide in the fraction. -/
def ofFields (negative : Bool) (exponent fraction bits maxExponent : Nat) (bias : Int) : Binary64 :=
  if exponent = maxExponent then
    if fraction = 0 then .infinite negative else .nan
  else
    let (m, e) := if exponent = 0 then (fraction, 1) else (twoPow bits + fraction, exponent)
    let q : Int := e - bias - bits
    let (num, den) := timesTwo q (m, 1)
    nearest negative num den

def ofBits (n : Nat) : Binary64 :=
  ofFields (n / twoPow 63 % 2 = 1) (n / twoPow 52 % twoPow 11) (n % twoPow 52) 52 2047 1023

def ofBits32 (n : Nat) : Binary64 :=
  ofFields (n / twoPow 31 % 2 = 1) (n / twoPow 23 % twoPow 8) (n % twoPow 23) 23 255 127

/-! ## Shortest digits -/

/-- The first grid of decimal numbers, from step `10 ^ k` downwards, that meets the numbers which
round to `x * 2 ^ q / 4`: the coefficient on the grid and its exponent. The interval runs from `lo`
to `hi` in the same unit and is closed when `closed` holds. -/
def shortestFrom (x lo hi : Nat) (closed : Bool) (q : Int) : (fuel : Nat) → (k : Int) → Nat × Int
  | 0, k => (0, k)
  | fuel + 1, k =>
    let unit := timesTwo (q - 2) (1, 1)
    let step : Nat × Nat := if 0 ≤ k then (tenPow k.toNat, 1) else (1, tenPow (-k).toNat)
    let side (y : Nat) : Nat := y * unit.1 * step.2
    let grid (d : Nat) : Nat := d * step.1 * unit.2
    let inside (d : Nat) : Bool :=
      if closed then side lo ≤ grid d && grid d ≤ side hi else side lo < grid d && grid d < side hi
    let d := side x / grid 1
    let below := side x - grid d
    let above := grid (d + 1) - side x
    if inside d && d != 0 && (!inside (d + 1) || below < above) then (d, k)
    else if inside (d + 1) then (d + 1, k)
    else shortestFrom x lo hi closed q fuel (k - 1)

/-- The fewest digits that read back as `m * 2 ^ q`, the nearest of them (of two the larger), with
their power of ten. -/
def shortest (m : Nat) (q : Int) : Nat × Int :=
  let x := 4 * m
  let lo := if m = twoPow 52 ∧ minExp < q then x - 1 else x - 2
  let (num, den) := timesTwo q (m, 1)
  let k : Int := if num < den then 0 else (printNat (num / den)).length
  shortestFrom x lo (x + 2) (m % 2 = 0) q (k.toNat + 400) k

/-- A coefficient times a power of ten in plain notation. -/
def printPlain (d : Nat) (k : Int) : List Char :=
  if 0 ≤ k then printNat d ++ List.replicate k.toNat '0'
  else
    let places := (-k).toNat
    let ds := padded (places + 1) d
    ds.take (ds.length - places) ++ '.' :: ds.drop (ds.length - places)

/-- The fewest digits that read back, in plain notation; a whole number has no point. -/
def print : Binary64 → List Char
  | nan => "NaN".toList
  | infinite negative => if negative then "-inf".toList else "inf".toList
  | finite negative m q =>
    let ds := if m = 0 then ['0'] else let (d, k) := shortest m q; printPlain d k
    if negative then '-' :: ds else ds

/-! ## Reading -/

def lower (s : List Char) : List Char := s.map Char.toLower

/-- The digits before and after an optional point. -/
def readSignificand (s : List Char) : Option (List Char × List Char × List Char) :=
  let whole := s.takeWhile isDigit
  let r := s.dropWhile isDigit
  let (fraction, r) := match r with
    | '.' :: r => (r.takeWhile isDigit, r.dropWhile isDigit)
    | r => ([], r)
  if whole.isEmpty && fraction.isEmpty then none else some (whole, fraction, r)

/-- The exponent that ends a number, zero where none is written. -/
def readExponent : List Char → Option Int
  | [] => some 0
  | c :: r =>
    if c = 'e' ∨ c = 'E' then
      match r with
      | '-' :: r => (numeral? r).map fun n => -(n : Int)
      | '+' :: r => (numeral? r).map Int.ofNat
      | r => (numeral? r).map Int.ofNat
    else none

/-- Reads a number without its sign: digits with an optional point and exponent, or a word for
infinity or for no number. -/
def readUnsigned (negative : Bool) (s : List Char) : Option Binary64 :=
  let word := lower s
  if word = "inf".toList ∨ word = "infinity".toList then some (.infinite negative)
  else if word = "nan".toList then some .nan
  else do
    let (whole, fraction, r) ← readSignificand s
    let e ← readExponent r
    let n := ofDigits 0 (← digits? (whole ++ fraction))
    let e := e - fraction.length
    if n = 0 then return zero negative
    else if 310 < (printNat n).length + e then return .infinite negative
    else if (printNat n).length + e < -340 then return zero negative
    else if 0 ≤ e then return nearest negative (n * tenPow e.toNat) 1
    else return nearest negative n (tenPow (-e).toNat)

def read : List Char → Option Binary64
  | '-' :: r => readUnsigned true r
  | '+' :: r => readUnsigned false r
  | r => readUnsigned false r

/-! ## Rounding to integers -/

/-- The nearest integer, a half going away from zero, forced into the range of 64 unsigned bits;
zero for no number. -/
def toNat64 : Binary64 → Nat
  | nan => 0
  | infinite negative => if negative then 0 else twoPow 64 - 1
  | finite negative m q =>
    if negative then 0
    else
      let (num, den) := timesTwo q (m, 1)
      min (roundHalfUp num den) (twoPow 64 - 1)

end Binary64

end RateDesk
