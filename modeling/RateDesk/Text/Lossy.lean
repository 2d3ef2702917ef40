/-!
# Reading damaged text

`decodeLossy` reads bytes as UTF-8, or as UTF-16 if they begin with its byte order mark, and puts
the replacement character in place of every piece that is neither: a byte that cannot begin a
character, the longest beginning of a character that breaks off, half of a surrogate pair.
-/

namespace RateDesk.Text

abbrev replacement : Char := '\ufffd'

/-- A character that has begun: the bytes still to come, the bits so far, and the range of the next
byte. -/
structure Partial where
  missing : Nat
  bits : Nat
  low : Nat
  high : Nat
deriving DecidableEq, Repr

/-- What a first byte begins: a whole character, a part of one, or damage. -/
def firstByte (b : Nat) : Option Char × Option Partial :=
  if b < 0x80 then (some (Char.ofNat b), none)
  else if 0xC2 ≤ b ∧ b ≤ 0xDF then (none, some ⟨1, b - 0xC0, 0x80, 0xBF⟩)
  else if 0xE0 ≤ b ∧ b ≤ 0xEF then
    (none, some ⟨2, b - 0xE0, if b = 0xE0 then 0xA0 else 0x80, if b = 0xED then 0x9F else 0xBF⟩)
  else if 0xF0 ≤ b ∧ b ≤ 0xF4 then
    (none, some ⟨3, b - 0xF0, if b = 0xF0 then 0x90 else 0x80, if b = 0xF4 then 0x8F else 0xBF⟩)
  else (some replacement, none)

/-- Reads bytes after a character that may have begun. -/
def decodeFrom (begun : Option Partial) : List UInt8 → List Char
  | [] => if begun.isSome then [replacement] else []
  | b :: r =>
    match begun with
    | none =>
      let (c, p) := firstByte b.toNat
      c.toList ++ decodeFrom p r
    | some p =>
      if p.low ≤ b.toNat ∧ b.toNat ≤ p.high then
        let bits := p.bits * 64 + (b.toNat - 0x80)
        if p.missing = 1 then Char.ofNat bits :: decodeFrom none r
        else decodeFrom (some ⟨p.missing - 1, bits, 0x80, 0xBF⟩) r
      else
        let (c, p) := firstByte b.toNat
        replacement :: c.toList ++ decodeFrom p r

/-! ## Units of 16 bits -/

/-- The units that pairs of bytes make, given how a pair is put together; a byte left over makes
half a surrogate pair. -/
def units (join : Nat → Nat → Nat) : List UInt8 → List Nat
  | [] => []
  | [_] => [0xDC00]
  | a :: b :: r => join a.toNat b.toNat :: units join r

def isHigh (u : Nat) : Bool := decide (0xD800 ≤ u ∧ u < 0xDC00)

def isLow (u : Nat) : Bool := decide (0xDC00 ≤ u ∧ u < 0xE000)

/-- Reads units after the first half of a surrogate pair, if one is waiting for its second. -/
def decodeUnits (high : Option Nat) : List Nat → List Char
  | [] => if high.isSome then [replacement] else []
  | u :: r =>
    match high with
    | some h =>
      if isLow u then Char.ofNat (0x10000 + (h - 0xD800) * 1024 + (u - 0xDC00)) :: decodeUnits none r
      else replacement ::
        if isHigh u then decodeUnits (some u) r else Char.ofNat u :: decodeUnits none r
    | none =>
      if isHigh u then decodeUnits (some u) r
      else (if isLow u then replacement else Char.ofNat u) :: decodeUnits none r

/-! ## Any bytes -/

/-- The text of bytes, damage replaced; a byte order mark before it tells the encoding and is
dropped. -/
def decodeLossy : List UInt8 → List Char
  | 0xEF :: 0xBB :: 0xBF :: r => decodeFrom none r
  | 0xFE :: 0xFF :: r => decodeUnits none (units (fun a b => a * 256 + b) r)
  | 0xFF :: 0xFE :: r => decodeUnits none (units (fun a b => b * 256 + a) r)
  | r => decodeFrom none r

end RateDesk.Text
