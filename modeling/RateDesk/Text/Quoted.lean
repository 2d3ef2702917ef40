import RateDesk.Text.Numeral

/-!
# Quoted texts

`quoted` puts a text between double quotes for an error message: quotes and backslashes are escaped,
and so are the characters that would not show (`unprintable`).
-/

namespace RateDesk.Text

/-- Ranges of control, format, private and combining characters, and of blanks other than the
ordinary one. -/
def unprintableRanges : List (Nat × Nat) :=
  [(0x0, 0x1F), (0x7F, 0xA0), (0xAD, 0xAD), (0x300, 0x36F), (0x483, 0x489), (0x591, 0x5BD), (0x600, 0x605),
   (0x610, 0x61A), (0x61C, 0x61C), (0x64B, 0x65F), (0x6DD, 0x6DD), (0x70F, 0x70F), (0x890, 0x891), (0x8E2, 0x8E2),
   (0x1680, 0x1680), (0x180E, 0x180E), (0x1AB0, 0x1ACE), (0x1DC0, 0x1DFF), (0x2000, 0x200F), (0x2028, 0x202F),
   (0x205F, 0x206F), (0x20D0, 0x20F0), (0x3000, 0x3000), (0xD800, 0xF8FF), (0xFE00, 0xFE0F), (0xFE20, 0xFE2F),
   (0xFEFF, 0xFEFF), (0xFFF0, 0xFFFB), (0xFFFE, 0xFFFF), (0x110BD, 0x110BD), (0x110CD, 0x110CD), (0x13430, 0x1343F),
   (0x1BCA0, 0x1BCA3), (0x1D173, 0x1D17A), (0xE0000, 0x10FFFF)]

/-- Whether a character is escaped because it would not show. -/
def unprintable (c : Char) : Bool := unprintableRanges.any fun (a, b) => a ≤ c.toNat && c.toNat ≤ b

def hexDigit (n : Nat) : Char := if n < 10 then digitChar n else Char.ofNat ('a'.toNat + (n - 10))

/-- A number in at least `width` hexadecimal digits; `width` up to eight. -/
def hex (width n : Nat) : List Char :=
  let ds := (List.range 8).reverse.map fun i => hexDigit (n / twoPow (4 * i) % 16)
  let significant := ds.dropWhile (· == '0')
  List.replicate (width - significant.length) '0' ++ significant

def quotedChar (c : Char) : List Char :=
  if c = '"' then ['\\', '"']
  else if c = '\\' then ['\\', '\\']
  else if c = '\t' then ['\\', 't']
  else if c = '\n' then ['\\', 'n']
  else if c = '\r' then ['\\', 'r']
  else if c.toNat = 0 then ['\\', '0']
  else if unprintable c then ['\\', 'u', '\x7b'] ++ hex 1 c.toNat ++ ['\x7d']
  else [c]

def quoted (s : List Char) : List Char := '"' :: s.flatMap quotedChar ++ ['"']

end RateDesk.Text
