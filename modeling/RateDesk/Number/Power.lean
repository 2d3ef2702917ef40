/-!
# Powers of two and of ten

The units of binary and of decimal notation. Main definitions: `twoPow`, `tenPow`.
-/

namespace RateDesk

/-- One followed by `n` binary zeros. -/
abbrev twoPow (n : Nat) : Nat := Nat.pow 2 n

/-- One followed by `n` decimal zeros. -/
abbrev tenPow (n : Nat) : Nat := Nat.pow 10 n

end RateDesk
