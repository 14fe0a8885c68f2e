/-!
# Written decimal numbers

A number read from a route is kept as it was written, as a sign, its digits and a power of ten,
until somebody asks for its value in a particular arithmetic. `Decimal.toFloat` is that value in
binary floating point, correctly rounded; numbers too large for it become infinite and numbers too
small for it become zero, both without computing their huge powers of ten.
-/

namespace RailRoute

/-- A decimal number as it is written: `digits * 10 ^ exponent`, with a sign of its own so that
minus zero stays what it is. -/
structure Decimal where
  negative : Bool
  digits : Nat
  exponent : Int
  deriving DecidableEq, Repr

namespace Decimal

/-- How many fractions a floating-point number can have behind its leading bit: `2 ^ 52`. -/
def fractionCount : Nat := 0x10000000000000

/-- The binary floating-point number nearest to a magnitude `digits * 10 ^ exponent`. From
`2 ^ 1024` on every magnitude is infinite, and below `2 ^ (-1099)` every one rounds to zero; with
`8 ^ n ≤ 10 ^ n ≤ 2 ^ (3.322 * n)` the lengths of the numbers mostly tell. -/
def floatMagnitude (digits : Nat) (exponent : Int) : Float :=
  if digits = 0 then 0.0
  else match exponent with
    | .ofNat e =>
      if 310 < e ∨ 1024 ≤ Nat.log2 digits then 1.0 / 0.0 else Float.ofScientific digits false e
    | .negSucc k =>
      let places := k + 1
      if Nat.log2 digits + 1100 < 3 * places then 0.0
      else if 1000 * 1024 + 3322 * places ≤ 1000 * Nat.log2 digits then 1.0 / 0.0
      else Float.ofScientific digits true places

/-- The binary floating-point number nearest to a written number. -/
def toFloat (d : Decimal) : Float :=
  if d.negative then -floatMagnitude d.digits d.exponent else floatMagnitude d.digits d.exponent

end Decimal

end RailRoute
