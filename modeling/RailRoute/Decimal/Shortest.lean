import RailRoute.Decimal.Basic

/-!
# The shortest decimal that reads back

A finite binary floating-point number is `m * 2 ^ q`, and every real number closer to it than to its
two neighbours rounds to it; the ends of that interval do so exactly when `m` is even. The shortest
decimals inside the interval are found by testing grids of one, two, … seventeen digits: if a grid
has a point in the interval, then one of the two grid points around the number itself is such a
point. Of two hits the nearer is taken, and the greater if both are equally near. All of it is
exact arithmetic on natural numbers.
-/

namespace RailRoute.Decimal

/-- The magnitude of a finite floating-point number as `mantissa * 2 ^ exponent`, with the distance
to the next smaller number in quarters of `2 ^ exponent`, halved. -/
structure Binary where
  mantissa : Nat
  exponent : Int
  /-- Quarters of a unit from the number down to the lower end of its interval. -/
  below : Nat
  deriving DecidableEq, Repr

/-- The parts of a finite floating-point number with the given bits, its sign left aside. -/
def Binary.ofBits (bits : UInt64) : Binary :=
  let fraction : Nat := bits.toNat % fractionCount
  let field : Nat := bits.toNat / fractionCount % 2048
  if field = 0 then ⟨fraction, -1074, 2⟩
  else ⟨fractionCount + fraction, (field : Int) - 1075, if fraction = 0 ∧ 1 < field then 1 else 2⟩

/-- The interval of a number over a common denominator: `lower`, `value` and `upper` are its ends
and the number itself, in units of one part in `unit`. -/
structure Interval where
  lower : Nat
  value : Nat
  upper : Nat
  unit : Nat
  closed : Bool

/-- The interval of real numbers that round to the given one. -/
def Binary.interval (b : Binary) : Interval :=
  let scale := Nat.pow 2 (b.exponent - 2).toNat
  let m := 4 * b.mantissa
  { lower := (m - b.below) * scale
    value := m * scale
    upper := (m + 2) * scale
    unit := Nat.pow 2 (2 - b.exponent).toNat
    closed := b.mantissa % 2 = 0 }

/-- Whether `n / d` lies in the interval. -/
def Interval.contains (i : Interval) (n d : Nat) : Bool :=
  let x := n * i.unit
  if i.closed then i.lower * d ≤ x && x ≤ i.upper * d else i.lower * d < x && x < i.upper * d

/-- The number of decimal digits of a positive number. -/
def digitCount (n : Nat) : Nat := (Nat.toDigits 10 n).length

/-- The power of ten of the first significant digit of `n / d`, both positive. -/
def leadingPower (n d : Nat) : Int :=
  if d ≤ n then (digitCount (n / d) : Int) - 1
  else
    let k := digitCount (d / n) - 1
    if d ≤ n * Nat.pow 10 k then -(k : Int) else -(k + 1 : Int)

/-- The grid point `c * 10 ^ t` as a fraction. -/
def gridPoint (c : Nat) (t : Int) : Nat × Nat := (c * Nat.pow 10 t.toNat, Nat.pow 10 (-t).toNat)

/-- The better of the two points of the grid `10 ^ t` around the number that lie in its interval. -/
def gridHit? (i : Interval) (t : Int) : Option Nat :=
  let grid := Nat.pow 10 t.toNat * i.unit
  let scaled := i.value * Nat.pow 10 (-t).toNat
  let c := scaled / grid
  let inside (k : Nat) : Bool := let p := gridPoint k t; i.contains p.1 p.2
  match decide (0 < c) && inside c, inside (c + 1) with
  | true, true => if 2 * scaled < (2 * c + 1) * grid then some c else some (c + 1)
  | true, false => some c
  | false, true => some (c + 1)
  | false, false => none

/-- Tests grids from the coarsest on, `fuel` of them in all. -/
def searchGrids (i : Interval) : Nat → Int → Nat × Int
  | 0, t => (i.value, t)
  | fuel + 1, t =>
    match gridHit? i t with
    | some c => (c, t)
    | none => searchGrids i fuel (t - 1)

/-- Strips the zeros at the end of a number and counts them in the exponent; `fuel` bounds their
number. -/
def stripZeros : Nat → Nat → Int → Nat × Int
  | 0, c, t => (c, t)
  | fuel + 1, c, t => if c ≠ 0 ∧ c % 10 = 0 then stripZeros fuel (c / 10) (t + 1) else (c, t)

/-- The shortest digits `c` and exponent `t` with `c * 10 ^ t` reading back as the finite number
with the given bits, its sign left aside. No zero ends the digits; zero itself has digits 0. -/
def shortest (bits : UInt64) : Nat × Int :=
  let b := Binary.ofBits bits
  if b.mantissa = 0 then (0, 0)
  else
    let i := b.interval
    let hit := searchGrids i 17 (leadingPower i.value i.unit)
    stripZeros 20 hit.1 hit.2

end RailRoute.Decimal
