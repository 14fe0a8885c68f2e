import RailRoute.Decimal.Basic

/-!
# The arithmetic of a route

Positions, lengths and angles are computed in an arithmetic that is left open: everything from
reading a number to moving along the track is written for a type `R` with the operations of
`Scalar`. Binary floating point is the instance that runs. The operations are the few that the
compiler needs, so an exact ordered field with its trigonometric functions is an instance as well.
-/

namespace RailRoute

/-- The numbers a route is computed with. -/
class Scalar (R : Type) extends Zero R, One R, Add R, Sub R, Mul R, Div R, Neg R, LT R, LE R,
    BEq R where
  decLt : DecidableLT R
  decLe : DecidableLE R
  /-- The number nearest to a written one. -/
  ofDecimal : Decimal → R
  /-- The number nearest to a natural number. -/
  ofNat : Nat → R
  /-- The greatest natural number not above the argument, and 0 if there is none. -/
  floorNat : R → Nat
  /-- The integer part, toward zero. -/
  truncInt : R → Int
  /-- Whether the number has no fractional part. -/
  isIntegral : R → Bool
  abs : R → R
  sqrt : R → R
  sin : R → R
  cos : R → R
  atan : R → R
  pow : R → R → R
  /-- One degree in radians. -/
  degree : R

namespace Scalar

variable {R : Type} [Scalar R]

instance (a b : R) : Decidable (a < b) := decLt a b

instance (a b : R) : Decidable (a ≤ b) := decLe a b

/-- The number written with the given digits, the last `places` of them behind the point. -/
def fixed (digits places : Nat) : R :=
  ofDecimal ⟨false, digits, -(places : Int)⟩

/-- The number two. -/
def two : R := ofNat 2

/-- One half. -/
def half : R := fixed 5 1

/-- The greater of two numbers. Of two equal ones it is the first, and what is not a number loses
against everything. -/
def max (a b : R) : R :=
  if b ≤ a then a else if b == b then b else a

/-- The lesser of two numbers, with the conventions of `max`. -/
def min (a b : R) : R :=
  if a ≤ b then a else if b == b then b else a

/-- The sign of a number: one, minus one or zero. -/
def sign (x : R) : R :=
  if 0 < x then 1 else if x < 0 then -1 else 0

/-- An angle given in degrees, in radians. -/
def radians (x : R) : R := x * degree

/-- Lengths below this bound count as zero when a vector is normalized. -/
def epsilon : R := 1 / ofNat Decimal.fractionCount

/-- The order in which positions are sorted: what is not a number comes last and ties with
itself. -/
def sortsBefore (a b : R) : Bool :=
  decide (a ≤ b) || !(b == b)

end Scalar

/-- Whether a floating-point number has no fractional part. From `2 ^ 62` on none has one. -/
def floatIsIntegral (x : Float) : Bool :=
  if x.abs < 4611686018427387904.0 then x.toInt64.toFloat == x else x.abs < 1.0 / 0.0

instance : Scalar Float where
  zero := 0.0
  one := 1.0
  decLt := inferInstance
  decLe := inferInstance
  ofDecimal := Decimal.toFloat
  ofNat := Float.ofNat
  floorNat x := x.toUInt64.toNat
  truncInt x := x.toInt64.toInt
  isIntegral := floatIsIntegral
  abs := Float.abs
  sqrt := Float.sqrt
  sin := Float.sin
  cos := Float.cos
  atan := Float.atan
  pow := Float.pow
  degree := 3.141592653589793 / 180.0

end RailRoute
