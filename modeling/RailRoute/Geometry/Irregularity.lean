import RailRoute.Scalar

/-!
# Irregularity of the track

Real track is never quite straight. The deviation at a position is a sum of sine waves whose periods
do not fit together, and it grows with the level of inaccuracy.
-/

namespace RailRoute

/-- How far the track deviates to the side and upward, and by how much it is canted beyond its
cant. -/
structure Irregularity (R : Type) where
  x : R
  y : R
  cant : R
  deriving DecidableEq, Repr

namespace Irregularity

variable {R : Type} [Scalar R]

/-- A sum of three waves, given by their amplitudes and frequencies in ten-thousandths. -/
def waves (z : R) (a₁ f₁ a₂ f₂ a₃ f₃ : Nat) : R :=
  Scalar.fixed a₁ 2 * Scalar.sin (Scalar.fixed f₁ 4 * z) +
    Scalar.fixed a₂ 2 * Scalar.sin (Scalar.fixed f₂ 4 * z) +
    Scalar.fixed a₃ 2 * Scalar.sin (Scalar.fixed f₃ 4 * z)

/-- The irregularity at a position for a level of inaccuracy. Track of level zero is perfect. -/
def atPosition (position accuracy : R) : Irregularity R :=
  if accuracy ≤ 0 then ⟨0, 0, 0⟩
  else
    let z := Scalar.pow (Scalar.fixed 25 2 * accuracy) (Scalar.fixed 12 1) * position
    { x := waves z 14 5843 82 2246 55 1974 * Scalar.fixed 35 4 * accuracy
      y := waves z 18 5172 37 3251 91 3773 * Scalar.fixed 20 4 * accuracy
      cant := waves z 23 3131 54 5807 81 3621 * Scalar.fixed 25 4 * accuracy }

/-- The mean of two irregularities with the weights `1 - t` and `t`. -/
def blend (a b : Irregularity R) (t : R) : Irregularity R :=
  { x := (1 - t) * a.x + t * b.x
    y := (1 - t) * a.y + t * b.y
    cant := (1 - t) * a.cant + t * b.cant }

end Irregularity

end RailRoute
