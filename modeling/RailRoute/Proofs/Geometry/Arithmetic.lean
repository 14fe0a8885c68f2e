import Mathlib
import RailRoute.Proofs.Arithmetic

/-!
# Laws of geometry

Exact arithmetic serves geometry if its square roots are exact and its angles obey the double-angle
formulas. Real numbers do.
-/

namespace RailRoute

/-- Exact arithmetic with the laws of geometry. -/
class GeometricScalar (R : Type) extends ExactScalar R where
  sqrt_nonneg : ∀ x : R, 0 ≤ x → 0 ≤ Scalar.sqrt x
  sqrt_mul_sqrt : ∀ x : R, 0 ≤ x → Scalar.sqrt x * Scalar.sqrt x = x
  cos_mul_cos_add_sin_mul_sin : ∀ a : R,
    Scalar.cos a * Scalar.cos a + Scalar.sin a * Scalar.sin a = 1
  cos_two_mul : ∀ a : R,
    Scalar.cos (2 * a) = Scalar.cos a * Scalar.cos a - Scalar.sin a * Scalar.sin a
  sin_two_mul : ∀ a : R, Scalar.sin (2 * a) = 2 * Scalar.sin a * Scalar.cos a

namespace GeometricScalar

variable {R : Type} [GeometricScalar R]

theorem sqrt_mul_self {x : R} (hx : 0 ≤ x) : Scalar.sqrt (x * x) = x := by
  have square : 0 ≤ x * x := mul_self_nonneg x
  exact (mul_self_inj (sqrt_nonneg _ square) hx).1 (sqrt_mul_sqrt _ square)

theorem one_add_mul_self_pos (p : R) : 0 < 1 + p * p :=
  add_pos_of_pos_of_nonneg one_pos (mul_self_nonneg p)

theorem one_le_sqrt (p : R) : 1 ≤ Scalar.sqrt (1 + p * p) := by
  have positive := (one_add_mul_self_pos p).le
  rw [mul_self_le_mul_self_iff zero_le_one (sqrt_nonneg _ positive), sqrt_mul_sqrt _ positive]
  linarith [mul_self_nonneg p]

theorem epsilon_lt_one : (Scalar.epsilon : R) < 1 := by
  rw [Scalar.epsilon, ExactScalar.ofNat_eq, div_lt_one (by norm_num [Decimal.fractionCount])]
  norm_num [Decimal.fractionCount]

end GeometricScalar

/-! ## Real numbers -/

noncomputable section Reals

open scoped Classical in
/-- Real arithmetic. -/
instance : Scalar ℝ where
  beq x y := decide (x = y)
  decLt := inferInstance
  decLe := inferInstance
  ofDecimal d := (if d.negative then -1 else 1) * d.digits * 10 ^ d.exponent
  ofNat n := n
  floorNat x := ⌊x⌋₊
  truncInt x := if 0 ≤ x then ⌊x⌋ else ⌈x⌉
  isIntegral x := decide (x = ⌊x⌋)
  abs x := |x|
  sqrt := Real.sqrt
  sin := Real.sin
  cos := Real.cos
  atan := Real.arctan
  pow x y := x ^ y
  degree := Real.pi / 180

instance : ExactScalar ℝ where
  __ := (inferInstance : Scalar ℝ)
  __ := (inferInstance : Field ℝ)
  __ := (inferInstance : LinearOrder ℝ)
  __ := (inferInstance : IsStrictOrderedRing ℝ)
  beq_iff _ _ := decide_eq_true_iff
  ofDecimal_eq _ := rfl
  ofNat_eq _ := rfl
  floorNat_le _ h := Nat.floor_le h
  lt_floorNat_add_one x := Nat.lt_floor_add_one x
  floorNat_of_neg _ h := Nat.floor_of_nonpos h.le
  abs_eq _ := rfl

instance : GeometricScalar ℝ where
  sqrt_nonneg x _ := Real.sqrt_nonneg x
  sqrt_mul_sqrt _ h := Real.mul_self_sqrt h
  cos_mul_cos_add_sin_mul_sin a := by
    rw [← sq, ← sq]
    exact Real.cos_sq_add_sin_sq a
  cos_two_mul a := by
    rw [← sq, ← sq]
    exact Real.cos_two_mul' a
  sin_two_mul a := Real.sin_two_mul a

end Reals

end RailRoute
