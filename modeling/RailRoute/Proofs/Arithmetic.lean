import Mathlib
import RailRoute.Scalar

/-!
# Laws of arithmetic

Two sets of laws for the arithmetic of a route. `OrderedScalar` holds what comparison and rounding
down obey in binary floating point as well as for exact numbers: there may be values that are not
numbers, and those compare with nothing. `ExactScalar` is an ordered field whose further operations
do what their names say. Every exact arithmetic is an ordered one, and the rational numbers are
exact.
-/

namespace RailRoute

/-- Arithmetic in which numbers are compared and rounded down as one expects. What is not a number,
if there is such a thing, differs even from itself. -/
class OrderedScalar (R : Type) [Scalar R] : Prop where
  le_trans : ∀ {a b c : R}, a ≤ b → b ≤ c → a ≤ c
  le_total : ∀ {a b : R}, a == a → b == b → a ≤ b ∨ b ≤ a
  /-- Only numbers are comparable. -/
  beq_self_of_le : ∀ {a b : R}, a ≤ b → a == a ∧ b == b
  not_ofNat_succ_le_zero : ∀ n : Nat, ¬ (Scalar.ofNat (n + 1) : R) ≤ 0
  /-- A greater position lies in no earlier one of the intervals of one length. A quotient that is
  not a number rounds down to zero. -/
  floorNat_le_floorNat : ∀ {p q i : R}, ¬ i ≤ 0 → p ≤ q →
    Scalar.floorNat (p / i + Scalar.fixed 1 3) ≤ Scalar.floorNat (q / i + Scalar.fixed 1 3)

/-- Arithmetic with exact numbers. -/
class ExactScalar (R : Type) extends Scalar R, Field R, LinearOrder R, IsStrictOrderedRing R where
  beq_iff : ∀ a b : R, (a == b) = true ↔ a = b
  ofDecimal_eq : ∀ d : Decimal, Scalar.ofDecimal d =
    (if d.negative then (-1 : R) else 1) * d.digits * 10 ^ d.exponent
  ofNat_eq : ∀ n : Nat, Scalar.ofNat n = (n : R)
  floorNat_le : ∀ x : R, 0 ≤ x → (Scalar.floorNat x : R) ≤ x
  lt_floorNat_add_one : ∀ x : R, x < Scalar.floorNat x + 1
  floorNat_of_neg : ∀ x : R, x < 0 → Scalar.floorNat x = 0
  abs_eq : ∀ x : R, Scalar.abs x = |x|

namespace ExactScalar

variable {R : Type} [ExactScalar R]

theorem fixed_eq (digits places : Nat) :
    (Scalar.fixed digits places : R) = digits / 10 ^ places := by
  simp [Scalar.fixed, ofDecimal_eq, div_eq_mul_inv]

theorem two_eq : (Scalar.two : R) = 2 := ofNat_eq 2

theorem floorNat_mono {x y : R} (h : x ≤ y) : Scalar.floorNat x ≤ Scalar.floorNat y := by
  by_cases hx : x < 0
  · rw [floorNat_of_neg x hx]
    exact Nat.zero_le _
  · have below : (Scalar.floorNat x : R) < Scalar.floorNat y + 1 := calc
      (Scalar.floorNat x : R) ≤ x := floorNat_le x (not_lt.1 hx)
      _ ≤ y := h
      _ < Scalar.floorNat y + 1 := lt_floorNat_add_one y
    exact Nat.lt_succ_iff.1 (by exact_mod_cast below)

theorem max_eq (a b : R) : Scalar.max a b = max a b := by
  unfold Scalar.max
  split_ifs with h hb
  · exact (max_eq_left h).symm
  · exact (max_eq_right (not_le.1 h).le).symm
  · exact absurd ((beq_iff b b).2 rfl) hb

theorem min_eq (a b : R) : Scalar.min a b = min a b := by
  unfold Scalar.min
  split_ifs with h hb
  · exact (min_eq_left h).symm
  · exact (min_eq_right (not_le.1 h).le).symm
  · exact absurd ((beq_iff b b).2 rfl) hb

theorem sortsBefore_eq (a b : R) : Scalar.sortsBefore a b = decide (a ≤ b) := by
  simp [Scalar.sortsBefore, (beq_iff b b).2 rfl]

instance : OrderedScalar R where
  le_trans := le_trans
  le_total := fun {a b} _ _ => le_total a b
  beq_self_of_le _ := ⟨(beq_iff _ _).2 rfl, (beq_iff _ _).2 rfl⟩
  not_ofNat_succ_le_zero n := by
    rw [ofNat_eq, not_le]
    exact_mod_cast n.succ_pos
  floorNat_le_floorNat hi h := by
    refine floorNat_mono ?_
    have := div_le_div_of_nonneg_right h (not_le.1 hi).le
    linarith

end ExactScalar

/-! ## Rational numbers -/

/-- Rational arithmetic. Square roots are rounded, and angles and powers are left out: every angle
counts as zero and every power as one. -/
instance : Scalar ℚ where
  decLt := inferInstance
  decLe := inferInstance
  ofDecimal d := (if d.negative then -1 else 1) * d.digits * 10 ^ d.exponent
  ofNat n := n
  floorNat x := ⌊x⌋₊
  truncInt x := if 0 ≤ x then ⌊x⌋ else ⌈x⌉
  isIntegral x := x.den = 1
  abs x := |x|
  sqrt x := Rat.sqrt x
  sin _ := 0
  cos _ := 1
  atan _ := 0
  pow _ _ := 1
  degree := 0

instance : ExactScalar ℚ where
  __ := (inferInstance : Scalar ℚ)
  __ := (inferInstance : Field ℚ)
  __ := (inferInstance : LinearOrder ℚ)
  __ := (inferInstance : IsStrictOrderedRing ℚ)
  beq_iff _ _ := beq_iff_eq
  ofDecimal_eq _ := rfl
  ofNat_eq _ := rfl
  floorNat_le _ h := Nat.floor_le h
  lt_floorNat_add_one x := Nat.lt_floor_add_one x
  floorNat_of_neg _ h := Nat.floor_of_nonpos h.le
  abs_eq _ := rfl

end RailRoute
