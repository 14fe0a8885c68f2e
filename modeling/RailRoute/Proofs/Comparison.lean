import Mathlib
import RailRoute.Proofs.Arithmetic

/-!
# Laws of comparison

What looking for an element asks of the arithmetic is that numbers are compared as one expects.
`ComparableScalar` says so and no more. Exact arithmetic obeys these laws, and so does the binary
floating point that runs: its numbers are ranked by sign, exponent and mantissa.
-/

namespace RailRoute

/-- Arithmetic in which numbers are compared as one expects. What is not a number, if there is such
a thing, differs even from itself. -/
class ComparableScalar (R : Type) [Scalar R] : Prop where
  le_trans : ∀ {a b c : R}, a ≤ b → b ≤ c → a ≤ c
  le_total : ∀ {a b : R}, a == a → b == b → a ≤ b ∨ b ≤ a
  /-- Only numbers are comparable. -/
  beq_self_of_le : ∀ {a b : R}, a ≤ b → a == a ∧ b == b
  lt_iff : ∀ {a b : R}, a < b ↔ a ≤ b ∧ ¬ b ≤ a

namespace ComparableScalar

instance {R : Type} [ExactScalar R] : ComparableScalar R where
  le_trans := OrderedScalar.le_trans
  le_total := OrderedScalar.le_total
  beq_self_of_le := OrderedScalar.beq_self_of_le
  lt_iff := lt_iff_le_not_ge

section Laws

variable {R : Type} [Scalar R] [ComparableScalar R] {a b c : R}

theorem lt_of_not_le (ha : a == a) (hb : b == b) (h : ¬ a ≤ b) : b < a :=
  lt_iff.2 ⟨(le_total ha hb).resolve_left h, h⟩

theorem le_of_not_lt (ha : a == a) (hb : b == b) (h : ¬ a < b) : b ≤ a := by
  by_contra hle
  exact h (lt_of_not_le hb ha hle)

theorem lt_of_lt_of_le (h : a < b) (h' : b ≤ c) : a < c :=
  lt_iff.2 ⟨le_trans (lt_iff.1 h).1 h', fun hca => (lt_iff.1 h).2 (le_trans h' hca)⟩

theorem lt_of_le_of_lt (h : a ≤ b) (h' : b < c) : a < c :=
  lt_iff.2 ⟨le_trans h (lt_iff.1 h').1, fun hca => (lt_iff.1 h').2 (le_trans hca h)⟩

end Laws

end ComparableScalar

/-! ## Floating point -/

namespace FloatOrder

open Float.Model

/-- What orders floating-point numbers: the sign, and then how far they go in its direction, the
exponent before the mantissa. The two zeros have one rank, and what is not a number has none. -/
def rank : UnpackedFloat → Option (ℤ ×ₗ ℤ ×ₗ ℤ)
  | .notANumber => none
  | .zero _ => some (toLex (0, toLex (0, 0)))
  | .infinity .negative => some (toLex (-2, toLex (0, 0)))
  | .infinity .positive => some (toLex (2, toLex (0, 0)))
  | .finite .negative m e _ => some (toLex (-1, toLex (-e, -m)))
  | .finite .positive m e _ => some (toLex (1, toLex (e, m)))

theorem compare_then_compare (e e' : ℤ) (m m' : ℕ) :
    (compare e e').then (compare m m') =
      if e < e' ∨ e = e' ∧ m < m' then .lt else if e' < e ∨ e' = e ∧ m' < m then .gt else .eq := by
  rcases lt_trichotomy e e' with h | rfl | h
  · simp [compare_lt_iff_lt.2 h, h]
  · rcases lt_trichotomy m m' with h | rfl | h
    · simp [compare_lt_iff_lt.2 h, h]
    · simp
    · simp [compare_gt_iff_gt.2 h, h, h.not_gt]
  · simp [compare_gt_iff_gt.2 h, h, h.not_gt, h.ne']

theorem compare_eq (x y : UnpackedFloat) :
    x.compare y = (rank x).bind fun a => (rank y).map (cmp a) := by
  rcases x with (_ | _) | _ | _ | ⟨_ | _, m, e, hm⟩ <;>
    rcases y with (_ | _) | _ | _ | ⟨_ | _, m', e', hm'⟩ <;>
    simp [UnpackedFloat.compare, rank, cmp, cmpUsing, Prod.Lex.lt_iff]
  case infinity.negative.infinity.negative | infinity.positive.infinity.positive => rfl
  case infinity.negative.infinity.positive | infinity.positive.infinity.negative => rfl
  case finite.positive.finite.positive => exact compare_then_compare e e' m m'
  case finite.negative.finite.negative =>
    -- Among negative numbers, the greater magnitude is the lesser number.
    rw [compare_then_compare]
    split_ifs <;> first | rfl | omega

theorem le_iff_rank {x y : Float} : x ≤ y ↔
    ∃ a b, rank x.toModel.unpack = some a ∧ rank y.toModel.unpack = some b ∧ a ≤ b := by
  change decide (x.toModel ≤ y.toModel) = true ↔ _
  rw [decide_eq_true_iff]
  change (x.toModel.unpack.compare y.toModel.unpack).any (·.isLE) = true ↔ _
  rw [compare_eq]
  cases rank x.toModel.unpack with
  | none => simp
  | some a =>
    cases rank y.toModel.unpack with
    | none => simp
    | some b =>
      rcases lt_trichotomy a b with h | rfl | h
      · simp [(cmp_eq_lt_iff a b).2 h, h.le]
      · simp
      · simp [(cmp_eq_gt_iff a b).2 h, h]

theorem lt_iff_rank {x y : Float} : x < y ↔
    ∃ a b, rank x.toModel.unpack = some a ∧ rank y.toModel.unpack = some b ∧ a < b := by
  change decide (x.toModel < y.toModel) = true ↔ _
  rw [decide_eq_true_iff]
  change (x.toModel.unpack.compare y.toModel.unpack == some .lt) = true ↔ _
  rw [compare_eq]
  cases rank x.toModel.unpack with
  | none => simp
  | some a => cases rank y.toModel.unpack <;> simp

theorem beq_self_iff {x : Float} : x == x ↔ ∃ a, rank x.toModel.unpack = some a := by
  change (x.toModel.unpack.compare x.toModel.unpack == some .eq) = true ↔ _
  rw [compare_eq]
  cases rank x.toModel.unpack <;> simp

instance : ComparableScalar Float where
  le_trans {x y z} h h' := by
    obtain ⟨a, b, ha, hb, hab⟩ := le_iff_rank.1 h
    obtain ⟨b', c, hb', hc, hbc⟩ := le_iff_rank.1 h'
    obtain rfl := Option.some.inj (hb.symm.trans hb')
    exact le_iff_rank.2 ⟨a, c, ha, hc, hab.trans hbc⟩
  le_total {x y} hx hy := by
    obtain ⟨a, ha⟩ := beq_self_iff.1 hx
    obtain ⟨b, hb⟩ := beq_self_iff.1 hy
    rcases le_total a b with h | h
    · exact Or.inl (le_iff_rank.2 ⟨a, b, ha, hb, h⟩)
    · exact Or.inr (le_iff_rank.2 ⟨b, a, hb, ha, h⟩)
  beq_self_of_le {x y} h := by
    obtain ⟨a, b, ha, hb, -⟩ := le_iff_rank.1 h
    exact ⟨beq_self_iff.2 ⟨a, ha⟩, beq_self_iff.2 ⟨b, hb⟩⟩
  lt_iff {x y} := by
    rw [lt_iff_rank, le_iff_rank, le_iff_rank]
    cases rank x.toModel.unpack <;> cases rank y.toModel.unpack <;> simp +contextual [le_of_lt]

end FloatOrder

end RailRoute
