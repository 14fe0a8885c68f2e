import Mathlib
import RailRoute.Tables.Basic
import RailRoute.Proofs.Check
import RailRoute.Proofs.Command.Lengths

/-!
# Tables in another unit

The tables of a route hold distances in meters, so they are the same in every unit of length if the
lengths among the arguments are written in that unit. Main statements: `Options.update_withUnit` and
`Tables.update_withUnit`.
-/

namespace RailRoute

open Command

/-- The options with another unit of length. -/
def Options.withUnit {R : Type} (u : R) (o : Options R) : Options R :=
  { o with unitOfLength := [u] }

/-- The tables with another unit of length. -/
def Tables.withUnit {R : Type} (u : R) (t : Tables R) : Tables R :=
  { t with options := t.options.withUnit u }

/-- Every command comes of itself by division in meters. -/
theorem Command.isDivided_one {R : Type} [ExactScalar R] (c : Command) : c.IsDivided (1 : R) c where
  root := rfl
  name := rfl
  indices := rfl
  size := rfl
  raw _ := rfl
  lengths _ _ := by simp [IsDividedArgument]
  others _ _ _ := rfl

/-! ## Options -/

namespace Options

theorem update_blockLength {R : Type} [Scalar R] {c : Command} (name : c.name = "blocklength")
    (o : Options R) : update c o =
      (do let x ← c.number 0 (Scalar.ofNat 25) "Length"; pure (x * o.lengthUnit)) >>=
        fun length => (do
          if length ≤ 0 then c.fail (.mustBe "Length" .positive)
          pure { o with blockInterval := length }) := by
  unfold update
  rw [name]
  simp only [bind_assoc, pure_bind]

/-- Only the block length is read with the unit of length. -/
theorem update_withUnit_of_ne {R : Type} [Scalar R] {c : Command} (unit : c.name ≠ "unitoflength")
    (blocks : c.name ≠ "blocklength") (u v : R) (o : Options R) :
    update c (o.withUnit u) = withUnit u <$> update c (o.withUnit v) := by
  unfold update
  split
  case h_1 => exact absurd ‹_› unit
  case h_2 =>
    simp only [map_bind, map_pure, apply_ite (withUnit u <$> ·)]
    rfl
  case h_3 => exact absurd ‹_› blocks
  case h_10 => rfl
  all_goals
    rw [map_bind]
    rfl

variable {R : Type} [ExactScalar R] {u : R} {c c' : Command}

/-- One positive factor is the unit of all lengths. -/
theorem update_unitOfLength_singleton {number : String} (pos : 0 < u)
    (h : Source.parseLenient number.toList = some u) (o : Options R) :
    update ⟨"options", "unitoflength", [], [number], number⟩ o = pure (o.withUnit u) := by
  have factor (c : Command) (default : R) (i : Nat) : readFactor c default i number = pure u := by
    unfold readFactor
    rw [h]
    exact if_pos pos
  have factors : readFactors ⟨"options", "unitoflength", [], [number], number⟩ = pure [u] := by
    simp [readFactors, factor]
  change (do
    let factors ← readFactors ⟨"options", "unitoflength", [], [number], number⟩
    pure { o with unitOfLength := factors }) = _
  rw [factors]
  rfl

/-- An option is set to the same in every unit, if a block length is not left out. -/
theorem update_withUnit (h : c.IsDivided u c') (hu : u ≠ 0) (root : c.root = "options")
    (unit : c.name ≠ "unitoflength") (states : ∀ i ∈ c.defaultedPlaces, c.States R i)
    (o : Options R) :
    update c' (o.withUnit u) = withUnit u <$> update c (o.withUnit 1) := by
  by_cases blocks : c.name = "blocklength"
  · have place : 0 ∈ c.lengthPlaces := by simp [lengthPlaces, root, blocks]
    have stated : c.States R 0 := states 0 (by simp [defaultedPlaces, root, blocks])
    have length : (do
        let x ← c'.number 0 (Scalar.ofNat 25) "Length"
        pure (x * (o.withUnit u).lengthUnit)) = (do
        let x ← c.number 0 (Scalar.ofNat 25) "Length"
        pure (x * (o.withUnit 1).lengthUnit)) := h.length_eq hu place (.inl stated) "Length"
    rw [update_blockLength (h.name.trans blocks), update_blockLength blocks, map_bind, length]
    refine congrArg _ (funext fun length => ?_)
    rw [h.fail_eq]
    split_ifs <;> rfl
  · rw [h.eq_of_lengthPlaces (by simp [lengthPlaces, root, blocks])]
    exact update_withUnit_of_ne unit blocks u 1 o

end Options

/-! ## The other tables -/

section Tables

variable {R : Type} [ExactScalar R] {u : R} {c c' : Command} (h : c.IsDivided u c') (hu : u ≠ 0)
  (folders : Folders)

include h hu

theorem RouteInfo.update_withUnit (root : c.root = "route") (o : Options R) (r : RouteInfo R) :
    update (o.withUnit u) folders c' r = update (o.withUnit 1) folders c r := by
  by_cases elevation : c.name = "elevation"
  · have place : 0 ∈ c.lengthPlaces := by simp [lengthPlaces, root, elevation]
    have height := congrArg (fun x : Check R => do
      let y ← x
      pure { r with elevation := y })
      (h.length_eq hu place (.inr (zero_mul u)) "Height")
    simp only [bind_assoc, pure_bind] at height
    unfold update
    rw [h.name, elevation]
    exact height
  · rw [h.eq_of_lengthPlaces (by simp [lengthPlaces, root, elevation])]
    unfold update
    split <;> first | rfl | exact absurd ‹_› elevation

/-- A table is filled with the same in every unit. -/
theorem Tables.update_withUnit {part : Part} (target : Part.ofRoot? c.root = some part)
    (assets : Assets) (t : Tables R) :
    (t.withUnit u).update assets folders part c' =
      withUnit u <$> (t.withUnit 1).update assets folders part c := by
  by_cases route : c.root = "route"
  · obtain rfl : part = .info := by simpa [Part.ofRoot?, route] using target.symm
    unfold update
    rw [map_bind]
    dsimp only
    rw [show (t.withUnit u).options = t.options.withUnit u from rfl,
      RouteInfo.update_withUnit h hu folders route]
    rfl
  · have places : c.lengthPlaces = [] := by
      unfold lengthPlaces
      split_ifs <;> simp_all [Part.ofRoot?]
    rw [h.eq_of_lengthPlaces places]
    unfold update
    cases part with
    | info => exact absurd ((Part.ofRoot?_eq_info_iff _).1 target) route
    | train | structures | signals | cycles =>
      rw [map_bind]
      rfl

end Tables

end RailRoute
