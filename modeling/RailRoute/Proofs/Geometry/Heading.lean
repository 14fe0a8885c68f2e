import Mathlib
import RailRoute.Proofs.Geometry.Arithmetic
import RailRoute.Geometry.Frame

/-!
# Headings

In exact arithmetic with exact square roots and angles, the frame of a heading consists of
perpendicular unit vectors, and an arc leads from there to the frame of the turned heading at the
same pitch. The side of the frame is turned by one angle and its heading by half of it twice; the
double-angle formulas bring both together. Main statements: `isOrthonormal_ofHeading` and
`exists_advance_ofHeading`.
-/

namespace RailRoute

/-! ## Vectors -/

namespace Vec3

open GeometricScalar

variable {R : Type} [GeometricScalar R] {v h : Vec3 R}

theorem magnitude_eq {m : R} (hm : 0 ≤ m) (hv : v.dot v = m * m) : v.magnitude = m := by
  have squares : v.x * v.x + v.y * v.y + v.z * v.z = m * m := hv
  rw [magnitude, squares, sqrt_mul_self hm]

/-- A vector that is not too short is scaled to length one. -/
theorem normalize_eq {m : R} (hm : v.magnitude = m) (long : ¬ m < Scalar.epsilon) :
    v.normalize = ⟨v.x / m, v.y / m, v.z / m⟩ := by
  rw [normalize, hm, if_neg long]
  change Vec3.mk (v.x * (1 / m)) (v.y * (1 / m)) (v.z * (1 / m)) = _
  simp only [mul_one_div]

/-- The vector turned around the vertical axis. -/
theorem rotate_down (v : Vec3 R) (c s : R) :
    v.rotate down c s = ⟨v.x * c - v.z * s, v.y, v.z * c + v.x * s⟩ := by
  change Vec3.mk
    (v.x * c + (-1 * v.z - 0 * v.y) * s + 0 * ((0 * v.x + -1 * v.y + 0 * v.z) * (1 - c)))
    (v.y * c + (0 * v.x - 0 * v.z) * s + -1 * ((0 * v.x + -1 * v.y + 0 * v.z) * (1 - c)))
    (v.z * c + (0 * v.y - -1 * v.x) * s + 0 * ((0 * v.x + -1 * v.y + 0 * v.z) * (1 - c))) = _
  congr 1 <;> ring

/-- Whether the vector is a direction on the map. -/
structure IsHeading (h : Vec3 R) : Prop where
  level : h.y = 0
  unit : h.x * h.x + h.z * h.z = 1

theorem isHeading_forward : (forward : Vec3 R).IsHeading :=
  ⟨rfl, show (0 : R) * 0 + 1 * 1 = 1 by ring⟩

theorem IsHeading.magnitude_level (hh : h.IsHeading) : magnitude ⟨h.x, 0, h.z⟩ = 1 := by
  refine magnitude_eq zero_le_one ?_
  rw [dot]
  linear_combination hh.unit

theorem IsHeading.magnitude_tilted (hh : h.IsHeading) (p : R) :
    magnitude ⟨h.x, p, h.z⟩ = Scalar.sqrt (1 + p * p) := by
  have positive := (one_add_mul_self_pos p).le
  refine magnitude_eq (sqrt_nonneg _ positive) ?_
  rw [sqrt_mul_sqrt _ positive, dot]
  linear_combination hh.unit

/-- However steep, a heading with a pitch is not too short to be normalized. -/
theorem IsHeading.long_tilted (hh : h.IsHeading) (p : R) :
    ¬ magnitude ⟨h.x, p, h.z⟩ < Scalar.epsilon := by
  rw [hh.magnitude_tilted]
  exact (epsilon_lt_one.le.trans (one_le_sqrt p)).not_gt

theorem IsHeading.horizontal (hh : h.IsHeading) : h.horizontal = h := by
  rw [Vec3.horizontal, normalize_eq hh.magnitude_level epsilon_lt_one.not_gt]
  simp only [div_one, ← hh.level]

theorem IsHeading.rotate (hh : h.IsHeading) (a : R) :
    (h.rotate down (Scalar.cos a) (Scalar.sin a)).IsHeading := by
  rw [rotate_down]
  refine ⟨hh.level, ?_⟩
  linear_combination (Scalar.cos a * Scalar.cos a + Scalar.sin a * Scalar.sin a) * hh.unit +
    cos_mul_cos_add_sin_mul_sin a

/-- Turned twice by an angle is turned by twice the angle. -/
theorem rotate_rotate (v : Vec3 R) (a : R) :
    (v.rotate down (Scalar.cos a) (Scalar.sin a)).rotate down (Scalar.cos a) (Scalar.sin a) =
      v.rotate down (Scalar.cos (2 * a)) (Scalar.sin (2 * a)) := by
  simp only [rotate_down, cos_two_mul, sin_two_mul]
  congr 1 <;> ring

end Vec3

/-! ## Frames -/

attribute [ext] Frame

namespace Frame

open GeometricScalar Vec3

/-- Whether the directions are perpendicular unit vectors and the side is level. -/
structure IsOrthonormal {R : Type} [Scalar R] (f : Frame R) : Prop where
  direction_unit : f.direction.magnitude = 1
  up_unit : f.up.magnitude = 1
  side_unit : f.side.magnitude = 1
  direction_up : f.direction.dot f.up = 0
  up_side : f.up.dot f.side = 0
  side_direction : f.side.dot f.direction = 0
  side_level : f.side.y = 0

/-- The rise of the direction for each unit of run. -/
def slope {R : Type} [Scalar R] (f : Frame R) : R :=
  f.direction.y / Scalar.sqrt (f.direction.x * f.direction.x + f.direction.z * f.direction.z)

/-- Half the angle of an arc. -/
def halfTurn {R : Type} [Scalar R] (f : Frame R) (radius distance : R) : R :=
  let run := distance / Scalar.sqrt (1 + f.slope * f.slope)
  Scalar.half * Scalar.sign radius * (run / Scalar.abs radius)

/-- The heading behind an arc. -/
def ahead {R : Type} [Scalar R] (f : Frame R) (radius distance : R) : Vec3 R :=
  let c := Scalar.cos (f.halfTurn radius distance)
  let s := Scalar.sin (f.halfTurn radius distance)
  (f.heading.rotate Vec3.down c s).rotate Vec3.down c s

section

variable {R : Type} [Scalar R]

theorem ofHeading_direction (position h : Vec3 R) (p : R) :
    (ofHeading position h p).direction = Vec3.normalize ⟨h.horizontal.x, p, h.horizontal.z⟩ := rfl

theorem advanceArc_direction (f : Frame R) (radius distance : R) :
    (f.advanceArc radius distance).direction = Vec3.normalize
      ⟨(f.ahead radius distance).x, f.slope, (f.ahead radius distance).z⟩ := rfl

theorem advanceArc_side (f : Frame R) (radius distance : R) :
    (f.advanceArc radius distance).side =
      f.side.rotate Vec3.down (Scalar.cos (Scalar.two * f.halfTurn radius distance))
        (Scalar.sin (Scalar.two * f.halfTurn radius distance)) := rfl

end

variable {R : Type} [GeometricScalar R] {position h : Vec3 R} {p : R}

/-- The run of a unit vector that rises by `p` for each unit of run. -/
def runOf (p : R) : R := 1 / Scalar.sqrt (1 + p * p)

theorem runOf_pos (p : R) : 0 < runOf p :=
  one_div_pos.2 (one_pos.trans_le (one_le_sqrt p))

theorem runOf_mul_runOf (p : R) : runOf p * runOf p * (1 + p * p) = 1 := by
  have positive := one_add_mul_self_pos p
  rw [runOf, one_div_mul_one_div, sqrt_mul_sqrt _ positive.le, one_div_mul_cancel positive.ne']

theorem direction_ofHeading (hh : h.IsHeading) :
    (ofHeading position h p).direction = ⟨h.x * runOf p, p * runOf p, h.z * runOf p⟩ := by
  have long : ¬ Scalar.sqrt (1 + p * p) < Scalar.epsilon := by
    rw [← hh.magnitude_tilted]
    exact hh.long_tilted p
  rw [ofHeading_direction, hh.horizontal, normalize_eq (hh.magnitude_tilted p) long]
  simp only [runOf, mul_one_div]

theorem side_ofHeading (hh : h.IsHeading) : (ofHeading position h p).side = ⟨h.z, 0, -h.x⟩ := by
  change Vec3.mk h.horizontal.z 0 (-h.horizontal.x) = _
  rw [hh.horizontal]

theorem up_ofHeading (hh : h.IsHeading) :
    (ofHeading position h p).up = ⟨-h.x * (p * runOf p), runOf p, -h.z * (p * runOf p)⟩ := by
  change (ofHeading position h p).direction.cross (ofHeading position h p).side = _
  rw [direction_ofHeading hh, side_ofHeading hh, cross]
  congr 1
  · ring
  · linear_combination runOf p * hh.unit
  · ring

theorem isOrthonormal_ofHeading (hh : h.IsHeading) : (ofHeading position h p).IsOrthonormal := by
  have unit := hh.unit
  have run := runOf_mul_runOf p
  constructor
  case direction_unit =>
    refine magnitude_eq zero_le_one ?_
    rw [direction_ofHeading hh, dot]
    linear_combination run + runOf p * runOf p * unit
  case up_unit =>
    refine magnitude_eq zero_le_one ?_
    rw [up_ofHeading hh, dot]
    linear_combination run + runOf p * runOf p * p * p * unit
  case side_unit =>
    refine magnitude_eq zero_le_one ?_
    rw [side_ofHeading hh, dot]
    linear_combination unit
  case direction_up =>
    rw [direction_ofHeading hh, up_ofHeading hh, dot]
    linear_combination -runOf p * runOf p * p * unit
  case up_side =>
    rw [up_ofHeading hh, side_ofHeading hh, dot]
    ring
  case side_direction =>
    rw [side_ofHeading hh, direction_ofHeading hh, dot]
    ring
  case side_level => rw [side_ofHeading hh]

theorem sqrt_run (hh : h.IsHeading) :
    let d := (ofHeading position h p).direction
    Scalar.sqrt (d.x * d.x + d.z * d.z) = runOf p := by
  intro d
  have square : d.x * d.x + d.z * d.z = runOf p * runOf p := by
    simp only [d, direction_ofHeading hh]
    linear_combination runOf p * runOf p * hh.unit
  rw [square, sqrt_mul_self (runOf_pos p).le]

theorem slope_ofHeading (hh : h.IsHeading) : (ofHeading position h p).slope = p := by
  rw [slope, sqrt_run hh, direction_ofHeading hh, mul_div_assoc, div_self (runOf_pos p).ne',
    mul_one]

theorem magnitude_level_ofHeading (hh : h.IsHeading) :
    let d := (ofHeading position h p).direction
    magnitude ⟨d.x, 0, d.z⟩ = runOf p := by
  refine magnitude_eq (runOf_pos p).le ?_
  rw [direction_ofHeading hh, dot]
  linear_combination runOf p * runOf p * hh.unit

/-- Unless the run is too short for that, the frame of a heading heads where it should. -/
theorem heading_ofHeading (hh : h.IsHeading) (long : ¬ runOf p < Scalar.epsilon) :
    (ofHeading position h p).heading = h := by
  rw [heading, Vec3.horizontal, normalize_eq (magnitude_level_ofHeading hh) long,
    direction_ofHeading hh]
  simp only [mul_div_assoc, div_self (runOf_pos p).ne', mul_one, zero_div]
  rw [← hh.level]

theorem isHeading_ahead {f : Frame R} (hf : f.heading.IsHeading) (radius distance : R) :
    (f.ahead radius distance).IsHeading :=
  (hf.rotate _).rotate _

/-- An arc leads to the frame of the heading there, at the same pitch. -/
theorem advanceArc_ofHeading (hh : h.IsHeading) (long : ¬ runOf p < Scalar.epsilon)
    (radius distance : R) :
    let f := ofHeading position h p
    f.advanceArc radius distance =
      ofHeading (f.advanceArc radius distance).position (f.ahead radius distance) p := by
  intro f
  have heads : f.heading = h := heading_ofHeading hh long
  have hahead : (f.ahead radius distance).IsHeading := isHeading_ahead (heads ▸ hh) radius distance
  have direction : (f.advanceArc radius distance).direction =
      (ofHeading (f.advanceArc radius distance).position
        (f.ahead radius distance) p).direction := by
    rw [advanceArc_direction, ofHeading_direction, slope_ofHeading hh, hahead.horizontal]
  have turned : f.ahead radius distance = h.rotate down
      (Scalar.cos (2 * f.halfTurn radius distance))
      (Scalar.sin (2 * f.halfTurn radius distance)) := by
    rw [ahead, heads, rotate_rotate]
  -- The side is the heading turned to the right, and is turned on by the same angle.
  have side : (f.advanceArc radius distance).side =
      (ofHeading (f.advanceArc radius distance).position (f.ahead radius distance) p).side := by
    rw [side_ofHeading hahead, turned, advanceArc_side, side_ofHeading hh, ExactScalar.two_eq]
    simp only [rotate_down]
    congr 1 <;> ring
  exact Frame.ext rfl direction (congrArg₂ Vec3.cross direction side) side

/-- Wherever one goes from the frame of a heading, one comes to the frame of a heading at the same
pitch. -/
theorem exists_advance_ofHeading (position : Vec3 R) (hh : h.IsHeading)
    (long : ¬ runOf p < Scalar.epsilon) (radius distance : R) :
    ∃ position' h' : Vec3 R, h'.IsHeading ∧
      (ofHeading position h p).advance radius distance = ofHeading position' h' p := by
  unfold advance
  split_ifs with stays straight
  · exact ⟨position, h, hh, rfl⟩
  · exact ⟨_, h, hh, rfl⟩
  · have heads : h = (ofHeading position h p).heading := (heading_ofHeading hh long).symm
    exact ⟨_, _, isHeading_ahead (heads ▸ hh) radius distance,
      advanceArc_ofHeading hh long radius distance⟩

end Frame

end RailRoute
