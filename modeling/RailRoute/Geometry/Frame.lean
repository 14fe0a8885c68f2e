import RailRoute.Geometry.Vector

/-!
# Frames along the track

A frame is a position with three perpendicular directions: along the track, up and to the side.
`Frame.advance` moves a frame along a straight or an arc. On an arc the horizontal chord is turned
by half the angle of the arc and the frame by the whole angle, while the track rises as steeply as
before.
-/

namespace RailRoute

/-- A position and the three directions at a point of the track. -/
structure Frame (R : Type) where
  position : Vec3 R
  direction : Vec3 R
  up : Vec3 R
  side : Vec3 R
  deriving DecidableEq, Repr

namespace Frame

variable {R : Type} [Scalar R]

/-- The frame a route starts from. -/
def initial : Frame R := ⟨.zero, .forward, .up, .right⟩

/-- The frame at a position that heads in a horizontal direction and rises by `pitch` for each unit
of run. The vertical component of `heading` does not count. -/
def ofHeading (position heading : Vec3 R) (pitch : R) : Frame R :=
  let h := heading.horizontal
  let direction := Vec3.normalize ⟨h.x, pitch, h.z⟩
  let side : Vec3 R := ⟨h.z, 0, -h.x⟩
  ⟨position, direction, direction.cross side, side⟩

/-- The horizontal direction of travel. -/
def heading (f : Frame R) : Vec3 R := f.direction.horizontal

/-- The frame `distance` further along a straight. -/
def advanceStraight (f : Frame R) (distance : R) : Frame R :=
  { f with position := f.position + f.direction * distance }

/-- The frame `distance` further along an arc of the given radius, which is positive for curves to
one side and negative for curves to the other. -/
def advanceArc (f : Frame R) (radius distance : R) : Frame R :=
  let dir := f.direction
  let slope := dir.y / Scalar.sqrt (dir.x * dir.x + dir.z * dir.z)
  let run := distance / Scalar.sqrt (1 + slope * slope)
  let rise := run * slope
  let angle := run / Scalar.abs radius
  let chordSquare := Scalar.two * radius * radius * (1 - Scalar.cos angle)
  let chord := Scalar.sign distance * Scalar.sqrt (Scalar.max chordSquare 0)
  let turn := Scalar.half * Scalar.sign radius * angle
  let along := (Vec3.horizontal dir).rotate Vec3.down (Scalar.cos turn) (Scalar.sin turn)
  let position : Vec3 R :=
    ⟨f.position.x + chord * along.x, f.position.y + rise, f.position.z + chord * along.z⟩
  let ahead := along.rotate Vec3.down (Scalar.cos turn) (Scalar.sin turn)
  let direction := Vec3.normalize ⟨ahead.x, slope, ahead.z⟩
  let side := f.side.rotate Vec3.down (Scalar.cos (Scalar.two * turn))
    (Scalar.sin (Scalar.two * turn))
  ⟨position, direction, direction.cross side, side⟩

/-- The frame `distance` further along the track; a radius of zero means a straight. -/
def advance (f : Frame R) (radius distance : R) : Frame R :=
  if distance == 0 then f
  else if radius == 0 then f.advanceStraight distance
  else f.advanceArc radius distance

end Frame

/-- The cubic curve from `c₀` with slope `m₀` at `t = 0` to `c₁` with slope `m₁` at `t = 1`. -/
def hermite {R : Type} [Scalar R] (t c₀ m₀ c₁ m₁ : R) : R :=
  let t₂ := t * t
  let t₃ := t₂ * t
  (Scalar.two * t₃ - Scalar.ofNat 3 * t₂ + 1) * c₀ + (t₃ - Scalar.two * t₂ + t) * m₀ +
    (-Scalar.two * t₃ + Scalar.ofNat 3 * t₂) * c₁ + (t₃ - t₂) * m₁

end RailRoute
