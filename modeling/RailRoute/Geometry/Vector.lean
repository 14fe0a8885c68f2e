import RailRoute.Scalar

/-!
# Vectors

Two components place a thing beside and above a rail. Three place it in the world, where the second
axis points up and a route starts along the third.
-/

namespace RailRoute

/-- An offset from a rail: to the right and up. -/
structure Vec2 (R : Type) where
  x : R
  y : R
  deriving DecidableEq, Repr

/-- A vector of the world. -/
structure Vec3 (R : Type) where
  x : R
  y : R
  z : R
  deriving DecidableEq, Repr

variable {R : Type} [Scalar R]

namespace Vec2

/-- No offset. -/
def zero : Vec2 R := ⟨0, 0⟩

/-- The length of the offset. -/
def magnitude (v : Vec2 R) : R := Scalar.sqrt (v.x * v.x + v.y * v.y)

/-- The offset scaled to length one, or none if it is too short for that. -/
def normalize (v : Vec2 R) : Vec2 R :=
  if v.magnitude < Scalar.epsilon then zero else ⟨v.x / v.magnitude, v.y / v.magnitude⟩

/-- The offset turned counter-clockwise by the angle with the given cosine and sine. -/
def rotate (v : Vec2 R) (cos sin : R) : Vec2 R := ⟨v.x * cos - v.y * sin, v.x * sin + v.y * cos⟩

end Vec2

namespace Vec3

/-- The origin. -/
def zero : Vec3 R := ⟨0, 0, 0⟩

/-- The direction upward. -/
def up : Vec3 R := ⟨0, 1, 0⟩

/-- The direction downward. -/
def down : Vec3 R := ⟨0, -1, 0⟩

/-- The direction to the right of the start. -/
def right : Vec3 R := ⟨1, 0, 0⟩

/-- The direction in which a route starts. -/
def forward : Vec3 R := ⟨0, 0, 1⟩

/-- The sum of two vectors. -/
def add (v w : Vec3 R) : Vec3 R := ⟨v.x + w.x, v.y + w.y, v.z + w.z⟩

/-- The difference of two vectors. -/
def sub (v w : Vec3 R) : Vec3 R := ⟨v.x - w.x, v.y - w.y, v.z - w.z⟩

/-- The vector in the opposite direction. -/
def neg (v : Vec3 R) : Vec3 R := ⟨-v.x, -v.y, -v.z⟩

/-- The vector scaled by a number. -/
def scale (v : Vec3 R) (s : R) : Vec3 R := ⟨v.x * s, v.y * s, v.z * s⟩

instance : Add (Vec3 R) := ⟨add⟩

instance : Sub (Vec3 R) := ⟨sub⟩

instance : Neg (Vec3 R) := ⟨neg⟩

instance : HMul (Vec3 R) R (Vec3 R) := ⟨scale⟩

/-- The length of the vector. -/
def magnitude (v : Vec3 R) : R := Scalar.sqrt (v.x * v.x + v.y * v.y + v.z * v.z)

/-- The vector scaled to length one, or none if it is too short for that. -/
def normalize (v : Vec3 R) : Vec3 R :=
  if v.magnitude < Scalar.epsilon then zero else v * (1 / v.magnitude)

/-- The scalar product. -/
def dot (v w : Vec3 R) : R := v.x * w.x + v.y * w.y + v.z * w.z

/-- The vector product. -/
def cross (v w : Vec3 R) : Vec3 R :=
  ⟨v.y * w.z - v.z * w.y, v.z * w.x - v.x * w.z, v.x * w.y - v.y * w.x⟩

/-- The vector turned around a unit axis by the angle with the given cosine and sine. -/
def rotate (v axis : Vec3 R) (cos sin : R) : Vec3 R :=
  v * cos + axis.cross v * sin + axis * (axis.dot v * (1 - cos))

/-- The vector without its vertical component, at length one. -/
def horizontal (v : Vec3 R) : Vec3 R := normalize ⟨v.x, 0, v.z⟩

end Vec3

end RailRoute
