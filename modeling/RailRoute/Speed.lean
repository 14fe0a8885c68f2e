import RailRoute.Scalar

/-!
# Speeds that may be unlimited
-/

namespace RailRoute

/-- A permitted speed in meters per second. -/
inductive Speed (R : Type) where
  | unlimited
  | limited (value : R)
  deriving DecidableEq, Repr

/-- The speed an author writes as a number, which is given in some unit of speed; zero lifts all
limits. -/
def Speed.ofWritten {R : Type} [Scalar R] (x unit : R) : Speed R :=
  if x == 0 then .unlimited else .limited (x * unit)

end RailRoute
