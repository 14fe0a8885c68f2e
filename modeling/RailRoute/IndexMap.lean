import Std.Data.TreeMap

/-!
# Tables addressed by a number

Rails, structures, sounds and signals are all numbered by the author of a route. A table keyed by
such numbers lists its entries in ascending order.
-/

namespace RailRoute

/-- A table from natural numbers to entries, listed by ascending number. -/
abbrev IndexMap (α : Type) := Std.TreeMap Nat α compare

end RailRoute
