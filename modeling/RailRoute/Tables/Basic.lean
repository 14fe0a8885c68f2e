import RailRoute.Tables.RouteInfo
import RailRoute.Tables.Signals
import RailRoute.Tables.Structures
import RailRoute.Tables.Train

/-!
# The tables of a route

Everything that is known of a route before its track is laid.
-/

namespace RailRoute

/-- The options, the metadata and all that the route has loaded. -/
structure Tables (R : Type) where
  options : Options R
  info : RouteInfo R
  train : TrainInfo R
  structures : Structures
  signals : IndexMap SignalDefinition
  compatibilitySignalSet : Option String

namespace Tables

variable {R : Type} [Scalar R]

/-- The tables of a route in which nothing was said yet. -/
def initial : Tables R := ⟨.initial, .initial, .initial, .initial, ∅, none⟩

/-- The parts of the tables, each with the namespaces whose commands it takes. -/
inductive Part where
  | info
  | train
  | structures
  | signals
  | cycles
  deriving DecidableEq, Repr

/-- The part of the tables that commands of a namespace belong to. -/
def Part.ofRoot? (root : String) : Option Part :=
  if root = "route" then some .info
  else if root = "train" then some .train
  else if root = "structure" ∨ root = "texture" then some .structures
  else if root = "" then some .signals
  else if root = "cycle" then some .cycles
  else none

/-- Applies a command to a part of the tables. -/
def update (assets : Assets) (folders : Folders) (part : Part) (c : Command) (t : Tables R) :
    Check (Tables R) :=
  match part with
  | .info => do
    let info ← RouteInfo.update t.options folders c t.info
    pure { t with info }
  | .train => do
    let train ← TrainInfo.update t.options assets folders c t.train
    pure { t with train }
  | .structures => do
    let structures ← Structures.update R assets folders c t.structures
    pure { t with structures }
  | .signals => do
    let signals ← SignalDefinition.update assets folders c t.signals
    pure { t with signals }
  | .cycles => do
    let structures ← Structures.updateCycle R c t.structures
    pure { t with structures }

end Tables

end RailRoute
