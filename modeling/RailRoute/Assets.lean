import RailRoute.Path
import RailRoute.Problem

/-!
# Assets

Objects, textures and sounds are loaded by the program that hosts the compiler, which may refuse a
file with a reason. The compiler knows a loaded asset only by the path of its file.
-/

namespace RailRoute

/-- The answers of a host that is asked for assets: why it refuses a file, if it does. -/
structure Assets where
  refusal : AssetKind → String → Option String

/-- The folders in which the files named in a route are looked up. -/
structure Folders where
  route : String
  objects : String
  sounds : String
  train : String
  deriving DecidableEq, Repr

namespace Assets

/-- Loads a file, or gives up with the problem that a refusal amounts to. -/
def load (a : Assets) (kind : AssetKind) (file : String) (refused : String → Problem) :
    Check String :=
  match a.refusal kind file with
  | none => pure file
  | some reason => Check.fail (refused reason)

/-- Loads a file for one of the tables of a route. -/
def loadForTable (a : Assets) (kind : AssetKind) (file : String) : Check String :=
  a.load kind file (.unloadable file)

/-- Loads a file, and notes a refusal without giving up. -/
def tryLoad (a : Assets) (kind : AssetKind) (file : String) (refused : String → Problem) :
    Check (Option String) :=
  match a.refusal kind file with
  | none => pure (some file)
  | some reason => do
    Check.note (refused reason)
    pure none

end Assets

end RailRoute
