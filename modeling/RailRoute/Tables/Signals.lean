import RailRoute.Assets
import RailRoute.Command.Basic
import RailRoute.IndexMap

/-!
# Signals of a route

A signal head is an animated object, which shows the aspect of its section by itself, or a series
of textures with an optional glow.
-/

namespace RailRoute

/-- A kind of signal head that a route defines. -/
inductive SignalDefinition where
  | animated (object : String)
  /-- Textures whose names continue `base` with the number of the aspect. -/
  | textured (base : String) (glow : Option String)
  deriving DecidableEq, Repr

namespace SignalDefinition

/-- Whether a file is an animated object by its name. -/
def isAnimated (file : String) : Bool :=
  (Text.beforeTail? ".animated".toList (Text.lower file.toList)).isSome

/-- Reads the head that a command defines. -/
def read (assets : Assets) (folders : Folders) (c : Command) : Check SignalDefinition := do
  let file ← c.require (.missing "SignalFileWithoutExtension") (c.argument? 0)
  let path := Path.resolve folders.objects file
  if isAnimated file then
    if (c.argument? 1).isSome then Check.note .glowIgnored
    let object ← assets.loadForTable .object path
    pure (.animated object)
  else
    match c.argument? 1 with
    | none => pure (.textured path none)
    | some glow =>
      let glowPath := Path.resolve folders.objects glow
      let glow ← assets.tryLoad .object glowPath (.unloadable glowPath)
      pure (.textured path glow)

/-- Applies a command of the empty namespace to the table of signals. -/
def update (assets : Assets) (folders : Folders) (c : Command)
    (signals : IndexMap SignalDefinition) : Check (IndexMap SignalDefinition) := do
  if c.name ≠ "signal" then c.unsupported
  let index ← c.firstIndex
  let definition ← read assets folders c
  pure (signals.insert index definition)

end SignalDefinition

end RailRoute
