import RailRoute.Assets
import RailRoute.IndexMap
import RailRoute.Tables.Options

/-!
# Trains of a route

The commands of the namespace `train` name the player's train, its sounds on each type of rail, its
timetables, and the trains that run ahead of it.
-/

namespace RailRoute

/-- What a route says about trains. -/
structure TrainInfo (R : Type) where
  folder : Option String
  /-- The run sound for each type of rail. -/
  runSounds : IndexMap Nat
  /-- The flange sound for each type of rail. -/
  flangeSounds : IndexMap Nat
  dayTimetables : IndexMap String
  nightTimetables : IndexMap String
  /-- The top speed of the train ahead, in meters per second. -/
  maxSpeedAhead : Option R
  /-- Seconds between the trains ahead. -/
  intervals : List R

namespace TrainInfo

variable {R : Type} [Scalar R]

/-- What is known of trains in a route that says nothing. -/
def initial : TrainInfo R := ⟨none, ∅, ∅, ∅, ∅, none, []⟩

/-- Reads the index of a type of rail and the index of a sound. -/
def readSound (R : Type) [Scalar R] (c : Command) : Check (Nat × Nat) := do
  let railType ← c.firstIndex
  let sound ← c.natural R 0 0 "SoundIndex"
  pure (railType, sound)

/-- Reads the index of a timetable and loads its texture. -/
def readTimetable (assets : Assets) (folders : Folders) (c : Command) : Check (Nat × String) := do
  let index ← c.firstIndex
  let file ← c.require (.missing "FileName") (c.argument? 0)
  let texture ← assets.loadForTable .texture (Path.resolve folders.objects file)
  pure (index, texture)

/-- Reads the arguments as positive intervals, leaving out the others with a message. -/
def readIntervals (c : Command) : List (String × Nat) → Check (List R)
  | [] => pure []
  | (a, i) :: rest => do
    let interval? := (Source.parseLenient a.toList : Option R).filter fun x => decide (0 < x)
    if interval?.isNone then c.note (.invalid s!"Interval{i}")
    let more ← readIntervals c rest
    pure (interval?.toList ++ more)

/-- Applies a command of the namespace `train` under the given options. -/
def update (o : Options R) (assets : Assets) (folders : Folders) (c : Command) (t : TrainInfo R) :
    Check (TrainInfo R) :=
  match c.name with
  | "folder" | "file" => do
    let folder ← c.require (.missing "FolderName") (c.argument? 0)
    pure { t with folder := some folder }
  | "run" | "rail" => do
    let entry ← readSound R c
    pure { t with runSounds := t.runSounds.insert entry.1 entry.2 }
  | "flange" => do
    let entry ← readSound R c
    pure { t with flangeSounds := t.flangeSounds.insert entry.1 entry.2 }
  | "timetable.day" => do
    let entry ← readTimetable assets folders c
    pure { t with dayTimetables := t.dayTimetables.insert entry.1 entry.2 }
  | "timetable.night" => do
    let entry ← readTimetable assets folders c
    pure { t with nightTimetables := t.nightTimetables.insert entry.1 entry.2 }
  | "velocity" => do
    let speed ← c.number 0 (0 : R) "Speed"
    pure { t with maxSpeedAhead := if speed ≤ 0 then none else some (speed * o.unitOfSpeed) }
  | "interval" => do
    let intervals ← readIntervals c c.arguments.zipIdx
    pure { t with intervals := intervals }
  | _ => c.unsupported

end TrainInfo

end RailRoute
