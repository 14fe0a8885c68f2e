import RailRoute.Decimal.Layout
import RailRoute.Text.Quoted
import RailRoute.Track.Event

/-!
# Crossings as lines of text

A walk prints one line for each event that is crossed: the event, the direction and the effects,
each written with all its parts by name.
-/

namespace RailRoute.Cli

/-- A value with named parts. -/
def record (name : String) (parts : List (String × String)) : String :=
  name ++ " \x7b " ++ ", ".intercalate (parts.map fun p => p.1 ++ ": " ++ p.2) ++ " \x7d"

/-- A value with one part that needs no name. -/
def tagged (name part : String) : String := name ++ "(" ++ part ++ ")"

/-- A number, which is never mistaken for an integer. -/
def numberText (x : Float) : String := Decimal.text Decimal.marked x

/-- A speed. -/
def speedText : Speed Float → String
  | .unlimited => "inf"
  | .limited v => numberText v

/-- A value that may be absent. -/
def optionText : Option Nat → String
  | some n => tagged "Some" (toString n)
  | none => "None"

/-- A truth value. -/
def boolText (b : Bool) : String := if b then "true" else "false"

/-- A sound. -/
def soundText (file : String) : String := tagged "SoundHandle" (Text.literal file)

/-- A vector. -/
def vectorText (v : Vec3 Float) : String :=
  record "Vector3" [("x", numberText v.x), ("y", numberText v.y), ("z", numberText v.z)]

/-- A car. -/
def carText (c : Car) : String :=
  record "CarRef"
    [("train", toString c.train), ("car", toString c.car), ("player", boolText c.player)]

/-- An event. -/
def eventText : EventKind Float → String
  | .stationStart station => record "StationStart" [("station", toString station)]
  | .stationEnd station => record "StationEnd" [("station", toString station)]
  | .stationPassAlarm station => record "StationPassAlarm" [("station", toString station)]
  | .sectionChange previous next =>
    record "SectionChange" [("previous", optionText previous), ("next", toString next)]
  | .sound file playerTrainOnly once dynamic position speed =>
    record "Sound" [("sound", soundText file), ("player_train_only", boolText playerTrainOnly),
      ("once", boolText once), ("dynamic", boolText dynamic), ("position", vectorText position),
      ("speed", numberText speed)]
  | .railSoundsChange previousRun previousFlange nextRun nextFlange =>
    record "RailSoundsChange" [("previous_run", toString previousRun),
      ("previous_flange", toString previousFlange), ("next_run", toString nextRun),
      ("next_flange", toString nextFlange)]
  | .limit previous next =>
    record "Limit" [("previous_speed", speedText previous), ("next_speed", speedText next)]
  | .transponder kind data signalSection =>
    record "Transponder" [("kind", toString kind), ("data", toString data),
      ("section", optionText signalSection)]
  | .marker index start =>
    record "Marker" [("marker", toString index), ("start", boolText start)]
  | .trackEnd => "TrackEnd"

/-- An effect. -/
def effectText : Effect Float → String
  | .setStation station => tagged "SetStation" (toString station)
  | .clearStation station => tagged "ClearStation" (toString station)
  | .passAlarm station => tagged "PassAlarm" (toString station)
  | .enterSection index => tagged "EnterSection" (toString index)
  | .playSound file position speed =>
    record "PlaySound" [("sound", soundText file), ("position", vectorText position),
      ("speed", numberText speed)]
  | .setRailSounds run flange =>
    record "SetRailSounds" [("run", toString run), ("flange", toString flange)]
  | .speedLimit speed => tagged "SpeedLimit" (speedText speed)
  | .beacon kind data signalSection =>
    record "Beacon" [("kind", toString kind), ("data", toString data),
      ("section", optionText signalSection)]
  | .showMarker index => tagged "ShowMarker" (toString index)
  | .hideMarker index => tagged "HideMarker" (toString index)
  | .disposeTrain train => tagged "DisposeTrain" (toString train)
  | .derail car => tagged "Derail" (carText car)
  | .toggleWorldEnd => "ToggleWorldEnd"

/-- The line of a crossing. -/
def crossingLine (c : Crossing Float) : String :=
  "> " ++ eventText c.event.kind ++ " dir " ++ toString c.direction ++ " [" ++
    ", ".intercalate (c.effects.map effectText) ++ "]"

end RailRoute.Cli
