import RailRoute.Compile
import RailRoute.Decimal.Layout
import RailRoute.Text.Quoted

/-!
# The JSON document of a route

A compiled route is written as one JSON object with its stations and the elements of its track.
Numbers are written without exponents; a limit that is lifted is written as null.
-/

namespace RailRoute.Document

/-! ## Parts of a document -/

/-- A number. -/
def number (x : Float) : String := Decimal.text Decimal.plain x

/-- A string. -/
def quoted (s : String) : String := "\"" ++ Text.escape s ++ "\""

/-- An absent or present whole number. -/
def optional : Option Nat → String
  | some n => toString n
  | none => "null"

/-- A truth value. -/
def truth (b : Bool) : String := if b then "true" else "false"

/-- A field of an object. -/
def field (name value : String) : String := "\"" ++ name ++ "\": " ++ value

/-- An object on one line. -/
def object (fields : List String) : String :=
  "\x7b " ++ ", ".intercalate fields ++ " \x7d"

/-- An array on one line. -/
def array (items : List String) : String := "[" ++ ", ".intercalate items ++ "]"

/-- A speed; without a limit it is null, and so is one too great to be written. -/
def speed : Speed Float → String
  | .unlimited => "null"
  | .limited v => if Decimal.isFiniteBits v.toBits then number v else "null"

/-- A vector. -/
def vector (v : Vec3 Float) : String := array [number v.x, number v.y, number v.z]

/-! ## Routes -/

/-- The name of a kind of event, as a field. -/
def typeField (name : String) : String := field "type" (quoted name)

/-- The fields that describe an event. -/
def eventFields : EventKind Float → List String
  | .stationStart station => [typeField "station_start", field "station" (toString station)]
  | .stationEnd station => [typeField "station_end", field "station" (toString station)]
  | .stationPassAlarm station => [typeField "pass_alarm", field "station" (toString station)]
  | .sectionChange previous next =>
    [typeField "section", field "previous" (optional previous), field "next" (toString next)]
  | .sound file _ once dynamic _ _ =>
    [typeField "sound", field "file" (quoted file), field "once" (truth once),
      field "dynamic" (truth dynamic)]
  | .railSoundsChange _ _ run flange =>
    [typeField "rail_sounds", field "run" (toString run), field "flange" (toString flange)]
  | .limit _ next => [typeField "limit", field "speed" (speed next)]
  | .transponder kind data _ =>
    [typeField "transponder", field "kind" (toString kind), field "data" (toString data)]
  | .marker index start =>
    [typeField "marker", field "marker" (toString index), field "start" (truth start)]
  | .trackEnd => [typeField "track_end"]

/-- An event. -/
def event (e : Event Float) : String :=
  object (field "offset" (number e.offset) :: eventFields e.kind)

/-- An element of the track. -/
def element (e : Element Float) : String :=
  object [field "start" (number e.start), field "position" (vector e.frame.position),
    field "direction" (vector e.frame.direction), field "radius" (number e.radius),
    field "cant" (number e.cant), field "pitch" (number e.pitch),
    field "events" (array (e.events.map event))]

/-- A station with the positions of its stops. -/
def station (s : Station Float) : String :=
  object [field "name" (quoted s.name), field "position" (number s.position),
    field "stops" (array (s.stops.toList.map fun stop => number stop.position))]

/-- The document of a compiled route. -/
def render (route : CompiledRoute Float) : String :=
  "\x7b " ++ field "block_interval" (number route.line.interval) ++ ",\n" ++
    field "stations" (array (route.line.stations.toList.map station)) ++ ",\n" ++
    field "elements" ("[\n" ++ ",\n".intercalate (route.track.elements.toList.map element)) ++
    "\n] \x7d\n"

end RailRoute.Document
