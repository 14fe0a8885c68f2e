import Mathlib
import RailRoute.Proofs.Compile.SecondPass
import RailRoute.Proofs.Compile.Outcome
import RailRoute.Proofs.Document.Numerals
import RailRoute.Proofs.Source.Verbatim

/-!
# Documents are JSON

The document of a route is JSON if, and only if, all numbers that are written in it are finite. It
is then one object with the stations, stops, elements and events of the route, and its strings are
those of the route. Main statement: `render_isJson`.
-/

namespace RailRoute.Document

open Json

/-! ## Values of a document -/

/-- The value that a number is written as. -/
def numberJson (x : Float) : Json := .number (number x).toList

/-- The value that a whole number is written as. -/
def wholeJson {α : Type} [ToString α] (n : α) : Json := .number (toString n).toList

/-- The value that an absent or present whole number is written as. -/
def optionalJson : Option Nat → Json
  | some n => wholeJson n
  | none => .null

/-- The value that a speed is written as. -/
def speedJson : Speed Float → Json
  | .unlimited => .null
  | .limited v => if Decimal.isFiniteBits v.toBits then numberJson v else .null

/-- The value that a vector is written as. -/
def vectorJson (v : Vec3 Float) : Json := .array [numberJson v.x, numberJson v.y, numberJson v.z]

/-- A member of an object. -/
def memberJson (name : String) (value : Json) : List Char × Json := (name.toList, value)

/-- The value that a string is written as. -/
def stringJson (s : String) : Json := .string s.toList

/-- The members that describe an event. -/
def eventMembers : EventKind Float → List (List Char × Json)
  | .stationStart station => [memberJson "type" (stringJson "station_start"),
      memberJson "station" (wholeJson station)]
  | .stationEnd station => [memberJson "type" (stringJson "station_end"),
      memberJson "station" (wholeJson station)]
  | .stationPassAlarm station => [memberJson "type" (stringJson "pass_alarm"),
      memberJson "station" (wholeJson station)]
  | .sectionChange previous next => [memberJson "type" (stringJson "section"),
      memberJson "previous" (optionalJson previous), memberJson "next" (wholeJson next)]
  | .sound file _ once dynamic _ _ => [memberJson "type" (stringJson "sound"),
      memberJson "file" (stringJson file), memberJson "once" (.bool once),
      memberJson "dynamic" (.bool dynamic)]
  | .railSoundsChange _ _ run flange => [memberJson "type" (stringJson "rail_sounds"),
      memberJson "run" (wholeJson run), memberJson "flange" (wholeJson flange)]
  | .limit _ next => [memberJson "type" (stringJson "limit"), memberJson "speed" (speedJson next)]
  | .transponder kind data _ => [memberJson "type" (stringJson "transponder"),
      memberJson "kind" (wholeJson kind), memberJson "data" (wholeJson data)]
  | .marker index start => [memberJson "type" (stringJson "marker"),
      memberJson "marker" (wholeJson index), memberJson "start" (.bool start)]
  | .trackEnd => [memberJson "type" (stringJson "track_end")]

/-- The value that an event is written as. -/
def eventJson (e : Event Float) : Json :=
  .object (memberJson "offset" (numberJson e.offset) :: eventMembers e.kind)

/-- The value that an element of the track is written as. -/
def elementJson (e : Element Float) : Json :=
  .object [memberJson "start" (numberJson e.start),
    memberJson "position" (vectorJson e.frame.position),
    memberJson "direction" (vectorJson e.frame.direction),
    memberJson "radius" (numberJson e.radius), memberJson "cant" (numberJson e.cant),
    memberJson "pitch" (numberJson e.pitch), memberJson "events" (.array (e.events.map eventJson))]

/-- The value that a station is written as. -/
def stationJson (s : Station Float) : Json :=
  .object [memberJson "name" (stringJson s.name), memberJson "position" (numberJson s.position),
    memberJson "stops" (.array (s.stops.toList.map fun stop => numberJson stop.position))]

/-- The value of the document of a route. -/
def routeJson (route : CompiledRoute Float) : Json :=
  .object [memberJson "block_interval" (numberJson route.line.interval),
    memberJson "stations" (.array (route.line.stations.toList.map stationJson)),
    memberJson "elements" (.array (route.track.elements.toList.map elementJson))]

/-! ## Numbers of a document -/

/-- Whether a number is neither infinite nor undefined. -/
def isFinite (x : Float) : Bool := Decimal.isFiniteBits x.toBits

/-- The coordinates of a vector. -/
def coordinates (v : Vec3 Float) : List Float := [v.x, v.y, v.z]

/-- The numbers that are written for an element of the track. Limits are not among them, which are
written as null where they are not finite. -/
def elementNumbers (e : Element Float) : List Float :=
  e.start :: (coordinates e.frame.position ++ coordinates e.frame.direction ++
    [e.radius, e.cant, e.pitch] ++ e.events.map (·.offset))

/-- The numbers that are written for a station. -/
def stationNumbers (s : Station Float) : List Float :=
  s.position :: s.stops.toList.map (·.position)

/-- The numbers that are written in the document of a route. -/
def numbers (route : CompiledRoute Float) : List Float :=
  route.line.interval :: (route.line.stations.toList.flatMap stationNumbers ++
    route.track.elements.toList.flatMap elementNumbers)

/-! ## Parts of a document -/

section Parts

variable {depth : Nat}

theorem reads_number (x : Float) :
    Reads (readValue (depth + 1)) (number x).toList (isFinite x) (numberJson x) :=
  reads_float x depth

theorem reads_quoted (s : String) :
    Reads (readValue (depth + 1)) (quoted s).toList true (stringJson s) := by
  have text : (quoted s).toList = '"' :: (s.toList.flatMap Text.escapeChar ++ ['"']) := by
    simp [quoted, Text.escape]
  rw [text]
  exact reads_string s.toList

theorem reads_optional (n : Option Nat) :
    Reads (readValue (depth + 1)) (optional n).toList true (optionalJson n) := by
  cases n with
  | none => exact reads_null
  | some n => exact reads_nat depth n

theorem reads_truth (b : Bool) :
    Reads (readValue (depth + 1)) (truth b).toList true (.bool b) := by
  cases b with
  | true => exact reads_true
  | false => exact reads_false

theorem reads_speed (v : Speed Float) :
    Reads (readValue (depth + 1)) (speed v).toList true (speedJson v) := by
  cases v with
  | unlimited => exact reads_null
  | limited v =>
    simp only [speed, speedJson]
    split_ifs with finite
    · have number : Reads (readValue (depth + 1)) (number v).toList (isFinite v) (numberJson v) :=
        reads_number v
      rwa [isFinite, finite] at number
    · exact reads_null

/-- A field is read as a member if its value is read. -/
theorem reads_field {name value : String} {sound : Bool} {v : Json}
    (h : Reads (readValue depth) value.toList sound v)
    (plain : name.toList.flatMap Text.escapeChar = name.toList) :
    Reads (readMember (readValue depth)) (field name value).toList sound (memberJson name v) := by
  have text : (field name value).toList =
      '"' :: (name.toList ++ '"' :: ':' :: ' ' :: value.toList) := by simp [field]
  rw [text]
  exact h.member plain

theorem reads_object {fields : List String} {sound : Bool} {members : List (List Char × Json)}
    (h : ReadsAll (readMember (readValue depth)) (fields.map String.toList) sound members) :
    Reads (readValue (depth + 1)) (object fields).toList sound (.object members) := by
  have text : (object fields).toList = '\x7b' :: ([' '] ++
      ([',', ' '].intercalate (fields.map String.toList) ++ ([' '] ++ ['\x7d']))) := by
    simp [object]
  rw [text]
  exact h.object ⟨.inr rfl, by simp [isSpace], by simp [isSpace], by simp [isSpace]⟩

theorem reads_array {items : List String} {sound : Bool} {values : List Json}
    (h : ReadsAll (readValue depth) (items.map String.toList) sound values) :
    Reads (readValue (depth + 1)) (array items).toList sound (.array values) := by
  have text : (array items).toList =
      '[' :: ([] ++ ([',', ' '].intercalate (items.map String.toList) ++ ([] ++ [']']))) := by
    simp [array]
  rw [text]
  exact h.array ⟨.inl rfl, by simp, by simp [isSpace], by simp⟩

theorem reads_vector (v : Vec3 Float) : Reads (readValue (depth + 2)) (vector v).toList
    ((coordinates v).all isFinite) (vectorJson v) :=
  reads_array (.cons (reads_number v.x) (.cons (reads_number v.y) (.cons (reads_number v.z) .nil)))

/-! ## Events, elements and stations -/

theorem reads_typeField (name : String) : Reads (readMember (readValue (depth + 1)))
    (typeField name).toList true (memberJson "type" (stringJson name)) :=
  reads_field (reads_quoted name) rfl

theorem readsAll_eventFields (kind : EventKind Float) :
    ReadsAll (readMember (readValue (depth + 1))) ((eventFields kind).map String.toList) true
      (eventMembers kind) := by
  cases kind with
  | stationStart station =>
    exact .cons (reads_typeField _) (.cons (reads_field (reads_nat depth station) rfl) .nil)
  | stationEnd station =>
    exact .cons (reads_typeField _) (.cons (reads_field (reads_nat depth station) rfl) .nil)
  | stationPassAlarm station =>
    exact .cons (reads_typeField _) (.cons (reads_field (reads_nat depth station) rfl) .nil)
  | sectionChange previous next =>
    exact .cons (reads_typeField _) (.cons (reads_field (reads_optional previous) rfl)
      (.cons (reads_field (reads_nat depth next) rfl) .nil))
  | sound file _ once dynamic _ _ =>
    exact .cons (reads_typeField _) (.cons (reads_field (reads_quoted file) rfl)
      (.cons (reads_field (reads_truth once) rfl)
        (.cons (reads_field (reads_truth dynamic) rfl) .nil)))
  | railSoundsChange _ _ run flange =>
    exact .cons (reads_typeField _) (.cons (reads_field (reads_nat depth run) rfl)
      (.cons (reads_field (reads_nat depth flange) rfl) .nil))
  | limit _ next =>
    exact .cons (reads_typeField _) (.cons (reads_field (reads_speed next) rfl) .nil)
  | transponder kind data _ =>
    exact .cons (reads_typeField _) (.cons (reads_field (reads_int depth kind) rfl)
      (.cons (reads_field (reads_int depth data) rfl) .nil))
  | marker index start =>
    exact .cons (reads_typeField _) (.cons (reads_field (reads_nat depth index) rfl)
      (.cons (reads_field (reads_truth start) rfl) .nil))
  | trackEnd => exact .cons (reads_typeField _) .nil

theorem reads_event (e : Event Float) :
    Reads (readValue (depth + 2)) (event e).toList (isFinite e.offset) (eventJson e) := by
  rw [← Bool.and_true (isFinite e.offset)]
  exact reads_object (.cons (reads_field (reads_number e.offset) rfl) (readsAll_eventFields e.kind))

theorem all_elementNumbers (e : Element Float) : (elementNumbers e).all isFinite =
    (isFinite e.start && ((coordinates e.frame.position).all isFinite &&
      ((coordinates e.frame.direction).all isFinite && (isFinite e.radius && (isFinite e.cant &&
        (isFinite e.pitch && ((e.events.all fun ev => isFinite ev.offset) && true))))))) := by
  simp [elementNumbers, List.all_map, Function.comp_def]

theorem reads_element (e : Element Float) : Reads (readValue (depth + 4)) (element e).toList
    ((elementNumbers e).all isFinite) (elementJson e) := by
  have events : ReadsAll (readValue (depth + 2)) ((e.events.map event).map String.toList)
      (e.events.all fun ev => isFinite ev.offset) (e.events.map eventJson) := by
    rw [List.map_map]
    exact .map fun ev _ => reads_event ev
  rw [all_elementNumbers]
  exact reads_object (.cons (reads_field (reads_number e.start) rfl)
    (.cons (reads_field (reads_vector e.frame.position) rfl)
    (.cons (reads_field (reads_vector e.frame.direction) rfl)
    (.cons (reads_field (reads_number e.radius) rfl)
    (.cons (reads_field (reads_number e.cant) rfl)
    (.cons (reads_field (reads_number e.pitch) rfl)
    (.cons (reads_field (reads_array events) rfl) .nil)))))))

theorem all_stationNumbers (s : Station Float) : (stationNumbers s).all isFinite =
    (true && (isFinite s.position &&
      ((s.stops.toList.all fun stop => isFinite stop.position) && true))) := by
  simp [stationNumbers, List.all_map, Function.comp_def]

theorem reads_station (s : Station Float) : Reads (readValue (depth + 3)) (station s).toList
    ((stationNumbers s).all isFinite) (stationJson s) := by
  have stops : ReadsAll (readValue (depth + 1))
      ((s.stops.toList.map fun stop => number stop.position).map String.toList)
      (s.stops.toList.all fun stop => isFinite stop.position)
      (s.stops.toList.map fun stop => numberJson stop.position) := by
    rw [List.map_map]
    exact .map fun stop _ => reads_number stop.position
  rw [all_stationNumbers]
  exact reads_object (.cons (reads_field (reads_quoted s.name) rfl)
    (.cons (reads_field (reads_number s.position) rfl)
    (.cons (reads_field (reads_array stops) rfl) .nil)))

/-! ## The whole -/

theorem all_numbers (route : CompiledRoute Float) : (numbers route).all isFinite =
    (isFinite route.line.interval &&
      ((route.line.stations.toList.all fun s => (stationNumbers s).all isFinite) &&
        ((route.track.elements.toList.all fun e => (elementNumbers e).all isFinite) && true))) := by
  simp [numbers, List.all_flatMap]

/-- The fields of the object that the document is. -/
def routeFields (route : CompiledRoute Float) : List String :=
  [field "block_interval" (number route.line.interval),
    field "stations" (array (route.line.stations.toList.map station)),
    field "elements"
      ("[\n" ++ ",\n".intercalate (route.track.elements.toList.map element) ++ "\n]")]

/-- The object that the document is. -/
def routeObject (route : CompiledRoute Float) : List Char :=
  '\x7b' :: ([' '] ++ ([',', '\n'].intercalate ((routeFields route).map String.toList) ++
    ([' '] ++ ['\x7d'])))

theorem render_eq (route : CompiledRoute Float) :
    (render route).toList = routeObject route ++ ['\n'] := by
  simp [render, routeObject, routeFields, field, List.intercalate, List.intersperse]

theorem reads_elements (es : List (Element Float)) :
    Reads (readValue (depth + 5)) ("[\n" ++ ",\n".intercalate (es.map element) ++ "\n]").toList
      (es.all fun e => (elementNumbers e).all isFinite) (.array (es.map elementJson)) := by
  have elements : ReadsAll (readValue (depth + 4)) ((es.map element).map String.toList)
      (es.all fun e => (elementNumbers e).all isFinite) (es.map elementJson) := by
    rw [List.map_map]
    exact .map fun e _ => reads_element e
  have text : ("[\n" ++ ",\n".intercalate (es.map element) ++ "\n]").toList =
      '[' :: (['\n'] ++ ([',', '\n'].intercalate ((es.map element).map String.toList) ++
        (['\n'] ++ [']']))) := by
    simp
  rw [text]
  exact elements.array ⟨.inl rfl, by simp [isSpace], by simp [isSpace], by simp [isSpace]⟩

theorem reads_routeObject (route : CompiledRoute Float) : Reads (readValue (depth + 6))
    (routeObject route) ((numbers route).all isFinite) (routeJson route) := by
  let stations := route.line.stations.toList
  have stations : ReadsAll (readValue (depth + 4)) ((stations.map station).map String.toList)
      (stations.all fun s => (stationNumbers s).all isFinite) (stations.map stationJson) := by
    rw [List.map_map]
    exact .map fun s _ => reads_station s
  have fields : ReadsAll (readMember (readValue (depth + 5)))
      ((routeFields route).map String.toList) _ _ :=
    .cons (reads_field (reads_number route.line.interval) rfl)
      (.cons (reads_field (reads_array stations) rfl)
      (.cons (reads_field (reads_elements route.track.elements.toList) rfl) .nil))
  rw [all_numbers]
  exact fields.object ⟨.inr rfl, by simp [isSpace], by simp [isSpace], by simp [isSpace]⟩

end Parts

/-- A document is parsed as the value of the route if all numbers in it are finite, and else it is
no JSON. -/
theorem parse_render (route : CompiledRoute Float) : Json.parse (render route) =
    if (numbers route).all isFinite then some (routeJson route) else none := by
  have enough : 6 ≤ (routeObject route).length := by
    simp [routeObject, routeFields, field, List.intercalate, List.intersperse]
  exact parse_of_reads 6 (render_eq route) (by simp [isSpace]) enough fun depth =>
    reads_routeObject route

/-- The document of a route is JSON if, and only if, all numbers in it are finite. It is one object
then, with as many stations as the route has and as many stops in each, and with as many elements
and as many events in each. -/
theorem render_isJson (route : CompiledRoute Float) :
    (Json.parse (render route) =
      if (numbers route).all isFinite then some (routeJson route) else none) ∧
    ((routeJson route).get "stations").items.map (fun s => (s.get "stops").items.length) =
      route.line.stations.toList.map (·.stops.size) ∧
    ((routeJson route).get "elements").items.map (fun e => (e.get "events").items.length) =
      route.track.elements.toList.map (·.events.length) := by
  refine ⟨parse_render route, ?_, ?_⟩
  · have stations : (routeJson route).get "stations" =
        .array (route.line.stations.toList.map stationJson) := rfl
    have stops (s : Station Float) : (stationJson s).get "stops" =
        .array (s.stops.toList.map fun stop => numberJson stop.position) := rfl
    simp [stations, items, stops]
  · have elements : (routeJson route).get "elements" =
        .array (route.track.elements.toList.map elementJson) := rfl
    have events (e : Element Float) : (elementJson e).get "events" =
        .array (e.events.map eventJson) := rfl
    simp [elements, items, events]

/-- A route with a curve whose radius is too great for a floating-point number. -/
def endlessCurve : List (List Char) := ["0", "Track.Curve 1e999"].map String.toList

theorem parse_render_endlessCurve : ∃ route : CompiledRoute Float,
    (compileLines Float .initial Compile.quietJob.host "" endlessCurve).result = .ok route ∧
      Json.parse (render route) = none := by
  let job : Compile.Job := .ofPath .initial Compile.quietJob.host ""
  let es : List Source.Expression := [⟨⟨"", 1, 1⟩, "0"⟩, ⟨⟨"", 2, 1⟩, "Track.Curve 1e999"⟩]
  let options : Options Float := (Options.readAhead job.settings.dialect es).options
  have expands : (Compile.expanded Float job "" endlessCurve).result = .ok es :=
    Compile.expanded_of_plain (by decide) (by decide) (by decide)
  have factors : options.unitOfLength = [1] := by decide
  have sorts : Source.sortByPosition ([1] : List Float) job.settings.dialect es = es :=
    Source.sortByPosition_eq_self (by decide) (by decide)
  let route := Compile.builtRoute job
    (Compile.gathered job (Compile.startTables job.settings options) es)
  have compiles := Compile.run_eq_ok job rfl rfl expands factors sorts (CallLog.empty.loading true)
  have infinite : (numbers route).all isFinite = false := by decide +kernel
  refine ⟨route, compiles, ?_⟩
  rw [parse_render, infinite]
  rfl

end RailRoute.Document
