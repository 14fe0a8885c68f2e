import RailRoute.Block.Action
import RailRoute.Block.Verb
import RailRoute.Tables.Basic

/-!
# Reading track commands

A track command is read in the light of the tables, the files of the host and the line as far as it
is laid. The result is the action it asks for, or nothing if its arguments do not allow one. The
arguments are read in a fixed order, so that the messages have one too.
-/

namespace RailRoute

/-- All that a track command is read in the light of. -/
structure Site (R : Type) where
  tables : Tables R
  assets : Assets
  folders : Folders
  laying : Laying R

namespace Site

variable {R : Type} [Scalar R]

/-! ## Arguments -/

/-- Reads an argument as a length. -/
def length (s : Site R) (c : Command) (i : Nat) (default : R) (what : String) : Check R := do
  let x ← c.number i default what
  pure (x * s.tables.options.lengthUnit)

/-- Reads an argument as the index of an object of some kind, which must be loaded. -/
def object (s : Site R) (c : Command) (i : Nat) (kind : StructureKind) (what : String) :
    Check Nat := do
  let index ← c.natural R i 0 what
  if s.tables.structures.contains kind index then pure index
  else c.fail (.notLoaded what index "an object")

/-- Reads the first argument as the index of a rail that runs in the current block. -/
def runningRail (s : Site R) (c : Command) : Check Nat := do
  let rail ← c.natural R 0 0 "RailIndex"
  if s.laying.currentBlock.isRunning rail then pure rail else c.fail (.noSuchRail rail)

/-- Reads the first argument as the index of a rail other than the main one. -/
def otherRail (_ : Site R) (c : Command) : Check Nat := do
  let rail ← c.integer R 0 0 "RailIndex"
  if rail < 1 then c.fail (.mustBe "RailIndex" .positive) else pure rail.toNat

/-- Reads an argument as an angle in degrees. -/
def angle (_ : Site R) (c : Command) (i : Nat) (what : String) : Check R := do
  let x ← c.number i 0 what
  pure (Scalar.radians x)

/-- Reads five arguments as an offset and three angles. -/
def placement (s : Site R) (c : Command) (i : Nat) : Check (Placement R) := do
  let x ← s.length c i 0 "X"
  let y ← s.length c (i + 1) 0 "Y"
  let yaw ← s.angle c (i + 2) "Yaw"
  let pitch ← s.angle c (i + 3) "Pitch"
  let roll ← s.angle c (i + 4) "Roll"
  pure ⟨⟨x, y⟩, yaw, pitch, roll⟩

/-- Loads the file that the first argument names. -/
def loadFirst (s : Site R) (c : Command) (kind : AssetKind) (folder : String) : Check String := do
  let file ← c.require (.missing "FileName") (c.argument? 0)
  let path := Path.resolve folder file
  s.assets.load kind path fun reason => .inCommand c.qualifiedName (.unloadable path reason)

/-- Loads the sound that an argument names, if it names one. -/
def optionalSound (s : Site R) (c : Command) (i : Nat) : Check (Option String) :=
  match c.argument? i with
  | none => pure none
  | some file =>
    let path := Path.resolve s.folders.sounds file
    s.assets.tryLoad .sound path fun reason => .inCommand c.qualifiedName (.unloadable path reason)

/-- The section a number of sections ahead of the current one; none for a negative number. -/
def sectionAhead (s : Site R) (ahead : Int) : Option Nat :=
  if ahead < 0 then none else some (s.laying.signalSection + ahead.toNat)

/-- Whether an argument is one of some words, in any case. -/
def isWord (a : String) (words : List String) : Bool :=
  words.any fun w => Text.sameWord a.toList w.toList

/-! ## Rails -/

/-- Reads the start of a rail. Offsets that are left out stay what they are. A rail that runs
already must not be started strictly. -/
def readRailStart (s : Site R) (c : Command) (strict : Bool) : Check (Action R) := do
  let rail ← s.otherRail c
  let existing := s.laying.currentBlock.rails[rail]?
  let runsOn := match existing with
    | some r => r.isRunning && !r.refreshed
    | none => false
  if strict && runsOn then c.fail (.railRunning rail)
  let previous := match existing with
    | some r => r.start
    | none => .zero
  let unit := s.tables.options.lengthUnit
  let x ← s.length c 1 (previous.x / unit) "X"
  let y ← s.length c 2 (previous.y / unit) "Y"
  pure (.startRail rail ⟨x, y⟩)

/-- Reads the end of a rail, which must run in the current block. -/
def readRailEnd (s : Site R) (c : Command) (inPlace : Bool) : Check (Action R) := do
  let rail ← s.otherRail c
  let running? := s.laying.currentBlock.rails[rail]?.filter (·.isRunning)
  let running ← c.require (.noSuchRail rail) running?
  if inPlace then pure (.endRail rail none)
  else
    let unit := s.tables.options.lengthUnit
    let x ← s.length c 1 (running.finish.x / unit) "X"
    let y ← s.length c 2 (running.finish.y / unit) "Y"
    pure (.endRail rail (some ⟨x, y⟩))

/-- Reads the type of a rail, which is an object or a cycle of objects. -/
def readRailType (s : Site R) (c : Command) : Check (Action R) := do
  let rail ← c.natural R 0 0 "RailIndex"
  let railType ← c.natural R 1 0 "RailStructureIndex"
  if s.tables.structures.contains .rail railType
      || s.tables.structures.railCycles.contains railType then
    pure (.setRailType rail railType)
  else c.fail (.notLoaded "RailStructureIndex" railType "an object")

/-! ## Surroundings -/

/-- Reads the ground of the block, which is an object or a cycle of objects. -/
def readGround (s : Site R) (c : Command) : Check (Action R) := do
  let ground ← c.natural R 0 0 "CycleIndex"
  if s.tables.structures.contains .ground ground
      || s.tables.structures.groundCycles.contains ground then
    pure (.setGround ground)
  else c.fail (.notLoaded "CycleIndex" ground "an object")

/-- Reads an object to be placed beside a rail. -/
def readFreeObject (s : Site R) (c : Command) : Check (Action R) := do
  let rail ← s.runningRail c
  let object ← s.object c 1 .freeObj "FreeObjStructureIndex"
  let placement ← s.placement c 2
  pure (.addFreeObject ⟨s.laying.position, rail, object, placement⟩)

/-- Reads a wall or dike along a rail, for which an object must be loaded on each side that it
covers. -/
def readWall (s : Site R) (c : Command) (left right : StructureKind) (what : String) :
    Check (Nat × Wall) := do
  let rail ← s.runningRail c
  let direction ← c.integer R 1 0 "Direction"
  let side ← c.require (.mustBe "Direction" .direction) (Side.ofInt? direction)
  let object ← match side with
    | .left => s.object c 2 left what
    | .right => s.object c 2 right what
    | .both => do
      let _ ← s.object c 2 left what
      s.object c 2 right what
  pure (rail, ⟨side, object⟩)

/-- Reads the end of something that runs along a rail in the current block. -/
def readEnd {α : Type} (s : Site R) (c : Command) (present : Block R → IndexMap α) : Check Nat := do
  let rail ← s.runningRail c
  if (present s.laying.currentBlock).contains rail then pure rail
  else c.fail (.nothingToEnd rail)

/-- Reads poles along a rail. -/
def readPole (s : Site R) (c : Command) : Check (Action R) := do
  let rail ← s.runningRail c
  let additional ← c.natural R 1 0 "AdditionalRailsCovered"
  let location ← c.integer R 2 0 "Location"
  let interval ← c.number 3 (1 : R) "Interval"
  if interval ≤ 0 then c.fail (.mustBe "Interval" .positive)
  let object ← c.natural R 4 0 "PoleStructureIndex"
  if s.tables.structures.containsPole additional object then
    pure (.setPole rail ⟨additional, location, interval, object⟩)
  else c.fail (.notLoaded "PoleStructureIndex" object "an object")

/-- Reads the background of the block. -/
def readBackground (s : Site R) (c : Command) : Check (Action R) := do
  let index ← c.natural R 0 0 "BackgroundTextureIndex"
  if s.tables.structures.backgrounds.contains index then pure (.setBackground index)
  else c.fail (.notLoaded "BackgroundTextureIndex" index "a texture")

/-- Reads fog. A component of its color out of range is moved into it, with a message. -/
def readFog (s : Site R) (c : Command) : Check (Action R) := do
  let start ← s.length c 0 0 "StartingDistance"
  let finish ← s.length c 1 0 "EndingDistance"
  let color ← Color.readWith (fun i old => do
    let x ← c.integer R (2 + i) old "Color component"
    if x < 0 ∨ 255 < x then c.note (.mustBe "Color component" (.between 0 255))
    pure (Command.clampByte x)) ⟨128, 128, 128⟩
  pure (.setFog ⟨start, finish, color⟩)

/-! ## Signals -/

/-- Reads arguments as aspects, leaving out negative ones with a message. -/
def readAspects (R : Type) [Scalar R] (c : Command) : List (String × Nat) → Check (List Nat)
  | [] => pure []
  | (a, i) :: rest => do
    let x ← c.readText (Source.parseInt R) a 0 s!"Aspect{i}"
    if x < 0 then c.note (.mustBe s!"Aspect{i}" .nonNegative)
    let more ← readAspects R c rest
    pure (if x < 0 then more else x.toNat :: more)

/-- Reads a section, which has at least the aspect 0. -/
def readSection (_ : Site R) (c : Command) (kind : SectionKind) : Check (Action R) := do
  let aspects ← readAspects R c c.arguments.zipIdx
  pure (.openSection (if aspects.isEmpty then [0] else aspects) kind)

/-- Reads a signal from the table of signals. -/
def readCustomSignal (s : Site R) (c : Command) : Check (Action R) := do
  let signal ← c.natural R 0 0 "SignalIndex"
  if !s.tables.signals.contains signal then c.fail (.notLoaded "SignalIndex" signal "a signal")
  let ahead ← c.natural R 1 0 "Section"
  let placement ← s.placement c 2
  pure (.addSignal ⟨s.laying.position, s.laying.signalSection + ahead, .custom signal, placement,
    true, false⟩)

/-- The aspects of a signal from the compatibility set, by their number; negative numbers start from
yellow instead of green. -/
def compatibilityAspects? (count : Int) : Option (List Nat) :=
  [((2 : Int), [0, 4]), (-2, [0, 2]), (3, [0, 2, 4]), (-3, [0, 2, 4]), (4, [0, 1, 2, 4]),
    (-4, [0, 2, 3, 4]), (5, [0, 1, 2, 3, 4]), (-5, [0, 2, 3, 4, 5]),
    (6, [0, 1, 2, 3, 4, 5])].lookup count

/-- Reads a signal from the compatibility set. -/
def readPostSignal (s : Site R) (c : Command) : Check (Action R) := do
  let count ← c.integer R 0 (-2) "Aspects"
  let aspects ← c.require (.unsupportedValue "Aspects") (compatibilityAspects? count)
  let placement ← s.placement c 2
  pure (.openSignal (.compatibility count) aspects placement)

/-- Reads a signal that repeats the next section. -/
def readRelay (s : Site R) (c : Command) : Check (Action R) := do
  let placement ← s.placement c 1
  pure (.addSignal (s.laying.postSignal (s.laying.signalSection + 1) .relay placement))

/-! ## Stations -/

/-- Reads when trains arrive. -/
def readArrival (c : Command) : Check Arrival :=
  match c.argument? 1 with
  | none => pure .unspecified
  | some a =>
    if isWord a ["p", "l"] then pure .pass
    else match Source.parseTime a.toList with
      | some time => pure (.timed time)
      | none => do
        c.note (.invalid "ArrivalTime")
        pure .unspecified

/-- Reads when trains leave. -/
def readDeparture (c : Command) : Check Departure :=
  match c.argument? 2 with
  | none => pure .unspecified
  | some d =>
    if isWord d ["t", "="] then pure .terminal
    else match Source.parseTime d.toList with
      | some time => pure (.timed time)
      | none => do
        c.note (.invalid "DepartureTime")
        pure .unspecified

/-- Reads which doors open, as a word or a number. -/
def readDoors (R : Type) [Scalar R] (c : Command) : Check Int :=
  let word := (c.argument? 4).getD ""
  if isWord word ["l"] then pure (-1)
  else if isWord word ["r"] then pure 1
  else if isWord word ["n", "b"] then pure 0
  else do
    let x ← c.integer R 4 0 "Doors"
    pure (min (max x (-1)) 1)

/-- Reads the safety system of a station, as a word or a number. -/
def readSafetySystem (R : Type) [Scalar R] (c : Command) : Check Int :=
  let word := (c.argument? 6).getD ""
  if isWord word ["ats"] then pure 0
  else if isWord word ["atc"] then pure 1
  else c.integer R 6 0 "System"

/-- Reads the timetable of a station, if it is given. -/
def readTimetable (R : Type) [Scalar R] (c : Command) : Check (Option Nat) :=
  match c.argument? 11 with
  | none => pure none
  | some _ => do
    let x ← c.integer R 11 0 "TimetableIndex"
    if x < 0 then
      c.note (.mustBe "TimetableIndex" .nonNegative)
      pure none
    else pure (some x.toNat)

/-- Reads a station. -/
def readStation (s : Site R) (c : Command) : Check (Action R) := do
  let arrival ← readArrival c
  let departure ← readDeparture c
  let passAlarm ← c.integer R 3 0 "PassAlarm"
  let doors ← readDoors R c
  let forcedRed ← c.integer R 5 0 "ForcedRedSignal"
  let safetySystem ← readSafetySystem R c
  let arrivalSound ← s.optionalSound c 7
  let departureSound ← s.optionalSound c 10
  let stopTime ← c.number 8 (Scalar.ofNat 15 : R) "StopDuration"
  let passengerRatio ← c.number 9 (Scalar.ofNat 100 : R) "PassengerRatio"
  let timetable ← readTimetable R c
  pure (.openStation {
    name := (c.argument? 0).getD ""
    position := s.laying.position
    arrival := arrival
    departure := departure
    passAlarm := passAlarm = 1
    doors := doors
    forcedRedSignal := forcedRed = 1
    safetySystem := safetySystem
    arrivalSound := arrivalSound
    stopTime := Scalar.max stopTime 0
    passengerRatio := Scalar.max passengerRatio 0
    departureSound := departureSound
    timetable := timetable
    stops := #[] })

/-- Reads a stop at the station last opened. -/
def readStop (s : Site R) (c : Command) : Check (Action R) := do
  let station ← c.require .stopWithoutStation s.laying.station
  let direction ← c.integer R 0 0 "Direction"
  if direction < -1 ∨ 1 < direction then c.fail (.mustBe "Direction" .direction)
  let backward ← s.length c 1 (Scalar.ofNat 5) "BackwardTolerance"
  let forward ← s.length c 2 (Scalar.ofNat 5) "ForwardTolerance"
  let cars ← c.natural R 3 0 "Cars"
  pure (.addStop station
    ⟨s.laying.position, direction, Scalar.abs backward, Scalar.abs forward, cars⟩)

/-- Reads a stop on request. -/
def readRequestStop (s : Site R) (c : Command) : Check (Action R) := do
  let probability ← c.number 0 (Scalar.ofNat 50 : R) "Probability"
  if probability < 0 ∨ Scalar.ofNat 100 < probability then
    c.fail (.mustBe "Probability" (.between 0 100))
  let maxCars ← c.natural R 1 0 "MaxCars"
  let fullSpeed ← c.integer R 2 0 "FullSpeed"
  pure (.addRequestStop
    ⟨s.laying.position, s.laying.station, probability, maxCars, fullSpeed ≠ 0⟩)

/-- Reads a speed limit. -/
def readLimit (s : Site R) (c : Command) : Check (Action R) := do
  let speed ← c.number 0 (0 : R) "Speed"
  if speed < 0 then c.fail (.mustBe "Speed" .nonNegative)
  let post ← c.integer R 1 0 "Post"
  let course ← c.integer R 2 0 "Course"
  if post < -1 ∨ 1 < post ∨ course < -1 ∨ 1 < course then
    c.fail (.mustBothBe "Post" "Course" .direction)
  pure (.addLimit
    ⟨s.laying.position, .ofWritten speed s.tables.options.unitOfSpeed, post, course⟩)

/-! ## Devices and markers -/

/-- Reads the object of a beacon. A negative index stands for none. -/
def readBeaconObject (s : Site R) (c : Command) : Check (Option Nat) := do
  let x ← c.integer R 1 (-1) "BeaconStructureIndex"
  if x < 0 then pure none
  else
    let object ← s.object c 1 .beacon "BeaconStructureIndex"
    pure (some object)

/-- Reads a transponder that may be seen. -/
def readBeacon (s : Site R) (c : Command) : Check (Action R) := do
  let kind ← c.integer R 0 0 "Type"
  let object ← s.readBeaconObject c
  let ahead ← c.integer R 2 0 "Section"
  let data ← c.integer R 3 0 "Data"
  let placement ← s.placement c 4
  pure (.addTransponder
    ⟨s.laying.position, kind, data, s.sectionAhead ahead, object, placement.offset⟩)

/-- Reads a transponder. -/
def readTransponder (s : Site R) (c : Command) : Check (Action R) := do
  let kind ← c.integer R 0 0 "Type"
  let ahead ← c.integer R 1 0 "Signal"
  let data ← c.integer R 2 0 "SwitchSystem"
  let placement ← s.placement c 3
  pure (.addTransponder
    ⟨s.laying.position, kind, data, s.sectionAhead ahead, none, placement.offset⟩)

/-- Reads a sound for the player's train. -/
def readAnnounce (s : Site R) (c : Command) : Check (Action R) := do
  let sound ← s.loadFirst c .sound s.folders.sounds
  let speed ← c.number 1 0 "Speed"
  pure (.addSound
    ⟨s.laying.position, sound, .announce, .zero, speed * s.tables.options.unitOfSpeed⟩)

/-- Reads a sound beside the rail. -/
def readDoppler (s : Site R) (c : Command) : Check (Action R) := do
  let sound ← s.loadFirst c .sound s.folders.sounds
  let x ← s.length c 1 0 "X"
  let y ← s.length c 2 0 "Y"
  pure (.addSound ⟨s.laying.position, sound, .doppler, ⟨x, y⟩, 0⟩)

/-- Reads the distance over which a marker is shown; a negative one reaches back, but not beyond the
start of the line. -/
def readMarker (s : Site R) (c : Command) (content : MarkerContent) : Check (Action R) := do
  let distance ← s.length c 1 0 "Distance"
  if distance == 0 then c.fail (.mustBe "Distance" .nonZero)
  let position := s.laying.position
  if distance < 0 then
    pure (.addMarker ⟨Scalar.max (position + distance) 0, position, content⟩)
  else pure (.addMarker ⟨position, position + distance, content⟩)

/-- Reads a marker that shows a picture. -/
def readImageMarker (s : Site R) (c : Command) : Check (Action R) := do
  let texture ← s.loadFirst c .texture s.folders.route
  s.readMarker c (.image texture)

/-- Reads a marker that shows a text. -/
def readTextMarker (s : Site R) (c : Command) : Check (Action R) := do
  let text ← c.require (.missing "Text") (c.argument? 0)
  let color ← c.integer R 2 0 "FontColor"
  s.readMarker c (.text text color)

/-- Reads a point of interest. -/
def readPointOfInterest (s : Site R) (c : Command) : Check (Action R) := do
  let rail ← s.runningRail c
  let placement ← s.placement c 1
  pure (.addPointOfInterest ⟨s.laying.position, rail, placement, (c.argument? 6).getD ""⟩)

/-! ## All commands -/

/-- Reads a command that is known to do something. -/
def readVerb (s : Site R) (c : Command) : TrackVerb → Check (Action R)
  | .rail =>
    if isWord ((c.argument? 1).getD "") ["ended"] then s.readRailEnd c true
    else s.readRailStart c false
  | .railStart => s.readRailStart c true
  | .railEnd => s.readRailEnd c false
  | .railType => s.readRailType c
  | .accuracy => do
    let x ← c.number 0 (Scalar.two : R) "Value"
    pure (.setAccuracy (Scalar.min (Scalar.max x 0) (Scalar.ofNat 4)))
  | .pitch => do
    let x ← c.number 0 (0 : R) "ValueInPermille"
    pure (.setPitch (Scalar.fixed 1 3 * x))
  | .curve => do
    let radius ← s.length c 0 0 "Radius"
    let cant ← c.number 1 (0 : R) "CantInMillimeters"
    pure (.setCurve radius (Scalar.fixed 1 3 * cant))
  | .turn => do
    let x ← c.number 0 (0 : R) "Ratio"
    pure (.setTurn x)
  | .adhesion => do
    let rate ← c.number 0 (Scalar.ofNat 100 : R) "Rate"
    if rate < 0 then c.fail (.mustBe "Rate" .nonNegative)
    pure (.setAdhesion (Scalar.fixed 1 2 * rate))
  | .height => do
    let x ← s.length c 0 0 "Height"
    pure (.setHeight x)
  | .ground => s.readGround c
  | .freeObject => s.readFreeObject c
  | .wall => do
    let x ← s.readWall c .wallL .wallR "WallStructureIndex"
    pure (.setWall x.1 x.2)
  | .dike => do
    let x ← s.readWall c .dikeL .dikeR "DikeStructureIndex"
    pure (.setDike x.1 x.2)
  | .wallEnd => do
    let rail ← s.readEnd c Block.walls
    pure (.endWall rail)
  | .dikeEnd => do
    let rail ← s.readEnd c Block.dikes
    pure (.endDike rail)
  | .poleEnd => do
    let rail ← s.readEnd c Block.poles
    pure (.endPole rail)
  | .pole => s.readPole c
  | .background => s.readBackground c
  | .fog => s.readFog c
  | .indexSection => s.readSection c .indexBased
  | .valueSection => s.readSection c .valueBased
  | .customSignal => s.readCustomSignal c
  | .postSignal => s.readPostSignal c
  | .relay => s.readRelay c
  | .station => s.readStation c
  | .stop => s.readStop c
  | .requestStop => s.readRequestStop c
  | .limit => s.readLimit c
  | .beacon => s.readBeacon c
  | .transponder => s.readTransponder c
  | .announce => s.readAnnounce c
  | .doppler => s.readDoppler c
  | .imageMarker => s.readImageMarker c
  | .textMarker => s.readTextMarker c
  | .buffer => pure .addBuffer
  | .pointOfInterest => s.readPointOfInterest c

/-- Reads a track command. -/
def read (s : Site R) (c : Command) : Check (Action R) :=
  match TrackVerb.ofName? c.name with
  | some verb => s.readVerb c verb
  | none => c.unsupported

/-- Reads a track command and carries it out. A command that asks for nothing leaves the line as it
is. -/
def perform (s : Site R) (c : Command) : Laying R × List Problem :=
  let reading := s.read c
  (match reading.value? with
    | some action => action.apply s.laying
    | none => s.laying, reading.problems)

end Site

end RailRoute
