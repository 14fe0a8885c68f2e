import RailRoute.Block.Line

/-!
# Laying the line

While a line is laid there is a current position, its block, the station and the signal section last
opened. What a command does to the line is a value of `Action`, in which everything is checked and
computed already; `Action.apply` carries it out and cannot fail.
-/

namespace RailRoute

/-- A line while it is laid. -/
structure Laying (R : Type) where
  line : Line R
  position : R
  /-- The block of the position. -/
  block : Nat
  /-- The station last opened. -/
  station : Option Nat
  /-- Whether a section holds its signal for the station last opened. -/
  stationHeld : Bool
  /-- The signal section last opened. -/
  signalSection : Nat

/-- One change of a line, at the current position. -/
inductive Action (R : Type) where
  /-- A rail starts at an offset, or moves there if it runs already. -/
  | startRail (rail : Nat) (offset : Vec2 R)
  /-- A rail ends where it came to, or at an offset. -/
  | endRail (rail : Nat) (finish : Option (Vec2 R))
  | setRailType (rail railType : Nat)
  | setAccuracy (x : R)
  | setPitch (x : R)
  | setCurve (radius cant : R)
  | setTurn (x : R)
  | setAdhesion (x : R)
  | setHeight (x : R)
  | setGround (cycle : Nat)
  | addFreeObject (object : FreeObject R)
  | setWall (rail : Nat) (wall : Wall)
  | setDike (rail : Nat) (dike : Wall)
  | setPole (rail : Nat) (pole : Pole R)
  | endWall (rail : Nat)
  | endDike (rail : Nat)
  | endPole (rail : Nat)
  | setBackground (index : Nat)
  | setFog (fog : Fog R)
  | openSection (aspects : List Nat) (kind : SectionKind)
  | addSignal (signal : SignalPlacement R)
  /-- A signal from the compatibility set, which opens a section of its own. -/
  | openSignal (head : SignalHead) (aspects : List Nat) (placement : Placement R)
  | openStation (station : Station R)
  | addStop (station : Nat) (stop : StopPoint R)
  | addRequestStop (stop : RequestStop R)
  | addLimit (limit : LimitSign R)
  | addTransponder (transponder : Transponder R)
  | addSound (sound : SoundPlacement R)
  | addMarker (marker : Marker R)
  | addBuffer
  | addPointOfInterest (point : PointOfInterest R)

namespace Laying

variable {R : Type} [Scalar R]

/-- A line of which nothing is laid yet. -/
def initial (interval height : R) : Laying R :=
  ⟨Line.initial interval height, 0, 0, none, false, 0⟩

/-- The block of the current position. -/
def currentBlock (s : Laying R) : Block R := (s.line.blocks[s.block]?).getD (Block.initial 0)

/-- Goes to a position and adds the blocks up to it. -/
def moveTo (s : Laying R) (position : R) : Laying R :=
  let index := s.line.blockIndex position
  let line := { s.line with firstUsedBlock := s.line.firstUsedBlock.or (some index) }
  { s with line := line.reach index, position := position, block := index }

/-- Changes the block of the current position. -/
def modifyBlock (s : Laying R) (f : Block R → Block R) : Laying R :=
  { s with line := s.line.modifyBlock s.block f }

/-- The station that a new section holds its signal for: the one last opened, if it keeps its signal
red and no section holds for it yet. -/
def departureStation (s : Laying R) : Option Nat :=
  match s.station with
  | none => none
  | some i =>
    match s.line.stations[i]? with
    | none => none
    | some station => if station.forcedRedSignal && !s.stationHeld then some i else none

/-- Opens a signal section at the current position. -/
def openSection (s : Laying R) (aspects : List Nat) (kind : SectionKind) : Laying R :=
  let index := s.line.sections.size
  let departure := s.departureStation
  let added : Section R := ⟨s.position, aspects, kind, departure, false⟩
  let s := s.modifyBlock fun b => { b with sections := b.sections.push index }
  { s with
    line := { s.line with sections := s.line.sections.push added }
    stationHeld := s.stationHeld || departure.isSome
    signalSection := index }

/-- A signal on a post at the current position. Without an offset to the side it is not shown, and
below the rail its post is not. -/
def postSignal (s : Laying R) (signalSection : Nat) (head : SignalHead) (p : Placement R) :
    SignalPlacement R where
  position := s.position
  signalSection := signalSection
  head := head
  placement := { p with offset := ⟨p.offset.x, Scalar.abs p.offset.y⟩ }
  showsObject := !(p.offset.x == 0)
  showsPost := !(p.offset.x == 0) && decide (0 ≤ p.offset.y)

/-- Places a signal in the block of the current position. -/
def addSignal (s : Laying R) (signal : SignalPlacement R) : Laying R :=
  s.modifyBlock fun b => { b with signals := b.signals.push signal }

/-- Starts or moves a rail. One that runs in the block before leads to the new offset. -/
def startRail (s : Laying R) (rail : Nat) (offset : Vec2 R) : Laying R :=
  let started := s.modifyBlock fun b =>
    { b with rails := b.rails.insert rail ⟨true, true, false, offset, offset⟩ }
  if s.block = 0 then started
  else
    { started with line := started.line.modifyBlock (s.block - 1) fun b =>
        { b with rails := b.rails.modify rail fun r =>
            if r.isRunning then { r with finish := offset } else r } }

/-- Opens a station, which becomes the one of the current block. -/
def openStation (s : Laying R) (station : Station R) : Laying R :=
  let index := s.line.stations.size
  let s := s.modifyBlock fun b => { b with station := some index }
  { s with
    line := { s.line with stations := s.line.stations.push station }
    station := some index
    stationHeld := false }

/-- Adds a stop to a station and to the block of the current position. -/
def addStop (s : Laying R) (station : Nat) (stop : StopPoint R) : Laying R :=
  match s.line.stations[station]? with
  | none => s
  | some st =>
    let s := s.modifyBlock fun b => { b with stops := b.stops.push (station, st.stops.size) }
    { s with line := { s.line with
        stations := s.line.stations.modify station fun st =>
          { st with stops := st.stops.push stop } } }

end Laying

/-- Carries out a change of the line. -/
def Action.apply {R : Type} [Scalar R] (a : Action R) (s : Laying R) : Laying R :=
  match a with
  | .startRail rail offset => s.startRail rail offset
  | .endRail rail finish => s.modifyBlock fun b =>
    { b with rails := b.rails.modify rail fun r =>
        { r with ended := true, finish := finish.getD r.finish } }
  | .setRailType rail railType => s.modifyBlock fun b =>
    { b with railTypes := b.railTypes.insert rail railType }
  | .setAccuracy x => s.modifyBlock fun b => { b with accuracy := x }
  | .setPitch x => s.modifyBlock fun b => { b with pitch := x }
  | .setCurve radius cant => s.modifyBlock fun b =>
    { b with curveRadius := radius, curveCant := cant }
  | .setTurn x => s.modifyBlock fun b => { b with turn := x }
  | .setAdhesion x => s.modifyBlock fun b => { b with adhesion := x }
  | .setHeight x => s.modifyBlock fun b => { b with height := x }
  | .setGround cycle => s.modifyBlock fun b => { b with ground := cycle }
  | .addFreeObject object => s.modifyBlock fun b =>
    { b with freeObjects := b.freeObjects.push object }
  | .setWall rail wall => s.modifyBlock fun b => { b with walls := b.walls.insert rail wall }
  | .setDike rail dike => s.modifyBlock fun b => { b with dikes := b.dikes.insert rail dike }
  | .setPole rail pole => s.modifyBlock fun b => { b with poles := b.poles.insert rail pole }
  | .endWall rail => s.modifyBlock fun b => { b with walls := b.walls.erase rail }
  | .endDike rail => s.modifyBlock fun b => { b with dikes := b.dikes.erase rail }
  | .endPole rail => s.modifyBlock fun b => { b with poles := b.poles.erase rail }
  | .setBackground index => s.modifyBlock fun b => { b with background := index }
  | .setFog fog => s.modifyBlock fun b => { b with fog := fog, fogDefined := true }
  | .openSection aspects kind => s.openSection aspects kind
  | .addSignal signal => s.addSignal signal
  | .openSignal head aspects placement =>
    let opened := s.openSection aspects .indexBased
    opened.addSignal (opened.postSignal opened.signalSection head placement)
  | .openStation station => s.openStation station
  | .addStop station stop => s.addStop station stop
  | .addRequestStop stop =>
    { s with line := { s.line with requestStops := s.line.requestStops.push stop } }
  | .addLimit limit => s.modifyBlock fun b => { b with limits := b.limits.push limit }
  | .addTransponder transponder => s.modifyBlock fun b =>
    { b with transponders := b.transponders.push transponder }
  | .addSound sound => s.modifyBlock fun b => { b with sounds := b.sounds.push sound }
  | .addMarker marker => { s with line := { s.line with markers := s.line.markers.push marker } }
  | .addBuffer => { s with line := { s.line with buffers := s.line.buffers.push s.position } }
  | .addPointOfInterest point =>
    { s with line := { s.line with pointsOfInterest := s.line.pointsOfInterest.push point } }

end RailRoute
