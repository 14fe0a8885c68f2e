import RailRoute.Block.Line
import RailRoute.Tables.Basic
import RailRoute.Track.Basic

/-!
# Assembling the track

The elements of a track are laid one behind the other: each starts in the frame in which the one
before ends, turned and tilted as its block says. The events of all blocks are then sorted by
position, those at one position in the order of the blocks, and put into the elements they lie in.
The end of the track comes one block behind the start of the last element.
-/

namespace RailRoute.Assembly

variable {R : Type} [Scalar R]

/-! ## Elements -/

/-- The cant of an element. A cant without a sign leans into the curve. -/
def signedCant (behavior : CantBehavior) (b : Block R) : R :=
  match behavior with
  | .signed => b.curveCant
  | .unsigned => Scalar.abs b.curveCant * Scalar.sign b.curveRadius

/-- The heading at the start of a block, turned from the heading before it. -/
def turnHeading (b : Block R) (heading : Vec3 R) : Vec3 R :=
  if b.turn == 0 then heading
  else
    let angle := Scalar.atan b.turn
    heading.rotate Vec3.down (Scalar.cos angle) (Scalar.sin angle)

/-- The elements of blocks, the first of which has the number `i` and starts at a position with a
heading. Slopes of cant and events are still missing. -/
def layElements (behavior : CantBehavior) (interval : R) :
    Nat → Vec3 R → Vec3 R → List (Block R) → List (Element R)
  | _, _, _, [] => []
  | i, position, heading, b :: rest =>
    let frame := Frame.ofHeading position (turnHeading b heading) b.pitch
    let next := frame.advance b.curveRadius interval
    { start := Scalar.ofNat i * interval
      frame := frame
      radius := b.curveRadius
      cant := signedCant behavior b
      cantTangent := 0
      pitch := b.pitch
      adhesion := b.adhesion
      accuracy := b.accuracy
      events := [] } :: layElements behavior interval (i + 1) next.position next.heading rest

/-- The slope of the cant at an element, from the cants of its neighbors, or on one side only at the
ends of the track. -/
def cantTangentAt (cants : Array R) (i : Nat) : R :=
  if cants.size < 2 then 0
  else
    let cant (k : Nat) : R := cants.getD k 0
    if i = 0 then cant 1 - cant 0
    else if i + 1 = cants.size then cant i - cant (i - 1)
    else Scalar.half * (cant (i + 1) - cant (i - 1))

/-- The elements with the slopes of their cants. -/
def withTangents (elements : Array (Element R)) : Array (Element R) :=
  let cants := elements.map (·.cant)
  elements.mapIdx fun i e => { e with cantTangent := cantTangentAt cants i }

/-! ## Events -/

/-- How far ahead of a station the pass alarm sounds. -/
def passAlarmDistance : R := Scalar.ofNat 50

/-- What the events of a block depend on in the blocks before it. -/
structure Carried (R : Type) where
  speed : Speed R
  railType : Nat

/-- The run sound and the flange sound of a type of rail, which are numbered like the type unless
the route says otherwise. -/
def railSounds (train : TrainInfo R) (railType : Nat) : Nat × Nat :=
  (train.runSounds.getD railType railType, train.flangeSounds.getD railType railType)

/-- The type of the main rail of a block. -/
def mainRailType (b : Block R) : Nat := b.railTypes.getD 0 0

/-- The change of rail sounds at the start of a block. -/
def railEvents (train : TrainInfo R) (start : R) (before after : Nat) : List (R × EventKind R) :=
  if before = after then []
  else
    let old := railSounds train before
    let new := railSounds train after
    [(start, .railSoundsChange old.1 old.2 new.1 new.2)]

/-- The position at which a station ends: that of the station or of its last stop. -/
def stationEndPosition (s : Station R) : R :=
  s.stops.foldl (fun furthest stop => Scalar.max furthest stop.position) s.position

/-- The events of a station. -/
def stationEvents (index : Nat) (s : Station R) : List (R × EventKind R) :=
  let alarm := if s.passAlarm then
    [(Scalar.max (s.position - passAlarmDistance) 0, EventKind.stationPassAlarm index)] else []
  alarm ++ [(s.position, .stationStart index), (stationEndPosition s, .stationEnd index)]

/-- The events of the station of a block. -/
def blockStationEvents (l : Line R) (b : Block R) : List (R × EventKind R) :=
  match b.station with
  | none => []
  | some index =>
    match l.stations[index]? with
    | none => []
    | some s => stationEvents index s

/-- The event at which a section begins. -/
def sectionEvent? (l : Line R) (index : Nat) : Option (R × EventKind R) :=
  (l.sections[index]?).map fun s =>
    (s.position, .sectionChange (if 0 < index then some (index - 1) else none) index)

/-- The events of speed limits, each of which knows the speed before it. -/
def limitEvents : Speed R → List (LimitSign R) → List (R × EventKind R)
  | _, [] => []
  | before, l :: rest => (l.position, .limit before l.speed) :: limitEvents l.speed rest

/-- The speed behind the last of some limits. -/
def speedAfter (before : Speed R) (limits : Array (LimitSign R)) : Speed R :=
  match limits.back? with
  | some l => l.speed
  | none => before

/-- The event of a sound. Announcements are played once, and those with a speed move with the
train. -/
def soundEvent (s : SoundPlacement R) : R × EventKind R :=
  let place : Vec3 R := ⟨s.offset.x, s.offset.y, 0⟩
  match s.kind with
  | .announce => (s.position, .sound s.sound true true (!(s.speed == 0)) place s.speed)
  | .doppler => (s.position, .sound s.sound false false true place s.speed)

/-- The event of a transponder. -/
def transponderEvent (t : Transponder R) : R × EventKind R :=
  (t.position, .transponder t.kind t.data t.signalSection)

/-- The events of one block. -/
def blockEvents (l : Line R) (train : TrainInfo R) (start : R) (c : Carried R) (b : Block R) :
    List (R × EventKind R) :=
  railEvents train start c.railType (mainRailType b) ++ blockStationEvents l b ++
    b.sections.toList.filterMap (sectionEvent? l) ++ limitEvents c.speed b.limits.toList ++
    b.sounds.toList.map soundEvent ++ b.transponders.toList.map transponderEvent

/-- The events of blocks, the first of which has the number `i`. -/
def eventsFrom (l : Line R) (train : TrainInfo R) :
    Nat → Carried R → List (Block R) → List (R × EventKind R)
  | _, _, [] => []
  | i, c, b :: rest =>
    blockEvents l train (l.blockStart i) c b ++
      eventsFrom l train (i + 1) ⟨speedAfter c.speed b.limits, mainRailType b⟩ rest

/-- The events at which markers appear and disappear. -/
def markerEvents (markers : List (Marker R)) : List (R × EventKind R) :=
  markers.zipIdx.flatMap fun m =>
    [(m.1.start, .marker m.2 true), (m.1.finish, .marker m.2 false)]

/-- What is carried into the first block. -/
def firstCarried (l : Line R) : Carried R :=
  ⟨.unlimited, match l.blocks[0]? with
    | some b => mainRailType b
    | none => 0⟩

/-- All events of a line with their positions, in the order of the blocks; markers come last. -/
def collectEvents (l : Line R) (train : TrainInfo R) : List (R × EventKind R) :=
  eventsFrom l train 0 (firstCarried l) l.blocks.toList ++ markerEvents l.markers.toList

/-! ## The track -/

/-- The element that a position lies in. What lies outside the track belongs to the nearer end. -/
def elementIndex (interval : R) (count : Nat) (position : R) : Nat :=
  min (Scalar.floorNat (position / interval)) (count - 1)

/-- Adds an event to an element, ahead of those that are there. -/
def addEvent (e : Element R) (position : R) (kind : EventKind R) : Element R :=
  { e with events := ⟨position - e.start, kind, false⟩ :: e.events }

/-- Puts an event into the element it lies in. -/
def placeEvent (interval : R) (event : R × EventKind R) (elements : Array (Element R)) :
    Array (Element R) :=
  elements.modify (elementIndex interval elements.size event.1) fun e =>
    addEvent e event.1 event.2

/-- Puts the end of the track into the last element. -/
def placeEnd (interval : R) (elements : Array (Element R)) : Array (Element R) :=
  elements.modify (elements.size - 1) fun e =>
    { e with events := ⟨interval, .trackEnd, false⟩ :: e.events }

/-- Puts events into the elements they lie in, where they keep their order and come ahead of those
that are there. -/
def placeEvents (interval : R) (events : List (R × EventKind R)) (elements : Array (Element R)) :
    Array (Element R) :=
  events.foldr (placeEvent interval) elements

/-- The events of a line sorted by position. -/
def sortedEvents (l : Line R) (train : TrainInfo R) : List (R × EventKind R) :=
  (collectEvents l train).mergeSort fun a b => Scalar.sortsBefore a.1 b.1

/-- The track of a line. The end of the track is the last event of all. -/
def assemble (l : Line R) (t : Tables R) : Track R :=
  let laid := layElements t.options.cantBehavior l.interval 0 .zero .forward l.blocks.toList
  let elements := withTangents laid.toArray
  ⟨placeEvents l.interval (sortedEvents l t.train) (placeEnd l.interval elements)⟩

/-- The progress reported while a line of `n` blocks is assembled: one fraction for each block. -/
def progress (n : Nat) : List R :=
  (List.range n).map fun i => Scalar.ofNat i / Scalar.ofNat n

end RailRoute.Assembly
