import RailRoute.Geometry.Vector
import RailRoute.IndexMap
import RailRoute.Speed
import RailRoute.Tables.RouteInfo

/-!
# Blocks

The line is laid in blocks of equal length. A block holds the state that commands leave behind, such
as running rails and the curve, and the things that commands place in it. A new block takes over
the state of the block before it and none of the things.
-/

namespace RailRoute

/-! ## What stands along the line -/

/-- A rail within one block. -/
structure Rail (R : Type) where
  started : Bool
  /-- Whether the rail is started, or started again, in this very block. -/
  refreshed : Bool
  ended : Bool
  start : Vec2 R
  finish : Vec2 R

/-- Whether a rail goes on behind its block. -/
def Rail.isRunning {R : Type} (r : Rail R) : Bool := r.started && !r.ended

/-- The sides of a rail that a wall or dike covers. -/
inductive Side where
  | left
  | both
  | right
  deriving DecidableEq, Repr

/-- The side that a direction stands for. -/
def Side.ofInt? (x : Int) : Option Side :=
  if x = -1 then some .left else if x = 0 then some .both else if x = 1 then some .right else none

/-- A wall or a dike along a rail. -/
structure Wall where
  side : Side
  object : Nat
  deriving DecidableEq, Repr

/-- Poles along a rail. -/
structure Pole (R : Type) where
  additionalRails : Nat
  location : Int
  /-- The distance of two poles, in blocks. -/
  interval : R
  object : Nat

/-- Where a thing stands relative to its rail, and how it is turned, in radians. -/
structure Placement (R : Type) where
  offset : Vec2 R
  yaw : R
  pitch : R
  roll : R

/-- An object placed once. -/
structure FreeObject (R : Type) where
  position : R
  rail : Nat
  object : Nat
  placement : Placement R

/-- Fog between two distances. -/
structure Fog (R : Type) where
  start : R
  finish : R
  color : Color

/-- What is mounted as a signal. -/
inductive SignalHead where
  /-- A head from the table of signals. -/
  | custom (index : Nat)
  /-- A head from the compatibility set, by its number of aspects. -/
  | compatibility (aspects : Int)
  | relay
  deriving DecidableEq, Repr

/-- A signal along the line. -/
structure SignalPlacement (R : Type) where
  position : R
  signalSection : Nat
  head : SignalHead
  placement : Placement R
  showsObject : Bool
  showsPost : Bool

/-- How the aspects of a section are listed. -/
inductive SectionKind where
  | indexBased
  | valueBased
  deriving DecidableEq, Repr

/-- A signal section, from its position on. -/
structure Section (R : Type) where
  position : R
  aspects : List Nat
  kind : SectionKind
  /-- The station whose departure the section holds its signal for. -/
  departureStation : Option Nat
  invisible : Bool

/-- When trains arrive at a station. -/
inductive Arrival where
  | unspecified
  | timed (seconds : Nat)
  | pass
  deriving DecidableEq, Repr

/-- When trains leave a station. -/
inductive Departure where
  | unspecified
  | timed (seconds : Nat)
  | terminal
  deriving DecidableEq, Repr

/-- A place to stop at a station. -/
structure StopPoint (R : Type) where
  position : R
  direction : Int
  backwardTolerance : R
  forwardTolerance : R
  cars : Nat

/-- A station. -/
structure Station (R : Type) where
  name : String
  position : R
  arrival : Arrival
  departure : Departure
  passAlarm : Bool
  /-- The doors that open: -1 left, 0 none, 1 right. -/
  doors : Int
  forcedRedSignal : Bool
  safetySystem : Int
  arrivalSound : Option String
  stopTime : R
  passengerRatio : R
  departureSound : Option String
  timetable : Option Nat
  stops : Array (StopPoint R)

/-- Whether trains pass the station without stopping. -/
def Station.isPassed {R : Type} (s : Station R) : Bool := s.arrival = .pass

/-- A stop that is made on request. -/
structure RequestStop (R : Type) where
  position : R
  station : Option Nat
  /-- The chance that the stop is requested, in percent. -/
  probability : R
  maxCars : Nat
  fullSpeed : Bool

/-- A speed limit from its position on. -/
structure LimitSign (R : Type) where
  position : R
  speed : Speed R
  postSide : Int
  course : Int

/-- What a sound belongs to. -/
inductive SoundKind where
  /-- Played once, for the player's train. -/
  | announce
  /-- Attached to the world. -/
  | doppler
  deriving DecidableEq, Repr

/-- A sound along the line. -/
structure SoundPlacement (R : Type) where
  position : R
  sound : String
  kind : SoundKind
  offset : Vec2 R
  speed : R

/-- A device that sends data to passing trains. -/
structure Transponder (R : Type) where
  position : R
  kind : Int
  data : Int
  signalSection : Option Nat
  beaconStructure : Option Nat
  offset : Vec2 R

/-- What a marker shows. -/
inductive MarkerContent where
  | image (texture : String)
  | text (text : String) (color : Int)
  deriving DecidableEq, Repr

/-- A marker shown between two positions. -/
structure Marker (R : Type) where
  start : R
  finish : R
  content : MarkerContent

/-- A point to look at from. -/
structure PointOfInterest (R : Type) where
  position : R
  rail : Nat
  placement : Placement R
  text : String

/-! ## Blocks -/

/-- One block of the line. -/
structure Block (R : Type) where
  rails : IndexMap (Rail R)
  railTypes : IndexMap Nat
  turn : R
  pitch : R
  curveRadius : R
  /-- The cant in meters. -/
  curveCant : R
  height : R
  adhesion : R
  accuracy : R
  background : Nat
  fog : Fog R
  fogDefined : Bool
  ground : Nat
  walls : IndexMap Wall
  dikes : IndexMap Wall
  poles : IndexMap (Pole R)
  freeObjects : Array (FreeObject R)
  signals : Array (SignalPlacement R)
  sections : Array Nat
  station : Option Nat
  /-- Stops in this block, each as a station and the place among its stops. -/
  stops : Array (Nat × Nat)
  limits : Array (LimitSign R)
  sounds : Array (SoundPlacement R)
  transponders : Array (Transponder R)

namespace Block

variable {R : Type} [Scalar R]

/-- The first block of a line: the main rail runs, straight and level. -/
def initial (height : R) : Block R where
  rails := Std.TreeMap.insert ∅ 0 ⟨true, true, false, .zero, .zero⟩
  railTypes := Std.TreeMap.insert ∅ 0 0
  turn := 0
  pitch := 0
  curveRadius := 0
  curveCant := 0
  height := height
  adhesion := 1
  accuracy := Scalar.two
  background := 0
  fog := ⟨0, 0, ⟨128, 128, 128⟩⟩
  fogDefined := false
  ground := 0
  walls := ∅
  dikes := ∅
  poles := ∅
  freeObjects := #[]
  signals := #[]
  sections := #[]
  station := none
  stops := #[]
  limits := #[]
  sounds := #[]
  transponders := #[]

/-- A running rail as it enters the next block: it goes on where it came to. -/
def carryRail? (r : Rail R) : Option (Rail R) :=
  if r.isRunning then some ⟨true, false, false, r.finish, r.finish⟩ else none

/-- The block behind this one, with the state it takes over. -/
def inherit (b : Block R) : Block R :=
  { b with
    rails := b.rails.filterMap fun _ r => carryRail? r
    turn := 0
    fogDefined := false
    freeObjects := #[]
    signals := #[]
    sections := #[]
    station := none
    stops := #[]
    limits := #[]
    sounds := #[]
    transponders := #[] }

/-- Whether a rail runs in the block. -/
def isRunning (b : Block R) (rail : Nat) : Bool :=
  match b.rails[rail]? with
  | some r => r.isRunning
  | none => false

end Block

end RailRoute
