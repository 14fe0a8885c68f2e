import RailRoute.Geometry.Vector
import RailRoute.Speed

/-!
# Events on the track

An event sits at an offset inside an element of the track. When a point of a train crosses it, it
asks the simulation for some effects, which depend on the direction and on the point that crosses.
A sound that is played once falls silent after the first crossing that has an effect.
-/

namespace RailRoute

/-- The point of a train, or the camera, that crosses an event. -/
inductive Trigger where
  | none
  | frontCarFrontAxle
  | frontCarRearAxle
  | otherCarFrontAxle
  | otherCarRearAxle
  | rearCarFrontAxle
  | rearCarRearAxle
  | camera
  deriving DecidableEq, Repr

/-- Whether the point is an axle. -/
def Trigger.isAxle : Trigger → Bool
  | .none | .camera => false
  | _ => true

/-- A car of a train. -/
structure Car where
  train : Nat
  car : Nat
  /-- Whether it is the player's train. -/
  player : Bool
  deriving DecidableEq, Repr

/-- What an event stands for. -/
inductive EventKind (R : Type) where
  | stationStart (station : Nat)
  | stationEnd (station : Nat)
  | stationPassAlarm (station : Nat)
  | sectionChange (previous : Option Nat) (next : Nat)
  /-- A dynamic sound follows the train instead of staying at its place. -/
  | sound (file : String) (playerTrainOnly once dynamic : Bool) (position : Vec3 R) (speed : R)
  | railSoundsChange (previousRun previousFlange nextRun nextFlange : Nat)
  | limit (previous next : Speed R)
  | transponder (kind data : Int) (signalSection : Option Nat)
  | marker (index : Nat) (start : Bool)
  | trackEnd
  deriving DecidableEq, Repr

/-- What a crossing asks of the simulation. -/
inductive Effect (R : Type) where
  | setStation (station : Nat)
  | clearStation (station : Nat)
  | passAlarm (station : Nat)
  | enterSection (index : Nat)
  | playSound (file : String) (position : Vec3 R) (speed : R)
  | setRailSounds (run flange : Nat)
  | speedLimit (speed : Speed R)
  | beacon (kind data : Int) (signalSection : Option Nat)
  | showMarker (index : Nat)
  | hideMarker (index : Nat)
  | disposeTrain (train : Nat)
  | derail (car : Car)
  | toggleWorldEnd
  deriving DecidableEq, Repr

/-- Who crosses an event: a point, and the car it belongs to. -/
structure Crosser where
  trigger : Trigger
  car : Option Car
  deriving DecidableEq, Repr

/-- Whether the crosser belongs to the player's train. -/
def Crosser.isPlayer (c : Crosser) : Bool :=
  match c.car with
  | some car => car.player
  | none => false

namespace EventKind

variable {R : Type}

/-- What the end of the track does. The camera shows or hides the world behind it, the last axle of
another train takes the train away, and the player's train derails. -/
def endEffects (forward : Bool) (c : Crosser) : List (Effect R) :=
  if c.trigger = .camera then [.toggleWorldEnd]
  else
    match c.car with
    | none => []
    | some car =>
      if c.trigger = .rearCarRearAxle ∧ !car.player ∧ forward then [.disposeTrain car.train]
      else if car.player ∧ forward ∧ c.trigger.isAxle then [.derail car]
      else []

/-- The effects of crossing an event. A direction is forward if it is positive. -/
def effects (k : EventKind R) (direction : Int) (c : Crosser) : List (Effect R) :=
  let forward := decide (0 < direction)
  let front := decide (c.trigger = .frontCarFrontAxle)
  match k with
  | .stationStart station =>
    if c.trigger = .camera then
      [if forward then .setStation station else .clearStation station]
    else []
  | .stationEnd station =>
    if c.trigger = .camera then
      [if forward then .clearStation station else .setStation station]
    else []
  | .stationPassAlarm station =>
    if front ∧ c.isPlayer ∧ forward then [.passAlarm station] else []
  | .sectionChange previous next =>
    if front then
      if forward then [.enterSection next] else previous.toList.map .enterSection
    else []
  | .sound file playerTrainOnly _ dynamic position speed =>
    let audible := if dynamic then c.trigger.isAxle else front
    if audible ∧ (c.isPlayer ∨ !playerTrainOnly) then [.playSound file position speed] else []
  | .railSoundsChange previousRun previousFlange nextRun nextFlange =>
    if c.trigger.isAxle then
      [if forward then .setRailSounds nextRun nextFlange
        else .setRailSounds previousRun previousFlange]
    else []
  | .limit previous next =>
    if front then [.speedLimit (if forward then next else previous)] else []
  | .transponder kind data signalSection =>
    if front ∧ forward then [.beacon kind data signalSection] else []
  | .marker index start =>
    if front ∧ c.isPlayer then
      [if forward = start then .showMarker index else .hideMarker index]
    else []
  | .trackEnd => endEffects forward c

/-- Whether the event falls silent after its first effect. -/
def latches : EventKind R → Bool
  | .sound _ _ once _ _ _ => once
  | _ => false

end EventKind

/-- An event at an offset from the start of its element. -/
structure Event (R : Type) where
  offset : R
  kind : EventKind R
  /-- Whether the event has fallen silent. -/
  latched : Bool
  deriving DecidableEq, Repr

/-- An event that was crossed, the direction, and what the crossing asks for. -/
structure Crossing (R : Type) where
  event : Event R
  direction : Int
  effects : List (Effect R)
  deriving DecidableEq, Repr

namespace Event

variable {R : Type}

/-- Crosses an event: the event afterwards, and the crossing unless the event had fallen silent.
Crossings without effects are crossings all the same. -/
def trigger (e : Event R) (direction : Int) (c : Crosser) : Event R × Option (Crossing R) :=
  if e.latched then (e, none)
  else
    let effects := e.kind.effects direction c
    let after := { e with latched := e.kind.latches && !effects.isEmpty }
    (after, some ⟨after, direction, effects⟩)

end Event

end RailRoute
