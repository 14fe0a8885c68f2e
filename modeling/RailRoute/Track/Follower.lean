import RailRoute.Geometry.Irregularity
import RailRoute.Track.Basic

/-!
# Followers

A follower is a point that moves along the track. A move takes it to a new position, gives it the
frame and the cant there, and crosses the events in between. The move is planned first, as a list
of visits: elements to be left backwards or forwards, and the element where the move ends, each with
the stretch of it that is travelled. The events inside the stretches are then crossed in order.
-/

namespace RailRoute

/-- A point that moves along the track. -/
structure Follower (R : Type) where
  /-- The element the point was last found in. -/
  element : Nat
  position : R
  frame : Frame R
  radius : R
  cant : R
  /-- The part of the cant that irregularity adds. -/
  irregularCant : R
  /-- The gradient in per mille. -/
  pitch : R
  adhesion : R
  crosser : Crosser
  deriving DecidableEq, Repr

/-- How a move is carried out. -/
structure MoveMode where
  /-- Whether the frame is computed. -/
  updatesFrame : Bool
  /-- Whether irregularity is added. -/
  addsIrregularity : Bool
  deriving DecidableEq, Repr

/-- A stretch of an element, travelled in a direction: from one offset to another. -/
structure Visit (R : Type) where
  element : Nat
  direction : Int
  source : R
  target : R
  deriving DecidableEq, Repr

variable {R : Type} [Scalar R]

/-! ## Crossing events -/

/-- Whether an offset lies inside the stretch. The offset one comes from does not count, and the one
that is reached does. -/
def Visit.crosses (v : Visit R) (offset : R) : Bool :=
  if v.direction < 0 then decide (offset < v.source) && decide (v.target ≤ offset)
  else if 0 < v.direction then decide (v.source < offset) && decide (offset ≤ v.target)
  else false

/-- Crosses an event if it lies inside the stretch. -/
def Visit.crossEvent (v : Visit R) (c : Crosser) (e : Event R) : Event R × Option (Crossing R) :=
  if v.crosses e.offset then e.trigger v.direction c else (e, none)

/-- Crosses the events of an element that lie inside the stretch, in their order. -/
def Visit.crossElement (v : Visit R) (c : Crosser) (e : Element R) :
    Element R × List (Crossing R) :=
  let crossed := e.events.map (v.crossEvent c)
  ({ e with events := crossed.map (·.1) }, crossed.filterMap (·.2))

/-- Crosses the events of a visit. -/
def Track.visit (t : Track R) (c : Crosser) (v : Visit R) : Track R × List (Crossing R) :=
  match t.elements[v.element]? with
  | none => (t, [])
  | some e =>
    let crossed := v.crossElement c e
    (⟨t.elements.set! v.element crossed.1⟩, crossed.2)

/-- Crosses the events of several visits. -/
def Track.visitAll (t : Track R) (c : Crosser) : List (Visit R) → Track R × List (Crossing R)
  | [] => (t, [])
  | v :: rest =>
    let first := t.visit c v
    let others := Track.visitAll first.1 c rest
    (others.1, first.2 ++ others.2)

/-! ## Planning a move -/

namespace Follower

/-- The start of an element of the track. -/
def startOf (t : Track R) (i : Nat) : R :=
  match t.elements[i]? with
  | some e => e.start
  | none => 0

/-- An element left backwards; the stretch reaches a little beyond its start. -/
def visitBackward (t : Track R) (source : R) (i : Nat) : Visit R :=
  ⟨i, -1, source - startOf t i, -Scalar.fixed 1 2⟩

/-- An element left forwards for the next, which starts at `next`; the stretch reaches a little
beyond that start. -/
def visitForward (t : Track R) (source next : R) (i : Nat) : Visit R :=
  ⟨i, 1, source - startOf t i, next - startOf t i + Scalar.fixed 1 2⟩

/-- The element at which the way back ends, and the visits on it. An element is left backwards
unless the target lies at or behind its start. -/
def planBackward (t : Track R) (source target : R) : Nat → Nat × List (Visit R)
  | 0 => (0, if startOf t 0 ≤ target then [] else [visitBackward t source 0])
  | i + 1 =>
    if startOf t (i + 1) ≤ target then (i + 1, [])
    else
      let rest := planBackward t source target i
      (rest.1, visitBackward t source (i + 1) :: rest.2)

/-- The element at which the way forward ends, and the visits on it, looking at `fuel` elements at
most. An element is left forwards unless the target lies before the start of the next. -/
def planForward (t : Track R) (source target : R) : Nat → Nat → Nat × List (Visit R)
  | 0, i => (i, [])
  | fuel + 1, i =>
    match t.nextStart? i with
    | none => (i, [])
    | some next =>
      if target < next then (i, [])
      else
        let rest := planForward t source target fuel (i + 1)
        (rest.1, visitForward t source next i :: rest.2)

/-- The direction of travel inside the element where a move ends. -/
def finalDirection (source target : R) : Int :=
  if source < target then 1 else if target < source then -1 else 0

/-- The element where a move ends, and all visits on the way. -/
def plan (t : Track R) (element : Nat) (source target : R) : Nat × List (Visit R) :=
  let back := planBackward t source target (min element (t.elements.size - 1))
  let forth := planForward t source target (t.elements.size - back.1) back.1
  let start := startOf t forth.1
  let last : Visit R :=
    ⟨forth.1, finalDirection (source - start) (target - start), source - start, target - start⟩
  (forth.1, back.2 ++ forth.2 ++ [last])

/-! ## The pose -/

/-- A follower at the start of the track, before its first move. -/
def initial (c : Crosser) : Follower R where
  element := 0
  position := 0
  frame := .initial
  radius := 0
  cant := 0
  irregularCant := 0
  pitch := 0
  adhesion := 1
  crosser := c

/-- How much of the way to the next element is covered, from zero to one. -/
def covered (e : Element R) (next? : Option (Element R)) (offset : R) : R :=
  match next? with
  | some next => Scalar.min (Scalar.max (offset / (next.start - e.start)) 0) 1
  | none => 1

/-- The cant without irregularity, which changes smoothly from element to element. -/
def smoothCant (e : Element R) (next? : Option (Element R)) (t : R) : R :=
  match next? with
  | some next => hermite t e.cant e.cantTangent next.cant next.cantTangent
  | none => e.cant

/-- The irregularity at a position, which changes gradually from element to element. -/
def irregularity (e : Element R) (next? : Option (Element R)) (position t : R) : Irregularity R :=
  let here := Irregularity.atPosition position e.accuracy
  let there := match next? with
    | some next => Irregularity.atPosition position next.accuracy
    | none => here
  here.blend there t

/-- The frame moved by an irregularity, to the side and upward. -/
def shiftFrame (f : Frame R) (i : Irregularity R) : Frame R :=
  { f with position := f.position + (f.side * i.x + f.up * i.y) }

/-- The follower at a position inside an element. -/
def place (f : Follower R) (mode : MoveMode) (i : Nat) (e : Element R) (next? : Option (Element R))
    (position : R) : Follower R :=
  let offset := position - e.start
  let t := covered e next? offset
  let frame := if mode.updatesFrame then e.frame.advance e.radius offset else f.frame
  let cant := smoothCant e next? t
  let moved : Follower R :=
    { f with
      element := i
      position := position
      frame := frame
      radius := e.radius
      cant := cant
      irregularCant := 0
      pitch := e.pitch * Scalar.ofNat 1000
      adhesion := e.adhesion }
  if mode.addsIrregularity then
    let extra := irregularity e next? position t
    { moved with
      frame := if mode.updatesFrame then shiftFrame frame extra else frame
      cant := cant + extra.cant
      irregularCant := extra.cant }
  else moved

/-! ## Moves -/

/-- What a move leaves behind: the follower, the track, whose events may have fallen silent, and the
crossings in order. -/
structure Moved (R : Type) where
  follower : Follower R
  track : Track R
  crossings : Array (Crossing R)

/-- Moves a follower to a position. On an empty track nothing moves. -/
def moveTo (f : Follower R) (t : Track R) (mode : MoveMode) (target : R) : Moved R :=
  let planned := plan t f.element f.position target
  match t.elements[planned.1]? with
  | none => ⟨f, t, #[]⟩
  | some e =>
    let next? := t.elements[planned.1 + 1]?
    let crossed := t.visitAll f.crosser planned.2
    ⟨f.place mode planned.1 e next? target, crossed.1, crossed.2.toArray⟩

/-- Moves a follower by a distance. -/
def moveBy (f : Follower R) (t : Track R) (mode : MoveMode) (distance : R) : Moved R :=
  f.moveTo t mode (f.position + distance)

/-! ## Walks -/

/-- The shortest step of a walk. -/
def leastStep : R := Scalar.fixed 1 3

/-- Moves a follower by steps until it is not before `goal` anymore, `fuel` times at most, and adds
to the crossings so far. -/
def walkSteps (step goal : R) :
    Nat → Follower R → Track R → Array (Crossing R) → Moved R
  | 0, f, t, crossings => ⟨f, t, crossings⟩
  | fuel + 1, f, t, crossings =>
    if f.position < goal then
      let moved := f.moveBy t ⟨true, true⟩ step
      walkSteps step goal fuel moved.follower moved.track (crossings ++ moved.crossings)
    else ⟨f, t, crossings⟩

/-- How many steps suffice from a position to a goal. Rounding can make a step shorter than it
should be, but not by as much as a half. -/
def stepsEnough (step goal position : R) : Nat :=
  2 * Scalar.floorNat ((goal - position) / step) + 2

/-- Moves a follower by steps until it is beyond the end of the track by a step. -/
def walk (f : Follower R) (t : Track R) (step : R) : Moved R :=
  let step := Scalar.max step leastStep
  match t.endPosition? with
  | none => ⟨f, t, #[]⟩
  | some finish =>
    let goal := finish + step
    walkSteps step goal (stepsEnough step goal f.position) f t #[]

end Follower

end RailRoute
