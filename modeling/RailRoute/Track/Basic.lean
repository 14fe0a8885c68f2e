import RailRoute.Geometry.Frame
import RailRoute.Track.Event

/-!
# The track

A track is a row of elements, one for each block of the line. An element has the frame at its start,
the shape of the track up to the next element, and the events in between.
-/

namespace RailRoute

/-- One element of the track. -/
structure Element (R : Type) where
  start : R
  frame : Frame R
  /-- The radius of the curve, which is zero on a straight. -/
  radius : R
  cant : R
  /-- The slope of the cant at the start, for the length of an element. -/
  cantTangent : R
  /-- The rise for each unit of run. -/
  pitch : R
  adhesion : R
  accuracy : R
  events : List (Event R)
  deriving DecidableEq, Repr

/-- The events of an element with their positions. -/
def Element.placedEvents {R : Type} [Scalar R] (e : Element R) : List (R × Event R) :=
  e.events.map fun ev => (e.start + ev.offset, ev)

/-- A track. -/
structure Track (R : Type) where
  elements : Array (Element R)
  deriving DecidableEq, Repr

namespace Track

variable {R : Type} [Scalar R]

/-- The start of the element behind the given one. -/
def nextStart? (t : Track R) (i : Nat) : Option R := (t.elements[i + 1]?).map (·.start)

/-- The events of the track with their positions, in the order of the elements. -/
def events (t : Track R) : List (R × Event R) := t.elements.toList.flatMap Element.placedEvents

/-- Whether an event is the end of the track. -/
def isEnd (e : Event R) : Bool :=
  match e.kind with
  | .trackEnd => true
  | _ => false

/-- The position at which the track ends. -/
def endPosition? (t : Track R) : Option R := (t.events.find? fun e => isEnd e.2).map (·.1)

end Track

end RailRoute
