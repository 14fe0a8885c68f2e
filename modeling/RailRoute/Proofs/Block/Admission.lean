import Mathlib
import RailRoute.Block.Reading
import RailRoute.Proofs.Check

/-!
# What reading lets through

An action is carried out without any further test, so all that the line relies on has to be tested
when a command is read: the rails and objects that it names are there, and what it places stands at
the current position. Main statement: `admitted_read`.
-/

namespace RailRoute

open Check

variable {R : Type} [Scalar R]

/-- Whether an object is loaded on each side that a wall or dike covers. -/
def Wall.Loaded (structures : Structures) (left right : StructureKind) (w : Wall) : Prop :=
  (w.side ≠ .right → structures.contains left w.object) ∧
    (w.side ≠ .left → structures.contains right w.object)

/-- Whether a head that is taken from the table of signals is there. -/
def SignalHead.Loaded (signals : IndexMap SignalDefinition) : SignalHead → Prop
  | .custom index => index ∈ signals
  | _ => True

/-- Whether a marker begins or ends at a position. It never begins before the start of the line. -/
def Marker.StandsAt (m : Marker R) (position : R) : Prop :=
  (∃ d, ¬ d < 0 ∧ m.start = position ∧ m.finish = position + d) ∨
    ∃ d, d < 0 ∧ m.start = Scalar.max (position + d) 0 ∧ m.finish = position

/-- What reading makes sure of before an action is carried out. -/
def Action.Admitted (t : Tables R) (s : Laying R) : Action R → Prop
  | .startRail rail _ | .endRail rail _ => rail ≠ 0
  | .addFreeObject o => o.rail ∈ s.currentBlock.rails ∧ t.structures.contains .freeObj o.object
  | .setWall _ w => w.Loaded t.structures .wallL .wallR
  | .setDike _ w => w.Loaded t.structures .dikeL .dikeR
  | .setPole _ p => t.structures.containsPole p.additionalRails p.object
  | .addSignal x => x.head.Loaded t.signals
  | .openSignal head _ _ => head.Loaded t.signals
  | .openStation x => x.position = s.position ∧ x.stops = #[]
  | .addStop station x => s.station = some station ∧ x.position = s.position
  | .addRequestStop x => x.station = s.station
  | .addLimit x => x.position = s.position
  | .addTransponder x => x.position = s.position ∧
    ∀ i ∈ x.beaconStructure, t.structures.contains .beacon i
  | .addSound x => x.position = s.position
  | .addMarker x => x.StandsAt s.position
  | _ => True

omit [Scalar R] in
theorem Block.mem_rails_of_isRunning {b : Block R} {rail : Nat} (h : b.isRunning rail) :
    rail ∈ b.rails := by
  unfold isRunning at h
  split at h
  · rename_i r hr
    exact Std.TreeMap.mem_iff_isSome_getElem?.2 (by simp [hr])
  · cases h

namespace Site

variable (s : Site R) (c : Command)

/-! ## Arguments -/

theorem ensures_object (i : Nat) (kind : StructureKind) (what : String) :
    Ensures (fun index => s.tables.structures.contains kind index ∧
      (c.natural R i 0 what).value? = some index) (s.object c i kind what) := by
  unfold object
  refine Ensures.bind (Q := fun index => (c.natural R i 0 what).value? = some index)
    (fun _ h => h) fun index hindex => ?_
  split_ifs with hloaded
  · exact ensures_pure ⟨hloaded, hindex⟩
  · exact ensures_fail _

theorem ensures_runningRail :
    Ensures (fun rail => rail ∈ s.laying.currentBlock.rails) (s.runningRail c) := by
  unfold runningRail
  refine ensures_bind fun rail => ?_
  split_ifs with hruns
  · exact ensures_pure (Block.mem_rails_of_isRunning hruns)
  · exact ensures_fail _

theorem ensures_otherRail : Ensures (fun rail => rail ≠ 0) (s.otherRail c) := by
  unfold otherRail
  refine ensures_bind fun x => ?_
  split_ifs with hx
  · exact ensures_fail _
  · exact ensures_pure (by omega)

/-! ## Actions -/

theorem admitted_readRailStart (strict : Bool) :
    Ensures (Action.Admitted s.tables s.laying) (s.readRailStart c strict) := by
  unfold readRailStart
  refine (s.ensures_otherRail c).bind fun rail hrail => ?_
  dsimp only
  refine ensures_unless fun _ => ?_
  exact ensures_bind fun _ => ensures_bind fun _ => ensures_pure hrail

theorem admitted_readRailEnd (inPlace : Bool) :
    Ensures (Action.Admitted s.tables s.laying) (s.readRailEnd c inPlace) := by
  unfold readRailEnd
  refine (s.ensures_otherRail c).bind fun rail hrail => ensures_bind fun _ => ?_
  split_ifs
  · exact ensures_pure hrail
  · exact ensures_bind fun _ => ensures_bind fun _ => ensures_pure hrail

theorem admitted_readFreeObject :
    Ensures (Action.Admitted s.tables s.laying) (s.readFreeObject c) := by
  unfold readFreeObject
  refine (s.ensures_runningRail c).bind fun rail hrail => ?_
  refine (s.ensures_object c 1 .freeObj _).bind fun object hobject => ?_
  exact ensures_bind fun _ => ensures_pure ⟨hrail, hobject.1⟩

/-- The two sides of a wall are read from one argument, so they have one index. -/
theorem ensures_readWall (left right : StructureKind) (what : String) :
    Ensures (fun x => x.2.Loaded s.tables.structures left right)
      (s.readWall c left right what) := by
  unfold readWall
  refine ensures_bind fun rail => ensures_bind fun direction => ensures_bind fun side => ?_
  cases side with
  | left =>
    refine (s.ensures_object c 2 left what).bind fun object hobject => ensures_pure ?_
    exact ⟨fun _ => hobject.1, fun h => absurd rfl h⟩
  | right =>
    refine (s.ensures_object c 2 right what).bind fun object hobject => ensures_pure ?_
    exact ⟨fun h => absurd rfl h, fun _ => hobject.1⟩
  | both =>
    refine (s.ensures_object c 2 left what).bind fun object hobject => ?_
    refine (s.ensures_object c 2 right what).bind fun object' hobject' => ensures_pure ?_
    obtain rfl : object = object' := Option.some.inj (hobject.2.symm.trans hobject'.2)
    exact ⟨fun _ => hobject.1, fun _ => hobject'.1⟩

theorem admitted_readPole : Ensures (Action.Admitted s.tables s.laying) (s.readPole c) := by
  unfold readPole
  refine ensures_bind fun _ => ensures_bind fun _ => ensures_bind fun _ => ensures_bind fun _ => ?_
  refine ensures_unless fun _ => ensures_bind fun _ => ?_
  split_ifs with hloaded
  · exact ensures_pure hloaded
  · exact ensures_fail _

theorem admitted_readCustomSignal :
    Ensures (Action.Admitted s.tables s.laying) (s.readCustomSignal c) := by
  unfold readCustomSignal
  refine ensures_bind fun signal => ensures_unless fun hloaded => ?_
  refine ensures_bind fun _ => ensures_bind fun _ => ensures_pure ?_
  exact Std.TreeMap.mem_iff_contains.2 (by simpa using hloaded)

theorem admitted_readStop : Ensures (Action.Admitted s.tables s.laying) (s.readStop c) := by
  unfold readStop
  refine (ensures_ofOption _ _).bind fun station hstation => ?_
  refine ensures_bind fun _ => ensures_unless fun _ => ?_
  exact ensures_bind fun _ => ensures_bind fun _ => ensures_bind fun _ =>
    ensures_pure ⟨hstation, rfl⟩

theorem admitted_readRequestStop :
    Ensures (Action.Admitted s.tables s.laying) (s.readRequestStop c) := by
  unfold readRequestStop
  refine ensures_bind fun _ => ensures_unless fun _ => ?_
  exact ensures_bind fun _ => ensures_bind fun _ => ensures_pure rfl

theorem admitted_readLimit : Ensures (Action.Admitted s.tables s.laying) (s.readLimit c) := by
  unfold readLimit
  refine ensures_bind fun _ => ensures_unless fun _ => ?_
  refine ensures_bind fun _ => ensures_bind fun _ => ensures_unless fun _ => ensures_pure ?_
  rfl

theorem admitted_readStation : Ensures (Action.Admitted s.tables s.laying) (s.readStation c) := by
  unfold readStation
  repeat refine ensures_bind fun _ => ?_
  exact ensures_pure ⟨rfl, rfl⟩

theorem ensures_readBeaconObject :
    Ensures (fun object => ∀ i ∈ object, s.tables.structures.contains .beacon i)
      (s.readBeaconObject c) := by
  unfold readBeaconObject
  refine ensures_bind fun x => ?_
  split_ifs
  · exact ensures_pure (by simp)
  · refine (s.ensures_object c 1 .beacon _).bind fun object hobject => ensures_pure ?_
    simpa using hobject.1

theorem admitted_readBeacon : Ensures (Action.Admitted s.tables s.laying) (s.readBeacon c) := by
  unfold readBeacon
  refine ensures_bind fun _ => (s.ensures_readBeaconObject c).bind fun object hobject => ?_
  exact ensures_bind fun _ => ensures_bind fun _ => ensures_bind fun _ =>
    ensures_pure ⟨rfl, hobject⟩

theorem admitted_readTransponder :
    Ensures (Action.Admitted s.tables s.laying) (s.readTransponder c) := by
  unfold readTransponder
  refine ensures_bind fun _ => ensures_bind fun _ => ensures_bind fun _ => ensures_bind fun _ => ?_
  exact ensures_pure ⟨rfl, by simp⟩

theorem admitted_readMarker (content : MarkerContent) :
    Ensures (Action.Admitted s.tables s.laying) (s.readMarker c content) := by
  unfold readMarker
  refine ensures_bind fun distance => ensures_unless fun _ => ?_
  dsimp only
  split_ifs with hback
  · exact ensures_pure (Or.inr ⟨distance, hback, rfl, rfl⟩)
  · exact ensures_pure (Or.inl ⟨distance, hback, rfl, rfl⟩)

/-- Reading lets no action through but such as the line can rely on. -/
theorem admitted_read : Ensures (Action.Admitted s.tables s.laying) (s.read c) := by
  unfold read
  split
  · rename_i verb _
    cases verb
    case rail =>
      unfold readVerb
      split_ifs
      · exact s.admitted_readRailEnd c true
      · exact s.admitted_readRailStart c false
    case railStart => exact s.admitted_readRailStart c true
    case railEnd => exact s.admitted_readRailEnd c false
    case freeObject => exact s.admitted_readFreeObject c
    case wall => exact (s.ensures_readWall c _ _ _).bind fun _ h => ensures_pure h
    case dike => exact (s.ensures_readWall c _ _ _).bind fun _ h => ensures_pure h
    case pole => exact s.admitted_readPole c
    case customSignal => exact s.admitted_readCustomSignal c
    case station => exact s.admitted_readStation c
    case stop => exact s.admitted_readStop c
    case requestStop => exact s.admitted_readRequestStop c
    case limit => exact s.admitted_readLimit c
    case beacon => exact s.admitted_readBeacon c
    case transponder => exact s.admitted_readTransponder c
    case imageMarker => exact ensures_bind fun _ => s.admitted_readMarker c _
    case textMarker =>
      exact ensures_bind fun _ => ensures_bind fun _ => s.admitted_readMarker c _
    case railType =>
      refine ensures_bind fun _ => ensures_bind fun _ => ?_
      split_ifs
      · exact ensures_pure trivial
      · exact ensures_fail _
    case ground | background =>
      refine ensures_bind fun _ => ?_
      split_ifs
      · exact ensures_pure trivial
      · exact ensures_fail _
    case adhesion => exact ensures_bind fun _ => ensures_unless fun _ => ensures_pure trivial
    case accuracy | pitch | turn | height | wallEnd | dikeEnd | poleEnd | indexSection |
        valueSection | relay => exact ensures_bind fun _ => ensures_pure trivial
    case curve | pointOfInterest =>
      exact ensures_bind fun _ => ensures_bind fun _ => ensures_pure trivial
    case fog | postSignal =>
      exact ensures_bind fun _ => ensures_bind fun _ => ensures_bind fun _ => ensures_pure trivial
    case announce => exact ensures_bind fun _ => ensures_bind fun _ => ensures_pure rfl
    case doppler =>
      exact ensures_bind fun _ => ensures_bind fun _ => ensures_bind fun _ => ensures_pure rfl
    case buffer => exact ensures_pure trivial
  · exact ensures_fail _

end Site

end RailRoute
