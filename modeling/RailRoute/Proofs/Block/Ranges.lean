import Mathlib
import RailRoute.Proofs.Block.Bounds
import RailRoute.Proofs.Block.Integrity

/-!
# Ranges of values

Numbers out of range are turned down when a command is read, or moved into the range, so whatever is
laid holds only values that lie in their ranges. `Laying.InRange` says so for a whole line, and
`Action.InRange` for what a command asks for. Main statements: `inRange_read` and `inRange_run`.
-/

namespace RailRoute

/-- Whether a number stands for a direction: left, neither or right. -/
def IsDirection (x : Int) : Prop := x = -1 ∨ x = 0 ∨ x = 1

theorem isDirection_iff {x : Int} : IsDirection x ↔ -1 ≤ x ∧ x ≤ 1 := by
  unfold IsDirection
  omega

variable {R : Type} [ExactScalar R]

theorem ExactScalar.zero_le_max (x : R) : 0 ≤ Scalar.max x 0 := by
  rw [max_eq]
  exact le_max_right x 0

theorem ExactScalar.zero_le_abs (x : R) : 0 ≤ Scalar.abs x := by
  rw [abs_eq]
  exact abs_nonneg x

/-! ## What is placed -/

/-- Whether a speed is unlimited or positive. -/
def Speed.InRange : Speed R → Prop
  | .unlimited => True
  | .limited x => 0 < x

structure LimitSign.InRange (x : LimitSign R) : Prop where
  position : 0 ≤ x.position
  speed : x.speed.InRange
  postSide : IsDirection x.postSide
  course : IsDirection x.course

structure StopPoint.InRange (x : StopPoint R) : Prop where
  position : 0 ≤ x.position
  direction : IsDirection x.direction
  backwardTolerance : 0 ≤ x.backwardTolerance
  forwardTolerance : 0 ≤ x.forwardTolerance

structure Station.InRange (x : Station R) : Prop where
  position : 0 ≤ x.position
  doors : IsDirection x.doors
  stopTime : 0 ≤ x.stopTime
  passengerRatio : 0 ≤ x.passengerRatio
  stops : ∀ stop ∈ x.stops, stop.InRange

structure RequestStop.InRange (x : RequestStop R) : Prop where
  position : 0 ≤ x.position
  probability : 0 ≤ x.probability ∧ x.probability ≤ 100

structure Marker.InRange (x : Marker R) : Prop where
  start : 0 ≤ x.start
  ordered : x.start ≤ x.finish

structure Section.InRange (x : Section R) : Prop where
  position : 0 ≤ x.position
  aspects : x.aspects ≠ []

/-- Whether what an action sets or places is in range. -/
def Action.InRange : Action R → Prop
  | .setAccuracy x => 0 ≤ x ∧ x ≤ 4
  | .setAdhesion x => 0 ≤ x
  | .addFreeObject x => 0 ≤ x.position
  | .setPole _ x => 0 < x.interval
  | .openSection aspects _ => aspects ≠ []
  | .addSignal x => 0 ≤ x.position
  | .openSignal _ aspects _ => aspects ≠ []
  | .openStation x => x.InRange
  | .addStop _ x => x.InRange
  | .addRequestStop x => x.InRange
  | .addLimit x => x.InRange
  | .addTransponder x => 0 ≤ x.position
  | .addSound x => 0 ≤ x.position
  | .addMarker x => x.InRange
  | .addPointOfInterest x => 0 ≤ x.position
  | _ => True

/-! ## What is laid -/

structure Block.InRange (b : Block R) : Prop where
  accuracy : 0 ≤ b.accuracy ∧ b.accuracy ≤ 4
  adhesion : 0 ≤ b.adhesion
  poles : ∀ (i : Nat) (x : Pole R), b.poles[i]? = some x → 0 < x.interval
  freeObjects : ∀ x ∈ b.freeObjects, 0 ≤ x.position
  signals : ∀ x ∈ b.signals, 0 ≤ x.position
  limits : ∀ x ∈ b.limits, x.InRange
  sounds : ∀ x ∈ b.sounds, 0 ≤ x.position
  transponders : ∀ x ∈ b.transponders, 0 ≤ x.position

structure Line.InRange (l : Line R) : Prop where
  blocks : ∀ b ∈ l.blocks, b.InRange
  stations : ∀ x ∈ l.stations, x.InRange
  requestStops : ∀ x ∈ l.requestStops, x.InRange
  sections : ∀ x ∈ l.sections, x.InRange
  markers : ∀ x ∈ l.markers, x.InRange
  pointsOfInterest : ∀ x ∈ l.pointsOfInterest, 0 ≤ x.position
  buffers : ∀ x ∈ l.buffers, 0 ≤ x

/-- Whether all values of a line, and the current position, are in range. -/
structure Laying.InRange (s : Laying R) : Prop where
  position : 0 ≤ s.position
  line : s.line.InRange

/-! ## Reading -/

theorem Speed.inRange_ofWritten {x unit : R} (hx : 0 ≤ x) (hunit : 0 < unit) :
    (Speed.ofWritten x unit).InRange := by
  unfold Speed.ofWritten
  split_ifs with zero
  · exact trivial
  · have ne : x ≠ 0 := fun h => zero ((ExactScalar.beq_iff x 0).2 h)
    exact mul_pos (hx.lt_of_ne' ne) hunit

namespace Site

open Check

variable (s : Site R) (c : Command) (here : 0 ≤ s.laying.position)

theorem ne_nil_of_compatibilityAspects? {count : Int} {aspects : List Nat}
    (h : compatibilityAspects? count = some aspects) : aspects ≠ [] := by
  obtain ⟨front, rest, table, -⟩ := List.lookup_eq_some_iff.1 h
  have listed : ∀ x ∈ front ++ (count, aspects) :: rest, x.2 ≠ [] := by
    rw [← table]
    decide
  exact listed (count, aspects) (by simp)

theorem ensures_readDoors : Ensures IsDirection (readDoors R c) := by
  unfold readDoors
  dsimp only
  split_ifs
  · exact ensures_pure (.inl rfl)
  · exact ensures_pure (.inr (.inr rfl))
  · exact ensures_pure (.inr (.inl rfl))
  · exact ensures_bind fun x => ensures_pure (isDirection_iff.2 (by omega))

theorem inRange_readPole : Ensures Action.InRange (s.readPole c) := by
  unfold readPole
  refine ensures_bind fun _ => ensures_bind fun _ => ensures_bind fun _ => ensures_bind fun _ => ?_
  refine ensures_unless fun positive => ensures_bind fun _ => ?_
  split_ifs
  · exact ensures_pure (not_le.1 positive)
  · exact ensures_fail _

theorem inRange_readSection (kind : SectionKind) :
    Ensures Action.InRange (s.readSection c kind) := by
  unfold readSection
  refine ensures_bind fun aspects => ensures_pure ?_
  change (if aspects.isEmpty then [0] else aspects) ≠ []
  split_ifs with empty
  · exact List.cons_ne_nil _ _
  · exact fun none => empty (List.isEmpty_iff.2 none)

theorem inRange_readPostSignal : Ensures Action.InRange (s.readPostSignal c) := by
  unfold readPostSignal
  refine ensures_bind fun count => (ensures_ofOption _ _).bind fun aspects haspects => ?_
  exact ensures_bind fun _ => ensures_pure (ne_nil_of_compatibilityAspects? haspects)

theorem inRange_readRailStart (strict : Bool) :
    Ensures Action.InRange (s.readRailStart c strict) := by
  unfold readRailStart
  refine ensures_bind fun _ => ?_
  dsimp only
  refine ensures_unless fun _ => ?_
  exact ensures_bind fun _ => ensures_bind fun _ => ensures_pure trivial

theorem inRange_readRailEnd (inPlace : Bool) :
    Ensures Action.InRange (s.readRailEnd c inPlace) := by
  unfold readRailEnd
  refine ensures_bind fun _ => ensures_bind fun _ => ?_
  split_ifs
  · exact ensures_pure trivial
  · exact ensures_bind fun _ => ensures_bind fun _ => ensures_pure trivial

include here

theorem inRange_readFreeObject : Ensures Action.InRange (s.readFreeObject c) := by
  unfold readFreeObject
  exact ensures_bind fun _ => ensures_bind fun _ => ensures_bind fun _ => ensures_pure here

theorem inRange_readCustomSignal : Ensures Action.InRange (s.readCustomSignal c) := by
  unfold readCustomSignal
  refine ensures_bind fun _ => ensures_unless fun _ => ?_
  exact ensures_bind fun _ => ensures_bind fun _ => ensures_pure here

theorem inRange_readStation : Ensures Action.InRange (s.readStation c) := by
  unfold readStation
  refine ensures_bind fun _ => ensures_bind fun _ => ensures_bind fun _ => ?_
  refine (ensures_readDoors c).bind fun doors hdoors => ?_
  repeat refine ensures_bind fun _ => ?_
  exact ensures_pure
    { position := here
      doors := hdoors
      stopTime := ExactScalar.zero_le_max _
      passengerRatio := ExactScalar.zero_le_max _
      stops := by simp }

theorem inRange_readStop : Ensures Action.InRange (s.readStop c) := by
  unfold readStop
  refine ensures_bind fun _ => ensures_bind fun direction => ensures_unless fun inside => ?_
  refine ensures_bind fun _ => ensures_bind fun _ => ensures_bind fun _ => ensures_pure ?_
  exact
    { position := here
      direction := isDirection_iff.2 (by dsimp only; omega)
      backwardTolerance := ExactScalar.zero_le_abs _
      forwardTolerance := ExactScalar.zero_le_abs _ }

theorem inRange_readRequestStop : Ensures Action.InRange (s.readRequestStop c) := by
  unfold readRequestStop
  refine ensures_bind fun probability => ensures_unless fun inside => ?_
  refine ensures_bind fun _ => ensures_bind fun _ => ensures_pure ⟨here, ?_⟩
  rw [not_or, not_lt, not_lt, ExactScalar.ofNat_eq] at inside
  exact_mod_cast inside

theorem inRange_readLimit (unit : 0 < s.tables.options.unitOfSpeed) :
    Ensures Action.InRange (s.readLimit c) := by
  unfold readLimit
  refine ensures_bind fun speed => ensures_unless fun nonneg => ?_
  refine ensures_bind fun post => ensures_bind fun course => ensures_unless fun inside => ?_
  exact ensures_pure
    { position := here
      speed := Speed.inRange_ofWritten (not_lt.1 nonneg) unit
      postSide := isDirection_iff.2 (by dsimp only; omega)
      course := isDirection_iff.2 (by dsimp only; omega) }

theorem inRange_readMarker (content : MarkerContent) :
    Ensures Action.InRange (s.readMarker c content) := by
  unfold readMarker
  refine ensures_bind fun distance => ensures_unless fun _ => ?_
  dsimp only
  split_ifs with back
  · refine ensures_pure ⟨ExactScalar.zero_le_max _, ?_⟩
    rw [ExactScalar.max_eq]
    exact max_le (by linarith) here
  · exact ensures_pure ⟨here, le_add_of_nonneg_right (not_lt.1 back)⟩

/-- With a positive unit of speed, reading lets only values through that are in range. -/
theorem inRange_read (unit : 0 < s.tables.options.unitOfSpeed) :
    Ensures Action.InRange (s.read c) := by
  unfold read
  split
  · rename_i verb _
    cases verb
    case accuracy =>
      refine ensures_bind fun x => ensures_pure ?_
      change 0 ≤ Scalar.min (Scalar.max x 0) (Scalar.ofNat 4) ∧
        Scalar.min (Scalar.max x 0) (Scalar.ofNat 4) ≤ 4
      rw [ExactScalar.min_eq, ExactScalar.ofNat_eq]
      exact ⟨le_min (ExactScalar.zero_le_max x) (by simp), by simp⟩
    case adhesion =>
      refine ensures_bind fun rate => ensures_unless fun nonneg => ensures_pure ?_
      change 0 ≤ Scalar.fixed 1 2 * rate
      rw [ExactScalar.fixed_eq]
      exact mul_nonneg (by norm_num) (not_lt.1 nonneg)
    case freeObject => exact s.inRange_readFreeObject c here
    case pole => exact s.inRange_readPole c
    case indexSection => exact s.inRange_readSection c _
    case valueSection => exact s.inRange_readSection c _
    case customSignal => exact s.inRange_readCustomSignal c here
    case postSignal => exact s.inRange_readPostSignal c
    case relay => exact ensures_bind fun _ => ensures_pure here
    case station => exact s.inRange_readStation c here
    case stop => exact s.inRange_readStop c here
    case requestStop => exact s.inRange_readRequestStop c here
    case limit => exact s.inRange_readLimit c here unit
    case beacon =>
      exact ensures_bind fun _ => ensures_bind fun _ => ensures_bind fun _ => ensures_bind fun _ =>
        ensures_bind fun _ => ensures_pure here
    case transponder =>
      exact ensures_bind fun _ => ensures_bind fun _ => ensures_bind fun _ => ensures_bind fun _ =>
        ensures_pure here
    case announce => exact ensures_bind fun _ => ensures_bind fun _ => ensures_pure here
    case doppler =>
      exact ensures_bind fun _ => ensures_bind fun _ => ensures_bind fun _ => ensures_pure here
    case imageMarker => exact ensures_bind fun _ => s.inRange_readMarker c here _
    case textMarker =>
      exact ensures_bind fun _ => ensures_bind fun _ => s.inRange_readMarker c here _
    case pointOfInterest =>
      exact ensures_bind fun _ => ensures_bind fun _ => ensures_pure here
    case rail =>
      unfold readVerb
      split_ifs
      · exact s.inRange_readRailEnd c true
      · exact s.inRange_readRailStart c false
    case railStart => exact s.inRange_readRailStart c true
    case railEnd => exact s.inRange_readRailEnd c false
    case railType =>
      refine ensures_bind fun _ => ensures_bind fun _ => ?_
      split_ifs
      · exact ensures_pure trivial
      · exact ensures_fail _
    case ground | background =>
      refine ensures_bind fun _ => ?_
      split_ifs
      · exact ensures_pure trivial
      · exact ensures_fail _
    case pitch | turn | height | wall | dike | wallEnd | dikeEnd | poleEnd =>
      exact ensures_bind fun _ => ensures_pure trivial
    case curve => exact ensures_bind fun _ => ensures_bind fun _ => ensures_pure trivial
    case fog =>
      exact ensures_bind fun _ => ensures_bind fun _ => ensures_bind fun _ => ensures_pure trivial
    case buffer => exact ensures_pure trivial
  · exact ensures_fail _

end Site

/-! ## Laying -/

/-- What a new block takes over is in range. -/
theorem Block.InRange.inherit {b : Block R} (h : b.InRange) : b.inherit.InRange :=
  { h with
    freeObjects := by simp [Block.inherit]
    signals := by simp [Block.inherit]
    limits := by simp [Block.inherit]
    sounds := by simp [Block.inherit]
    transponders := by simp [Block.inherit] }

theorem Block.inRange_initial (height : R) : (Block.initial height).InRange where
  accuracy := by
    change 0 ≤ Scalar.two ∧ Scalar.two ≤ 4
    rw [ExactScalar.two_eq]
    norm_num
  adhesion := zero_le_one
  poles i x hx := by simp [Block.initial] at hx
  freeObjects := by simp [Block.initial]
  signals := by simp [Block.initial]
  limits := by simp [Block.initial]
  sounds := by simp [Block.initial]
  transponders := by simp [Block.initial]

theorem Line.InRange.modifyBlock {l : Line R} (h : l.InRange) {i : Nat} {f : Block R → Block R}
    (changed : ∀ b, b.InRange → (f b).InRange) : (l.modifyBlock i f).InRange :=
  { h with
    blocks := Laying.forall_mem_modify h.blocks (fun _ hb => hb) fun b _ hb => changed b hb }

namespace Laying

variable {s : Laying R}

theorem InRange.modifyBlock (h : s.InRange) {f : Block R → Block R}
    (changed : ∀ b, b.InRange → (f b).InRange) : (s.modifyBlock f).InRange :=
  ⟨h.position, h.line.modifyBlock changed⟩

theorem InRange.openSection (h : s.InRange) {aspects : List Nat} (some : aspects ≠ [])
    (kind : SectionKind) : (s.openSection aspects kind).InRange := by
  have marked := h.modifyBlock (f := fun b =>
    { b with sections := b.sections.push s.line.sections.size }) fun _ hb => { hb with }
  exact ⟨h.position, { marked.line with
    sections := Array.forall_mem_push.2 ⟨⟨h.position, some⟩, h.line.sections⟩ }⟩

theorem InRange.addStop (h : s.InRange) (station : Nat) {stop : StopPoint R}
    (hstop : stop.InRange) : (s.addStop station stop).InRange := by
  cases hst : s.line.stations[station]? with
  | none => rwa [addStop_of_none hst]
  | some st =>
    have marked := h.modifyBlock (f := fun b =>
      { b with stops := b.stops.push (station, st.stops.size) }) fun _ hb => { hb with }
    have changed : ∀ x ∈ s.line.stations.modify station fun st =>
        { st with stops := st.stops.push stop }, x.InRange := by
      intro x hx
      rcases mem_of_mem_modify hx with hx | ⟨y, hy, rfl⟩
      · exact h.line.stations x hx
      · have hy := h.line.stations y (Array.mem_of_getElem? hy)
        exact { hy with stops := Array.forall_mem_push.2 ⟨hstop, hy.stops⟩ }
    simp only [Laying.addStop, hst]
    exact ⟨h.position, { marked.line with stations := changed }⟩

theorem inRange_apply (h : s.InRange) {a : Action R} (ha : a.InRange) : (a.apply s).InRange := by
  cases a
  case startRail rail offset =>
    simp only [Action.apply, startRail]
    split_ifs
    · exact h.modifyBlock fun _ hb => { hb with }
    · have started := h.modifyBlock (f := fun b =>
        { b with rails := b.rails.insert rail ⟨true, true, false, offset, offset⟩ })
        fun _ hb => { hb with }
      exact ⟨h.position, started.line.modifyBlock fun _ hb => { hb with }⟩
  case setAccuracy x => exact h.modifyBlock fun _ hb => { hb with accuracy := ha }
  case setAdhesion x => exact h.modifyBlock fun _ hb => { hb with adhesion := ha }
  case addFreeObject x =>
    exact h.modifyBlock fun _ hb =>
      { hb with freeObjects := Array.forall_mem_push.2 ⟨ha, hb.freeObjects⟩ }
  case setPole rail x =>
    exact h.modifyBlock fun _ hb => { hb with poles := IndexMap.forall_insert hb.poles rail ha }
  case endPole rail =>
    exact h.modifyBlock fun _ hb => { hb with poles := IndexMap.forall_erase hb.poles rail }
  case openSection aspects kind => exact h.openSection ha kind
  case addSignal x =>
    exact h.modifyBlock fun _ hb => { hb with signals := Array.forall_mem_push.2 ⟨ha, hb.signals⟩ }
  case openSignal head aspects placement =>
    exact (h.openSection ha .indexBased).modifyBlock fun _ hb =>
      { hb with signals := Array.forall_mem_push.2 ⟨h.position, hb.signals⟩ }
  case openStation x =>
    have marked := h.modifyBlock (f := fun b =>
      { b with station := some s.line.stations.size }) fun _ hb => { hb with }
    exact ⟨h.position, { marked.line with
      stations := Array.forall_mem_push.2 ⟨ha, h.line.stations⟩ }⟩
  case addStop station x => exact h.addStop station ha
  case addRequestStop x =>
    exact ⟨h.position, { h.line with
      requestStops := Array.forall_mem_push.2 ⟨ha, h.line.requestStops⟩ }⟩
  case addLimit x =>
    exact h.modifyBlock fun _ hb => { hb with limits := Array.forall_mem_push.2 ⟨ha, hb.limits⟩ }
  case addTransponder x =>
    exact h.modifyBlock fun _ hb =>
      { hb with transponders := Array.forall_mem_push.2 ⟨ha, hb.transponders⟩ }
  case addSound x =>
    exact h.modifyBlock fun _ hb => { hb with sounds := Array.forall_mem_push.2 ⟨ha, hb.sounds⟩ }
  case addMarker x =>
    exact ⟨h.position, { h.line with markers := Array.forall_mem_push.2 ⟨ha, h.line.markers⟩ }⟩
  case addBuffer =>
    exact ⟨h.position, { h.line with
      buffers := Array.forall_mem_push.2 ⟨h.position, h.line.buffers⟩ }⟩
  case addPointOfInterest x =>
    exact ⟨h.position, { h.line with
      pointsOfInterest := Array.forall_mem_push.2 ⟨ha, h.line.pointsOfInterest⟩ }⟩
  all_goals exact h.modifyBlock fun _ hb => { hb with }

theorem inRange_moveTo (h : s.InRange) (hs : 0 < s.line.blocks.size) {position : R}
    (hp : 0 ≤ position) : (s.moveTo position).InRange :=
  ⟨hp, { h.line with
    blocks := forall_mem_moveTo (fun _ hb => hb.inherit) hs h.line.blocks position }⟩

theorem inRange_initial (interval height : R) : (initial interval height).InRange where
  position := le_rfl
  line :=
    { blocks := fun b hb => by
        obtain rfl := mem_blocks_initial.1 hb
        exact Block.inRange_initial height
      stations := by simp [initial, Line.initial]
      requestStops := by simp [initial, Line.initial]
      sections := fun x hx => by
        obtain rfl : x = Line.firstSection := by simpa [initial, Line.initial] using hx
        exact ⟨le_rfl, List.cons_ne_nil _ _⟩
      markers := by simp [initial, Line.initial]
      pointsOfInterest := by simp [initial, Line.initial]
      buffers := by simp [initial, Line.initial] }

/-- Whatever is laid is in range, if each action is that is carried out at a position in range. -/
theorem inRange_run {ds : List (Deed R)} (h : s.InRange) (hs : 0 < s.line.blocks.size)
    (hds : ∀ p ∈ positions ds, 0 ≤ p)
    (acts : ∀ i ∈ s.issues ds, 0 ≤ i.laying.position → i.action.InRange) : (s.run ds).InRange := by
  have kept : (s.run ds).InRange ∧ 0 < (s.run ds).line.blocks.size := by
    refine run_induction (P := fun s => s.InRange ∧ 0 < s.line.blocks.size) ⟨h, hs⟩ ?_ ?_
    · rintro s p hp ⟨h, hs⟩
      refine ⟨inRange_moveTo h hs (hds p hp), ?_⟩
      rw [size_moveTo]
      omega
    · rintro i hi ⟨h, hs⟩
      refine ⟨inRange_apply h (acts i hi h.position), ?_⟩
      rwa [i.action.size_apply]
  exact kept.1

end Laying

end RailRoute
