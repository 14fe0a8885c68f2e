import Mathlib
import RailRoute.Proofs.Arithmetic
import RailRoute.Proofs.Block.Editing

/-!
# What blocks take over

Blocks are added only when a position behind them is reached, and a new one takes over what the last
one has at that moment. As long as positions do not go back, nothing is missed by it: each part of a
block is told from the commands issued. Some parts stay what the last command up to the block made
them, others belong to the commands issued in the block itself. Main statements:
`carriedForward_run` and `size_run`.
-/

namespace RailRoute

variable {R : Type}

/-! ## What commands ask for -/

namespace Action

/-- The pitch that an action sets. -/
def pitch? : Action R → Option R
  | .setPitch x => some x
  | _ => none

/-- The radius and the cant that an action sets. -/
def curve? : Action R → Option (R × R)
  | .setCurve radius cant => some (radius, cant)
  | _ => none

/-- The height that an action sets. -/
def height? : Action R → Option R
  | .setHeight x => some x
  | _ => none

/-- The adhesion that an action sets. -/
def adhesion? : Action R → Option R
  | .setAdhesion x => some x
  | _ => none

/-- The accuracy that an action sets. -/
def accuracy? : Action R → Option R
  | .setAccuracy x => some x
  | _ => none

/-- The background that an action sets. -/
def background? : Action R → Option Nat
  | .setBackground index => some index
  | _ => none

/-- The fog that an action sets. -/
def fog? : Action R → Option (Fog R)
  | .setFog fog => some fog
  | _ => none

/-- The ground that an action sets. -/
def ground? : Action R → Option Nat
  | .setGround cycle => some cycle
  | _ => none

/-- The type that an action gives to a rail. -/
def railType? (rail : Nat) : Action R → Option Nat
  | .setRailType r railType => if r = rail then some railType else none
  | _ => none

/-- The turn that an action sets. -/
def turn? : Action R → Option R
  | .setTurn x => some x
  | _ => none

end Action

namespace Issue

/-- The free objects that a command places. -/
def freeObjects (i : Issue R) : List (FreeObject R) :=
  match i.action with
  | .addFreeObject object => [object]
  | _ => []

/-- The signals that a command places. One of the compatibility set belongs to the section that is
opened for it. -/
def signals [Scalar R] (i : Issue R) : List (SignalPlacement R) :=
  match i.action with
  | .addSignal signal => [signal]
  | .openSignal head _ placement =>
    [i.laying.postSignal i.laying.line.sections.size head placement]
  | _ => []

/-- The numbers of the sections that a command opens. -/
def sections (i : Issue R) : List Nat :=
  match i.action with
  | .openSection _ _ | .openSignal _ _ _ => [i.laying.line.sections.size]
  | _ => []

/-- The stops that a command adds, each as a station and the place among its stops. -/
def stops (i : Issue R) : List (Nat × Nat) :=
  match i.action with
  | .addStop station _ =>
    (i.laying.line.stations[station]?.map fun st => (station, st.stops.size)).toList
  | _ => []

/-- The speed limits that a command sets. -/
def limits (i : Issue R) : List (LimitSign R) :=
  match i.action with
  | .addLimit limit => [limit]
  | _ => []

/-- The sounds that a command places. -/
def sounds (i : Issue R) : List (SoundPlacement R) :=
  match i.action with
  | .addSound sound => [sound]
  | _ => []

/-- The transponders that a command places. -/
def transponders (i : Issue R) : List (Transponder R) :=
  match i.action with
  | .addTransponder transponder => [transponder]
  | _ => []

end Issue

/-! ## Parts of blocks -/

/-- The commands issued in a block. -/
def issuedIn (history : List (Issue R)) (k : Nat) : List (Issue R) :=
  history.filter fun i => i.block = k

/-- What the last command that was issued up to a block and stored something stored. -/
def lastStored {α : Type} (stored? : Issue R → Option α) (history : List (Issue R)) (k : Nat) :
    Option α :=
  ((history.filter fun i => i.block ≤ k).filterMap stored?).getLast?

theorem issuedIn_append_self (h : List (Issue R)) (i : Issue R) :
    issuedIn (h ++ [i]) i.block = issuedIn h i.block ++ [i] := by
  simp [issuedIn]

theorem issuedIn_append_of_lt (h : List (Issue R)) {i : Issue R} {k : Nat} (hk : k < i.block) :
    issuedIn (h ++ [i]) k = issuedIn h k := by
  simp [issuedIn, hk.ne']

theorem issuedIn_eq_nil {h : List (Issue R)} {k : Nat} (hle : ∀ i ∈ h, i.block ≤ k) :
    issuedIn h (k + 1) = [] := by
  refine List.filter_eq_nil_iff.2 fun i hi => ?_
  have := hle i hi
  simp only [decide_eq_true_eq]
  omega

variable [Scalar R]

/-- A command changes each part of a block by what it asks for. -/
theorem Issue.edit_eq (i : Issue R) (b : Block R) : i.edit b =
    { i.edit b with
      pitch := i.action.pitch?.getD b.pitch
      curveRadius := (i.action.curve?.getD (b.curveRadius, b.curveCant)).1
      curveCant := (i.action.curve?.getD (b.curveRadius, b.curveCant)).2
      height := i.action.height?.getD b.height
      adhesion := i.action.adhesion?.getD b.adhesion
      accuracy := i.action.accuracy?.getD b.accuracy
      background := i.action.background?.getD b.background
      fog := i.action.fog?.getD b.fog
      ground := i.action.ground?.getD b.ground
      turn := i.action.turn?.getD b.turn
      fogDefined := b.fogDefined || i.action.fog?.isSome
      freeObjects := b.freeObjects ++ i.freeObjects.toArray
      signals := b.signals ++ i.signals.toArray
      sections := b.sections ++ i.sections.toArray
      stops := b.stops ++ i.stops.toArray
      limits := b.limits ++ i.limits.toArray
      sounds := b.sounds ++ i.sounds.toArray
      transponders := b.transponders ++ i.transponders.toArray } := by
  obtain ⟨s, a⟩ := i
  cases a <;>
    simp [edit, Action.pitch?, Action.curve?, Action.height?, Action.adhesion?, Action.accuracy?,
      Action.background?, Action.fog?, Action.ground?, Action.turn?, freeObjects, signals, sections,
      stops, limits, sounds, transponders]

theorem Issue.edit_railTypes (i : Issue R) (b : Block R) (rail : Nat) :
    (i.edit b).railTypes[rail]? = (i.action.railType? rail).or b.railTypes[rail]? := by
  obtain ⟨s, a⟩ := i
  cases a
  case setRailType r railType =>
    by_cases h : r = rail <;> simp [edit, Action.railType?, Std.TreeMap.getElem?_insert, h]
  all_goals rfl

/-- What the commands issued tell of a block, its rails aside. -/
structure Block.CarriedForward (first : Block R) (history : List (Issue R)) (k : Nat)
    (b : Block R) : Prop where
  pitch : b.pitch = (lastStored (·.action.pitch?) history k).getD first.pitch
  curve : (b.curveRadius, b.curveCant) =
    (lastStored (·.action.curve?) history k).getD (first.curveRadius, first.curveCant)
  height : b.height = (lastStored (·.action.height?) history k).getD first.height
  adhesion : b.adhesion = (lastStored (·.action.adhesion?) history k).getD first.adhesion
  accuracy : b.accuracy = (lastStored (·.action.accuracy?) history k).getD first.accuracy
  background : b.background = (lastStored (·.action.background?) history k).getD first.background
  fog : b.fog = (lastStored (·.action.fog?) history k).getD first.fog
  ground : b.ground = (lastStored (·.action.ground?) history k).getD first.ground
  railType : ∀ rail, b.railTypes[rail]? =
    (lastStored (·.action.railType? rail) history k).or first.railTypes[rail]?
  turn : b.turn = ((issuedIn history k).filterMap (·.action.turn?)).getLast?.getD 0
  fogDefined : b.fogDefined = (issuedIn history k).any (·.action.fog?.isSome)
  freeObjects : b.freeObjects.toList = (issuedIn history k).flatMap Issue.freeObjects
  signals : b.signals.toList = (issuedIn history k).flatMap Issue.signals
  sections : b.sections.toList = (issuedIn history k).flatMap Issue.sections
  stops : b.stops.toList = (issuedIn history k).flatMap Issue.stops
  limits : b.limits.toList = (issuedIn history k).flatMap Issue.limits
  sounds : b.sounds.toList = (issuedIn history k).flatMap Issue.sounds
  transponders : b.transponders.toList = (issuedIn history k).flatMap Issue.transponders

/-- A part of blocks, not of their rails, that is told from the commands issued: `value` says what
it is in each block after these commands. -/
structure Told {α : Type} (part : Block R → α) (value : List (Issue R) → Nat → α) : Prop where
  withoutRails : ∀ b, part b.withoutRails = part b
  /-- A new block has its part while no command was issued behind the last block. -/
  inherit : ∀ h k b, (∀ i ∈ h, i.block ≤ k) → part b = value h k →
    part b.inherit = value h (k + 1)
  edit : ∀ h i b, part b = value h i.block → part (i.edit b) = value (h ++ [i]) i.block
  /-- A command leaves the blocks before its own alone. -/
  before : ∀ h i k, k < i.block → value (h ++ [i]) k = value h k

theorem told_lastStored {α : Type} {part : Block R → α} {stored? : Issue R → Option α} (initial : α)
    (withoutRails : ∀ b : Block R, part b.withoutRails = part b)
    (inherit : ∀ b : Block R, part b.inherit = part b)
    (edit : ∀ i b, part (i.edit b) = (stored? i).getD (part b)) :
    Told part fun h k => (lastStored stored? h k).getD initial where
  withoutRails := withoutRails
  inherit h k b hle hb := by
    have upTo : h.filter (fun i => i.block ≤ k + 1) = h.filter fun i => i.block ≤ k :=
      List.filter_congr fun i hi => by
        have := hle i hi
        simp [this, this.trans (Nat.le_succ k)]
    rw [inherit, hb, lastStored, lastStored, upTo]
  edit h i b hb := by
    rw [edit, hb]
    cases hs : stored? i <;> simp [lastStored, List.filter_append, List.filterMap_append, hs]
  before h i k hk := by
    simp [lastStored, List.filter_append, hk.not_ge]

omit [Scalar R] in
theorem lastStored_map_some {α : Type} (stored? : Issue R → Option α) (initial : Option α)
    (h : List (Issue R)) (k : Nat) :
    (lastStored (fun i => (stored? i).map some) h k).getD initial =
      (lastStored stored? h k).or initial := by
  have key : lastStored (fun i => (stored? i).map some) h k =
      (lastStored stored? h k).map some := by
    rw [lastStored, lastStored, ← List.getLast?_map, List.map_filterMap]
  rw [key]
  cases lastStored stored? h k <;> rfl

/-- A part that starts anew in each block is told from the commands issued there. -/
theorem told_issuedIn {α : Type} {part : Block R → α} {value : List (Issue R) → α}
    (withoutRails : ∀ b : Block R, part b.withoutRails = part b)
    (inherit : ∀ b : Block R, part b.inherit = value [])
    (edit : ∀ h i b, part b = value h → part (i.edit b) = value (h ++ [i])) :
    Told part fun h k => value (issuedIn h k) where
  withoutRails := withoutRails
  inherit h k b hle _ := by rw [inherit, issuedIn_eq_nil hle]
  edit h i b hb := by
    rw [issuedIn_append_self]
    exact edit _ i b hb
  before h i k hk := by rw [issuedIn_append_of_lt h hk]

/-! ## Laying -/

namespace Laying

/-- Whether no step leads back, to a block before the current one. -/
def Ascends : Laying R → List (Deed R) → Prop
  | _, [] => True
  | s, .go position :: ds => s.block ≤ s.line.blockIndex position ∧ (s.moveTo position).Ascends ds
  | s, .act action :: ds => (action.apply s).Ascends ds

/-- A line after some commands: it ends with the current block, and no command was issued behind
it. -/
structure Grown (s : Laying R) (history : List (Issue R)) : Prop where
  size : s.line.blocks.size = s.block + 1
  block_le : ∀ i ∈ history, i.block ≤ s.block

variable {s : Laying R} {h : List (Issue R)} {ds : List (Deed R)}

theorem Grown.moveTo (g : Grown s h) {position : R} (hle : s.block ≤ s.line.blockIndex position) :
    Grown (s.moveTo position) h where
  size := by
    rw [size_moveTo, moveTo_block, g.size]
    omega
  block_le i hi := (g.block_le i hi).trans hle

theorem Grown.apply (g : Grown s h) (a : Action R) : Grown (a.apply s) (h ++ [⟨s, a⟩]) where
  size := by rw [a.size_apply, a.apply_block, g.size]
  block_le i hi := by
    rw [a.apply_block]
    rcases List.mem_append.1 hi with hi | hi
    · exact g.block_le i hi
    · rw [List.mem_singleton.1 hi]
      exact le_rfl

theorem grown_run (g : Grown s h) (asc : s.Ascends ds) : Grown (s.run ds) (h ++ s.issues ds) := by
  induction ds generalizing s h with
  | nil => simpa [run, issues] using g
  | cons d ds ih =>
    cases d with
    | go position => exact ih (g.moveTo asc.1) asc.2
    | act action =>
      rw [issues, List.append_cons]
      exact ih (g.apply action) asc

/-- Whether a part of each block is what the commands tell of it. -/
def Tells {α : Type} (s : Laying R) (h : List (Issue R)) (part : Block R → α)
    (value : List (Issue R) → Nat → α) : Prop :=
  ∀ k b, s.line.blocks[k]? = some b → part b = value h k

section Tells

variable {α : Type} {part : Block R → α} {value : List (Issue R) → Nat → α}

theorem Tells.moveTo (told : Told part value) (g : Grown s h) (ht : Tells s h part value)
    (position : R) : Tells (s.moveTo position) h part value := by
  intro k b hb
  -- A new block inherits from the current one, behind which no command was issued.
  rcases Nat.lt_or_ge s.block k with hk | hk
  · refine forall_moveTo (P := fun k b => part b = value h k) (fun k b hm hb => ?_) g.size
      (fun b hb => ht _ b hb) position hk hb
    exact told.inherit h k b (fun i hi => (g.block_le i hi).trans hm) hb
  · rw [getElem?_moveTo_of_lt (by rw [g.size]; omega)] at hb
    exact ht k b hb

theorem Tells.apply (told : Told part value) (g : Grown s h) (ht : Tells s h part value)
    (a : Action R) : Tells (a.apply s) (h ++ [⟨s, a⟩]) part value := by
  intro k b' hb'
  obtain ⟨b, hb, hbb'⟩ := Action.exists_of_getElem?_apply hb'
  rw [← told.withoutRails b', hbb', told.withoutRails]
  -- There are no blocks behind the current one, so the others are before it.
  by_cases hk : s.block = k
  · subst hk
    rw [if_pos rfl]
    exact told.edit h ⟨s, a⟩ b (ht _ b hb)
  · obtain ⟨hlt, -⟩ := Array.getElem?_eq_some_iff.1 hb
    have := g.size
    rw [if_neg hk, told.before h ⟨s, a⟩ k (by simp only [Issue.block]; omega)]
    exact ht k b hb

theorem tells_run (told : Told part value) (g : Grown s h) (ht : Tells s h part value)
    (asc : s.Ascends ds) : Tells (s.run ds) (h ++ s.issues ds) part value := by
  induction ds generalizing s h with
  | nil => simpa [run, issues] using ht
  | cons d ds ih =>
    cases d with
    | go position => exact ih (g.moveTo asc.1) (ht.moveTo told g position) asc.2
    | act action =>
      rw [issues, List.append_cons]
      exact ih (g.apply action) (ht.apply told g action) asc

end Tells

/-! ## Positions that do not go back -/

theorem apply_blockIndex (a : Action R) (s : Laying R) :
    (a.apply s).line.blockIndex = s.line.blockIndex := by
  funext position
  simp only [Line.blockIndex, a.apply_interval]

theorem run_block (s : Laying R) (ds : List (Deed R)) :
    (s.run ds).block = ((positions ds).getLast?.map s.line.blockIndex).getD s.block := by
  induction ds generalizing s with
  | nil => rfl
  | cons d ds ih =>
    cases d with
    | go position =>
      have same : (s.moveTo position).line.blockIndex = s.line.blockIndex := rfl
      refine (ih (s.moveTo position)).trans ?_
      rw [same, moveTo_block, positions, List.getLast?_cons]
      cases (positions ds).getLast? <;> rfl
    | act action =>
      refine (ih (action.apply s)).trans ?_
      rw [apply_blockIndex, action.apply_block]
      rfl

theorem run_blockIndex (s : Laying R) (ds : List (Deed R)) :
    (s.run ds).line.blockIndex = s.line.blockIndex := by
  induction ds generalizing s with
  | nil => rfl
  | cons d ds ih =>
    refine (ih (s.carryOut d)).trans ?_
    cases d with
    | go position => rfl
    | act action => exact apply_blockIndex action s

theorem ascends_of_blockIndex (first : ∀ p ∈ positions ds, s.block ≤ s.line.blockIndex p)
    (hds : (positions ds).Pairwise fun p q => s.line.blockIndex p ≤ s.line.blockIndex q) :
    s.Ascends ds := by
  induction ds generalizing s with
  | nil => exact trivial
  | cons d ds ih =>
    cases d with
    | go position =>
      obtain ⟨hle, hds⟩ := List.pairwise_cons.1 hds
      exact ⟨first position (List.mem_cons_self ..), ih hle hds⟩
    | act action =>
      have same := apply_blockIndex action s
      refine ih (fun p hp => ?_) (by rwa [same])
      rw [action.apply_block, same]
      exact first p hp

theorem ascends_of_pairwise [OrderedScalar R] (hinterval : ¬ s.line.interval ≤ 0)
    (first : ∀ p ∈ positions ds, s.block ≤ s.line.blockIndex p)
    (hds : (positions ds).Pairwise (· ≤ ·)) : s.Ascends ds :=
  ascends_of_blockIndex first
    (hds.imp fun h => OrderedScalar.floorNat_le_floorNat hinterval h)

/-! ## A whole line -/

variable {interval height : R}

theorem grown_initial : Grown (initial interval height) [] := ⟨rfl, by simp⟩

theorem tells_initial {α : Type} {part : Block R → α} {value : List (Issue R) → Nat → α}
    (h : part (Block.initial height) = value [] 0) :
    Tells (initial interval height) [] part value := by
  intro k b hb
  obtain ⟨hk, rfl⟩ := Array.getElem?_eq_some_iff.1 hb
  obtain rfl : k = 0 := by simpa [initial, Line.initial] using hk
  exact h

/-- As long as no step leads back, the line ends with the block of the last position. -/
theorem size_run (asc : (initial interval height).Ascends ds) :
    ((initial interval height).run ds).line.blocks.size =
      1 + ((positions ds).getLast?.map
        ((initial interval height).run ds).line.blockIndex).getD 0 := by
  rw [(grown_run grown_initial asc).size, run_block, run_blockIndex, Nat.add_comm]
  rfl

section Parts

variable {α : Type} {k : Nat} {b : Block R}

theorem run_lastStored (asc : (initial interval height).Ascends ds)
    (hb : ((initial interval height).run ds).line.blocks[k]? = some b)
    (part : Block R → α) (stored? : Issue R → Option α)
    (edit : ∀ (i : Issue R) b, part (i.edit b) = (stored? i).getD (part b))
    (withoutRails : ∀ b : Block R, part b.withoutRails = part b := by exact fun _ => rfl)
    (inherit : ∀ b : Block R, part b.inherit = part b := by exact fun _ => rfl) :
    part b = (lastStored stored? ((initial interval height).issues ds) k).getD
      (part (Block.initial height)) :=
  tells_run (told_lastStored (part (Block.initial height)) withoutRails inherit edit)
    grown_initial (tells_initial rfl) asc k b hb

theorem run_issuedIn (asc : (initial interval height).Ascends ds)
    (hb : ((initial interval height).run ds).line.blocks[k]? = some b)
    (part : Block R → α) (value : List (Issue R) → α)
    (edit : ∀ h (i : Issue R) b, part b = value h → part (i.edit b) = value (h ++ [i]))
    (first : part (Block.initial height) = value [] := by rfl)
    (withoutRails : ∀ b : Block R, part b.withoutRails = part b := by exact fun _ => rfl)
    (inherit : ∀ b : Block R, part b.inherit = value [] := by exact fun _ => rfl) :
    part b = value (issuedIn ((initial interval height).issues ds) k) :=
  tells_run (told_issuedIn withoutRails inherit edit) grown_initial (tells_initial first) asc k b hb

theorem run_flatMap (asc : (initial interval height).Ascends ds)
    (hb : ((initial interval height).run ds).line.blocks[k]? = some b)
    (part : Block R → Array α) (placed : Issue R → List α)
    (edit : ∀ (i : Issue R) b, part (i.edit b) = part b ++ (placed i).toArray)
    (first : part (Block.initial height) = #[] := by rfl)
    (withoutRails : ∀ b : Block R, part b.withoutRails = part b := by exact fun _ => rfl)
    (inherit : ∀ b : Block R, part b.inherit = #[] := by exact fun _ => rfl) :
    (part b).toList = (issuedIn ((initial interval height).issues ds) k).flatMap placed :=
  run_issuedIn asc hb (fun b => (part b).toList) (List.flatMap placed)
    (fun h i b hb => by simp [edit, hb]) (by simp [first]) (fun b => by rw [withoutRails])
    fun b => by simp [inherit]

end Parts

/-- As long as no step leads back, each block is what the commands tell of it. -/
theorem carriedForward_run (asc : (initial interval height).Ascends ds) {k : Nat} {b : Block R}
    (hb : ((initial interval height).run ds).line.blocks[k]? = some b) :
    Block.CarriedForward (Block.initial height) ((initial interval height).issues ds) k b where
  pitch := run_lastStored asc hb (·.pitch) (·.action.pitch?)
    fun i b => congrArg Block.pitch (i.edit_eq b)
  curve := run_lastStored asc hb (fun b => (b.curveRadius, b.curveCant)) (·.action.curve?)
    fun i b => congrArg (fun b => (b.curveRadius, b.curveCant)) (i.edit_eq b)
  height := run_lastStored asc hb (·.height) (·.action.height?)
    fun i b => congrArg Block.height (i.edit_eq b)
  adhesion := run_lastStored asc hb (·.adhesion) (·.action.adhesion?)
    fun i b => congrArg Block.adhesion (i.edit_eq b)
  accuracy := run_lastStored asc hb (·.accuracy) (·.action.accuracy?)
    fun i b => congrArg Block.accuracy (i.edit_eq b)
  background := run_lastStored asc hb (·.background) (·.action.background?)
    fun i b => congrArg Block.background (i.edit_eq b)
  fog := run_lastStored asc hb (·.fog) (·.action.fog?) fun i b => congrArg Block.fog (i.edit_eq b)
  ground := run_lastStored asc hb (·.ground) (·.action.ground?)
    fun i b => congrArg Block.ground (i.edit_eq b)
  railType rail := by
    rw [run_lastStored asc hb (·.railTypes[rail]?) fun i => (i.action.railType? rail).map some]
    · exact lastStored_map_some ..
    · intro i b
      rw [i.edit_railTypes]
      cases i.action.railType? rail <;> rfl
  turn := run_issuedIn asc hb (·.turn) (fun h => (h.filterMap (·.action.turn?)).getLast?.getD 0)
    fun h i b hb => by
      rw [i.edit_eq]
      cases ht : i.action.turn? <;> simp [ht, hb]
  fogDefined := run_issuedIn asc hb (·.fogDefined) (fun h => h.any (·.action.fog?.isSome))
    fun h i b hb => by
      rw [i.edit_eq]
      simp [hb]
  freeObjects := run_flatMap asc hb (·.freeObjects) Issue.freeObjects
    fun i b => congrArg Block.freeObjects (i.edit_eq b)
  signals := run_flatMap asc hb (·.signals) Issue.signals
    fun i b => congrArg Block.signals (i.edit_eq b)
  sections := run_flatMap asc hb (·.sections) Issue.sections
    fun i b => congrArg Block.sections (i.edit_eq b)
  stops := run_flatMap asc hb (·.stops) Issue.stops
    fun i b => congrArg Block.stops (i.edit_eq b)
  limits := run_flatMap asc hb (·.limits) Issue.limits
    fun i b => congrArg Block.limits (i.edit_eq b)
  sounds := run_flatMap asc hb (·.sounds) Issue.sounds
    fun i b => congrArg Block.sounds (i.edit_eq b)
  transponders := run_flatMap asc hb (·.transponders) Issue.transponders
    fun i b => congrArg Block.transponders (i.edit_eq b)

end Laying

end RailRoute
