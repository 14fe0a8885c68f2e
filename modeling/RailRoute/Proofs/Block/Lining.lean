import Mathlib
import RailRoute.Proofs.Block.Admission
import RailRoute.Proofs.Block.Rails

/-!
# What runs along rails

Walls, dikes and poles are placed along rails of the current block. A new block takes them over from
the last one as they are, but only such rails as still run, so a rail that ends may leave behind it
what ran along it. Main statements: `lines_read`, that they are placed along rails that are there,
`traced_run`, that a rail along which they run was there at some time, and
`forall_alongRails_iff`, when it still is.
-/

namespace RailRoute

variable {R : Type}

/-- Whether a wall, a dike or poles run along a rail in a block. -/
def Block.IsLined (b : Block R) (rail : Nat) : Prop :=
  rail ∈ b.walls ∨ rail ∈ b.dikes ∨ rail ∈ b.poles

namespace Line

/-- Whether a block has a rail. -/
def HasRail (l : Line R) (k rail : Nat) : Prop := ∃ b, l.blocks[k]? = some b ∧ rail ∈ b.rails

/-- Whether walls, dikes and poles run only along rails that their block has. -/
def AlongRails (l : Line R) : Prop :=
  ∀ (k : Nat) (b : Block R), l.blocks[k]? = some b → ∀ rail, b.IsLined rail → rail ∈ b.rails

/-- Whether walls, dikes and poles run only along rails that their block or one before it has. -/
def Traced (l : Line R) : Prop :=
  ∀ (k : Nat) (b : Block R), l.blocks[k]? = some b → ∀ rail, b.IsLined rail →
    ∃ j ≤ k, l.HasRail j rail

/-- Whether each rail along which something runs in the last block goes on behind it. -/
def LinedGoOn (l : Line R) : Prop :=
  ∀ b, l.blocks.back? = some b → ∀ rail, b.IsLined rail → b.isRunning rail

end Line

namespace Action

/-- The rail along which an action places a wall, a dike or poles. -/
def linedRail? : Action R → Option Nat
  | .setWall rail _ | .setDike rail _ | .setPole rail _ => some rail
  | _ => none

theorem mem_railsHere (a : Action R) {rails : IndexMap (Rail R)} {i : Nat} (h : i ∈ rails) :
    i ∈ a.railsHere rails := by
  cases a <;> simp [railsHere, Std.TreeMap.mem_modify, h]

theorem mem_railsBefore (a : Action R) {rails : IndexMap (Rail R)} {i : Nat} (h : i ∈ rails) :
    i ∈ a.railsBefore rails := by
  cases a <;> simp [railsBefore, Std.TreeMap.mem_modify, h]

end Action

variable [Scalar R]

/-! ## Reading -/

namespace Site

open Check

variable (s : Site R) (c : Command)

theorem mem_rails_of_readWall (left right : StructureKind) (what : String) :
    Ensures (fun x => x.1 ∈ s.laying.currentBlock.rails) (s.readWall c left right what) := by
  unfold readWall
  refine (s.ensures_runningRail c).bind fun rail hrail => ensures_bind fun _ => ?_
  refine ensures_bind fun side => ?_
  cases side
  case both => exact ensures_bind fun _ => ensures_bind fun _ => ensures_pure hrail
  all_goals exact ensures_bind fun _ => ensures_pure hrail

/-- Walls, dikes and poles are placed along rails that the current block has. -/
theorem lines_read :
    Ensures (fun a => ∀ rail ∈ a.linedRail?, rail ∈ s.laying.currentBlock.rails) (s.read c) := by
  unfold read
  split
  · rename_i verb _
    cases verb
    case wall | dike =>
      refine (s.mem_rails_of_readWall c _ _ _).bind fun x hx => ensures_pure ?_
      simpa [Action.linedRail?] using hx
    case pole =>
      unfold readVerb readPole
      refine (s.ensures_runningRail c).bind fun rail hrail => ?_
      refine ensures_bind fun _ => ensures_bind fun _ => ensures_bind fun _ => ?_
      refine ensures_unless fun _ => ensures_bind fun _ => ?_
      split_ifs
      · exact ensures_pure (by simpa [Action.linedRail?] using hrail)
      · exact ensures_fail _
    -- The other commands place nothing along a rail, whatever their arguments.
    all_goals
      simp only [readVerb, readRailStart, readRailEnd, readRailType, readGround, readFreeObject,
        readBackground, readFog, readSection, readCustomSignal, readPostSignal, readRelay,
        readStation, readStop, readRequestStop, readLimit, readBeacon, readTransponder,
        readAnnounce, readDoppler, readImageMarker, readTextMarker, readMarker,
        readPointOfInterest]
      repeat' first
        | exact ensures_pure (by simp [Action.linedRail?])
        | exact ensures_fail _
        | refine ensures_unless fun _ => ?_
        | refine ensures_bind fun _ => ?_
        | split
  · exact ensures_fail _

end Site

/-! ## Two blocks -/

theorem Issue.isLined_edit {i : Issue R} {b : Block R} {rail : Nat} (h : (i.edit b).IsLined rail) :
    b.IsLined rail ∨ i.action.linedRail? = some rail := by
  obtain ⟨s, a⟩ := i
  cases a
  case setWall r _ | setDike r _ | setPole r _ =>
    by_cases hr : r = rail
    · exact Or.inr (congrArg some hr)
    · exact Or.inl (by simpa [Block.IsLined, edit, hr] using h)
  case endWall r | endDike r | endPole r =>
    left
    simp only [Block.IsLined, edit, Std.TreeMap.mem_erase] at h ⊢
    tauto
  all_goals exact Or.inl h

namespace Block

variable (b : Block R) (rail : Nat)

omit [Scalar R] in
theorem isRunning_started (refreshed : Bool) (start finish : Vec2 R) :
    (⟨true, refreshed, false, start, finish⟩ : Rail R).isRunning = true := rfl

theorem isRunning_inherit : b.inherit.isRunning rail = b.isRunning rail := by
  unfold isRunning
  cases hr : b.rails[rail]? with
  | none => simp [inherit, hr]
  | some r => by_cases hruns : r.isRunning <;> simp [inherit, carryRail?, hr, hruns, isRunning_started]

/-- A new block takes over the rails that run. -/
theorem mem_rails_inherit : rail ∈ b.inherit.rails ↔ b.isRunning rail := by
  refine ⟨fun h => ?_, fun h => mem_rails_of_isRunning ((b.isRunning_inherit rail).trans h)⟩
  simp only [inherit, Std.TreeMap.mem_iff_isSome_getElem?] at h
  unfold isRunning
  cases hr : b.rails[rail]? with
  | none => simp [hr] at h
  | some r =>
    by_contra hruns
    simp [hr, carryRail?, hruns] at h

end Block

/-! ## The line -/

namespace Laying

variable {s : Laying R}

/-- A block after an action has the rails it had before, and nothing runs along a rail that did not
before unless the action places it there. -/
theorem exists_of_apply {a : Action R} {k : Nat} {b' : Block R}
    (hb' : (a.apply s).line.blocks[k]? = some b') :
    ∃ b, s.line.blocks[k]? = some b ∧ (∀ rail ∈ b.rails, rail ∈ b'.rails) ∧
      ∀ rail, b'.IsLined rail →
        b.IsLined rail ∨ s.block = k ∧ a.linedRail? = some rail := by
  obtain ⟨b, hb, lining⟩ := Action.exists_of_getElem?_apply hb'
  have rails := a.getElem?_apply_rails s k
  rw [hb', hb, Option.map_some, Option.map_some, Option.some.injEq] at rails
  refine ⟨b, hb, fun rail hrail => ?_, fun rail h => ?_⟩
  · rw [rails]
    split_ifs
    · exact a.mem_railsHere hrail
    · exact a.mem_railsBefore hrail
    · exact hrail
  · change b'.withoutRails.IsLined rail at h
    rw [lining] at h
    change (ite _ _ b).IsLined rail at h
    split_ifs at h with hk
    · exact (Issue.isLined_edit h).imp_right fun hrail => ⟨hk, hrail⟩
    · exact Or.inl h

theorem hasRail_apply (a : Action R) {k rail : Nat} (h : s.line.HasRail k rail) :
    (a.apply s).line.HasRail k rail := by
  obtain ⟨b, hb, hrail⟩ := h
  have hk : k < (a.apply s).line.blocks.size := by
    rw [a.size_apply]
    exact (Array.getElem?_eq_some_iff.1 hb).1
  obtain ⟨c, hc, rails, -⟩ := exists_of_apply (Array.getElem?_eq_getElem hk)
  obtain rfl : b = c := Option.some.inj (hb.symm.trans hc)
  exact ⟨_, Array.getElem?_eq_getElem hk, rails rail hrail⟩

theorem hasRail_moveTo (position : R) {k rail : Nat} (h : s.line.HasRail k rail) :
    (s.moveTo position).line.HasRail k rail := by
  obtain ⟨b, hb, hrail⟩ := h
  refine ⟨b, ?_, hrail⟩
  rwa [getElem?_moveTo_of_lt (Array.getElem?_eq_some_iff.1 hb).1]

/-! ## Where rails were -/

theorem traced_apply {a : Action R} (lined : ∀ rail ∈ a.linedRail?, rail ∈ s.currentBlock.rails)
    (h : s.line.Traced) : (a.apply s).line.Traced := by
  intro k b' hb' rail hrail
  obtain ⟨b, hb, -, back⟩ := exists_of_apply hb'
  obtain hrail | ⟨rfl, hrail⟩ := back rail hrail
  · obtain ⟨j, hj, has⟩ := h k b hb rail hrail
    exact ⟨j, hj, hasRail_apply a has⟩
  · have mem : rail ∈ b.rails := by simpa [currentBlock, hb] using lined rail hrail
    exact ⟨s.block, le_rfl, hasRail_apply a ⟨b, hb, mem⟩⟩

theorem traced_moveTo (hs : 0 < s.line.blocks.size) (h : s.line.Traced) (position : R) :
    (s.moveTo position).line.Traced := by
  obtain ⟨m, hm⟩ : ∃ m, s.line.blocks.size = m + 1 := ⟨s.line.blocks.size - 1, by omega⟩
  have old {k : Nat} {b : Block R} (hb : s.line.blocks[k]? = some b) :
      ∀ rail, b.IsLined rail → ∃ j ≤ k, (s.moveTo position).line.HasRail j rail := by
    intro rail hrail
    obtain ⟨j, hj, has⟩ := h k b hb rail hrail
    exact ⟨j, hj, hasRail_moveTo position has⟩
  intro k b hb
  rcases Nat.lt_or_ge m k with hk | hk
  · refine forall_moveTo (P := fun k b => ∀ rail, b.IsLined rail →
      ∃ j ≤ k, (s.moveTo position).line.HasRail j rail) ?_ hm (fun _ => old) position hk hb
    intro k b _ hb rail hrail
    obtain ⟨j, hj, has⟩ := hb rail hrail
    exact ⟨j, hj.trans (Nat.le_succ k), has⟩
  · rw [getElem?_moveTo_of_lt (by omega)] at hb
    exact old hb

variable {ds : List (Deed R)}

/-- A rail along which something runs was there, in its block or one before it. -/
theorem traced_run (hs : 0 < s.line.blocks.size)
    (lined : ∀ i ∈ s.issues ds, ∀ rail ∈ i.action.linedRail?, rail ∈ i.laying.currentBlock.rails)
    (h : s.line.Traced) : (s.run ds).line.Traced := by
  refine (run_induction (P := fun s => 0 < s.line.blocks.size ∧ s.line.Traced) ⟨hs, h⟩
    (fun s position _ h => ?_) fun i hi h => ?_).2
  · exact ⟨size_pos_carryOut h.1 (.go position), traced_moveTo h.1 h.2 position⟩
  · exact ⟨size_pos_carryOut h.1 (.act i.action), traced_apply (lined i hi) h.2⟩

/-! ## Where rails still are -/

theorem alongRails_apply {a : Action R}
    (lined : ∀ rail ∈ a.linedRail?, rail ∈ s.currentBlock.rails) (h : s.line.AlongRails) :
    (a.apply s).line.AlongRails := by
  intro k b' hb' rail hrail
  obtain ⟨b, hb, rails, back⟩ := exists_of_apply hb'
  refine rails rail ?_
  obtain hrail | ⟨rfl, hrail⟩ := back rail hrail
  · exact h k b hb rail hrail
  · simpa [currentBlock, hb] using lined rail hrail

/-- A move that adds blocks needs the rails to go on along which something runs. -/
theorem alongRails_moveTo_iff (hs : 0 < s.line.blocks.size) (position : R) :
    (s.moveTo position).line.AlongRails ↔ s.line.AlongRails ∧
      (s.line.blocks.size ≤ s.line.blockIndex position → s.line.LinedGoOn) := by
  obtain ⟨m, hm⟩ : ∃ m, s.line.blocks.size = m + 1 := ⟨s.line.blocks.size - 1, by omega⟩
  have back : s.line.blocks.back? = s.line.blocks[m]? := by
    rw [Array.back?_eq_getElem?, hm, Nat.add_sub_cancel]
  have size := size_moveTo s position
  constructor
  · refine fun h => ⟨fun k b hb => h k b ?_, fun hadds last hlast rail hrail => ?_⟩
    · rwa [getElem?_moveTo_of_lt (Array.getElem?_eq_some_iff.1 hb).1]
    · obtain ⟨added, hadded⟩ : ∃ added, (s.moveTo position).line.blocks[m + 1]? = some added :=
        ⟨_, Array.getElem?_eq_getElem (by omega)⟩
      obtain ⟨b, hb, rfl⟩ := getElem?_moveTo_succ hm.le hs hadded
      rw [getElem?_moveTo_of_lt (by omega), ← back, hlast] at hb
      obtain rfl := Option.some.inj hb
      exact (last.mem_rails_inherit rail).1 (h _ _ hadded rail hrail)
  · rintro ⟨h, goOn⟩ k b hb rail hrail
    rcases Nat.lt_or_ge m k with hk | hk
    · have hadds : s.line.blocks.size ≤ s.line.blockIndex position := by
        have := (Array.getElem?_eq_some_iff.1 hb).1
        omega
      refine Block.mem_rails_of_isRunning ?_
      refine forall_moveTo (P := fun _ b => ∀ rail, b.IsLined rail → b.isRunning rail)
        (fun k b _ hb rail hrail => ?_) hm (fun b hb => goOn hadds b (back.trans hb)) position hk hb
        rail hrail
      rw [b.isRunning_inherit]
      exact hb rail hrail
    · rw [getElem?_moveTo_of_lt (by omega)] at hb
      exact h k b hb rail hrail

/-- Walls, dikes and poles run along rails that are there, throughout a run, exactly if they do so
at first and, each time blocks are added, along rails that go on behind the last one. -/
theorem forall_alongRails_iff (hs : 0 < s.line.blocks.size) (first : s.line.AlongRails)
    (lined : ∀ i ∈ s.issues ds, ∀ rail ∈ i.action.linedRail?, rail ∈ i.laying.currentBlock.rails) :
    (∀ xs, xs <+: ds → (s.run xs).line.AlongRails) ↔
      ∀ xs position, xs ++ [.go position] <+: ds →
        (s.run xs).line.blocks.size ≤ (s.run xs).line.blockIndex position →
        (s.run xs).line.LinedGoOn := by
  have size (xs : List (Deed R)) : 0 < (s.run xs).line.blocks.size := by
    induction xs using List.reverseRecOn with
    | nil => exact hs
    | append_singleton xs d ih =>
      rw [run, List.foldl_concat]
      exact size_pos_carryOut ih d
  constructor
  · intro h xs position hxs
    have moved := h _ hxs
    rw [run, List.foldl_concat] at moved
    exact ((alongRails_moveTo_iff (size xs) position).1 moved).2
  · intro goOn xs hxs
    induction xs using List.reverseRecOn with
    | nil => exact first
    | append_singleton xs d ih =>
      have before := ih ((List.prefix_append ..).trans hxs)
      rw [run, List.foldl_concat]
      cases d with
      | go position =>
        exact (alongRails_moveTo_iff (size xs) position).2 ⟨before, goOn xs position hxs⟩
      | act a =>
        obtain ⟨ys, rfl⟩ := hxs
        refine alongRails_apply (lined ⟨s.run xs, a⟩ ?_) before
        simp [issues_append, issues]

theorem alongRails_initial (interval height : R) : (initial interval height).line.AlongRails := by
  intro k b hb rail hrail
  obtain rfl := mem_blocks_initial.1 (Array.mem_of_getElem? hb)
  simp [Block.IsLined, Block.initial] at hrail

omit [Scalar R] in
theorem traced_of_alongRails (h : s.line.AlongRails) : s.line.Traced :=
  fun k b hb rail hrail => ⟨k, le_rfl, b, hb, h k b hb rail hrail⟩

end Laying

end RailRoute
