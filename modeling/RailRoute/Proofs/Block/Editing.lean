import Mathlib
import RailRoute.Block.Action

/-!
# What happens to the blocks

A line is laid by deeds of two kinds: going to a position, which may add blocks, and carrying out an
action, which changes the current block. Only a rail that starts or moves reaches beyond it, to the
rails of the block before, so rails are left aside here. Main statements: `getElem?_apply`, what an
action does to the blocks, and `getElem?_moveTo_of_lt` and `forall_moveTo`, what a move does to
them.
-/

namespace RailRoute

variable {R : Type}

/-- A step of laying a line. -/
inductive Deed (R : Type) where
  | go (position : R)
  | act (action : Action R)

/-- A command that was issued: the line as it found it, and what it asked for. -/
structure Issue (R : Type) where
  laying : Laying R
  action : Action R

/-- The block where a command was issued. -/
def Issue.block (i : Issue R) : Nat := i.laying.block

/-- The block without its rails. -/
def Block.withoutRails (b : Block R) : Block R := { b with rails := ∅ }

variable [Scalar R]

/-- What a command does to the block where it is issued, other than to its rails. -/
def Issue.edit (i : Issue R) (b : Block R) : Block R :=
  let s := i.laying
  match i.action with
  | .setRailType rail railType => { b with railTypes := b.railTypes.insert rail railType }
  | .setAccuracy x => { b with accuracy := x }
  | .setPitch x => { b with pitch := x }
  | .setCurve radius cant => { b with curveRadius := radius, curveCant := cant }
  | .setTurn x => { b with turn := x }
  | .setAdhesion x => { b with adhesion := x }
  | .setHeight x => { b with height := x }
  | .setGround cycle => { b with ground := cycle }
  | .addFreeObject object => { b with freeObjects := b.freeObjects.push object }
  | .setWall rail wall => { b with walls := b.walls.insert rail wall }
  | .setDike rail dike => { b with dikes := b.dikes.insert rail dike }
  | .setPole rail pole => { b with poles := b.poles.insert rail pole }
  | .endWall rail => { b with walls := b.walls.erase rail }
  | .endDike rail => { b with dikes := b.dikes.erase rail }
  | .endPole rail => { b with poles := b.poles.erase rail }
  | .setBackground index => { b with background := index }
  | .setFog fog => { b with fog := fog, fogDefined := true }
  | .openSection _ _ => { b with sections := b.sections.push s.line.sections.size }
  | .addSignal signal => { b with signals := b.signals.push signal }
  | .openSignal head _ placement =>
    { b with
      sections := b.sections.push s.line.sections.size
      signals := b.signals.push (s.postSignal s.line.sections.size head placement) }
  | .openStation _ => { b with station := some s.line.stations.size }
  | .addStop station _ =>
    { b with stops := b.stops ++
        (s.line.stations[station]?.map fun st => (station, st.stops.size)).toArray }
  | .addLimit limit => { b with limits := b.limits.push limit }
  | .addTransponder transponder => { b with transponders := b.transponders.push transponder }
  | .addSound sound => { b with sounds := b.sounds.push sound }
  | .startRail _ _ | .endRail _ _ | .addRequestStop _ | .addMarker _ | .addBuffer
  | .addPointOfInterest _ => b

namespace Laying

/-- Carries out a step. -/
def carryOut (s : Laying R) : Deed R → Laying R
  | .go position => s.moveTo position
  | .act action => action.apply s

/-- Carries out steps one after the other. -/
def run (s : Laying R) (ds : List (Deed R)) : Laying R := ds.foldl carryOut s

/-- The commands that are issued when steps are carried out. -/
def issues (s : Laying R) : List (Deed R) → List (Issue R)
  | [] => []
  | .go position :: ds => issues (s.moveTo position) ds
  | .act action :: ds => ⟨s, action⟩ :: issues (action.apply s) ds

/-- The positions that steps lead to. -/
def positions : List (Deed R) → List R
  | [] => []
  | .go position :: ds => position :: positions ds
  | .act _ :: ds => positions ds

/-! ## Actions -/

section Blocks

omit [Scalar R]

theorem getElem?_modifyBlock (s : Laying R) (f : Block R → Block R) (k : Nat) :
    (s.modifyBlock f).line.blocks[k]? =
      s.line.blocks[k]?.map fun b => if s.block = k then f b else b := by
  by_cases h : s.block = k <;> simp [modifyBlock, Line.modifyBlock, Array.getElem?_modify, h]

theorem mem_of_mem_modify {α : Type} {xs : Array α} {i : Nat} {f : α → α} {y : α}
    (h : y ∈ xs.modify i f) : y ∈ xs ∨ ∃ x, xs[i]? = some x ∧ f x = y := by
  obtain ⟨k, hk⟩ := Array.mem_iff_getElem?.1 h
  rw [Array.getElem?_modify] at hk
  split_ifs at hk with hik
  · exact Or.inr (hik ▸ Option.map_eq_some_iff.1 hk)
  · exact Or.inl (Array.mem_of_getElem? hk)

theorem map_modify_of_eq {α : Type} {part : Block R → α} (blocks : Array (Block R)) (i k : Nat)
    {f : Block R → Block R} (h : ∀ b, part (f b) = part b) :
    (blocks.modify i f)[k]?.map part = blocks[k]?.map part := by
  by_cases hk : i = k <;> simp [Array.getElem?_modify, hk, h, Function.comp_def]

theorem startRail_block (s : Laying R) (rail : Nat) (offset : Vec2 R) :
    (s.startRail rail offset).block = s.block := by
  unfold startRail
  split_ifs <;> rfl

theorem startRail_interval (s : Laying R) (rail : Nat) (offset : Vec2 R) :
    (s.startRail rail offset).line.interval = s.line.interval := by
  unfold startRail
  split_ifs <;> rfl

theorem size_startRail (s : Laying R) (rail : Nat) (offset : Vec2 R) :
    (s.startRail rail offset).line.blocks.size = s.line.blocks.size := by
  unfold startRail
  split_ifs <;> simp [modifyBlock, Line.modifyBlock]

/-- A rail that starts or moves changes nothing but rails, in the current block and the one
before. -/
theorem getElem?_startRail (s : Laying R) (rail : Nat) (offset : Vec2 R) (k : Nat) :
    (s.startRail rail offset).line.blocks[k]?.map Block.withoutRails =
      s.line.blocks[k]?.map Block.withoutRails := by
  unfold startRail
  dsimp only [modifyBlock, Line.modifyBlock]
  split_ifs
  · refine map_modify_of_eq _ _ _ ?_
    exact fun _ => rfl
  · refine (map_modify_of_eq _ _ _ ?_).trans (map_modify_of_eq _ _ _ ?_) <;>
      exact fun _ => rfl

theorem addStop_of_none {s : Laying R} {station : Nat} (h : s.line.stations[station]? = none)
    (stop : StopPoint R) : s.addStop station stop = s := by
  simp [addStop, h]

theorem getElem?_addStop {s : Laying R} {station : Nat} {st : Station R}
    (h : s.line.stations[station]? = some st) (stop : StopPoint R) (k : Nat) :
    (s.addStop station stop).line.blocks[k]? = s.line.blocks[k]?.map fun b =>
      if s.block = k then { b with stops := b.stops.push (station, st.stops.size) } else b := by
  simp only [addStop, h]
  exact getElem?_modifyBlock s _ k

end Blocks

end Laying

namespace Action

open Laying

theorem apply_block (a : Action R) (s : Laying R) : (a.apply s).block = s.block := by
  cases a
  case startRail rail offset => exact startRail_block s rail offset
  case addStop station stop =>
    simp only [apply, Laying.addStop]
    split <;> rfl
  all_goals rfl

theorem apply_interval (a : Action R) (s : Laying R) :
    (a.apply s).line.interval = s.line.interval := by
  cases a
  case startRail rail offset => exact startRail_interval s rail offset
  case addStop station stop =>
    simp only [apply, Laying.addStop]
    split <;> rfl
  all_goals rfl

theorem size_apply (a : Action R) (s : Laying R) :
    (a.apply s).line.blocks.size = s.line.blocks.size := by
  cases a
  case startRail rail offset => exact size_startRail s rail offset
  case addStop station stop =>
    simp only [apply, Laying.addStop]
    split <;> simp [modifyBlock, Line.modifyBlock]
  all_goals
    simp [apply, modifyBlock, Line.modifyBlock, Laying.openSection, Laying.addSignal,
      Laying.openStation]

/-- Rails aside, an action changes the current block only. -/
theorem getElem?_apply (a : Action R) (s : Laying R) (k : Nat) :
    (a.apply s).line.blocks[k]?.map Block.withoutRails =
      s.line.blocks[k]?.map fun b =>
        (if s.block = k then Issue.edit ⟨s, a⟩ b else b).withoutRails := by
  have here {t : Laying R} (f : Block R → Block R)
      (ht : t.line.blocks[k]? = s.line.blocks[k]?.map fun b => if s.block = k then f b else b)
      (hf : ∀ b, (f b).withoutRails = (Issue.edit ⟨s, a⟩ b).withoutRails) :
      t.line.blocks[k]?.map Block.withoutRails = s.line.blocks[k]?.map fun b =>
        (if s.block = k then Issue.edit ⟨s, a⟩ b else b).withoutRails := by
    rw [ht, Option.map_map]
    refine congrArg (Option.map · _) (funext fun b => ?_)
    by_cases hk : s.block = k <;> simp [hk, hf]
  cases a
  case startRail rail offset => simp [apply, getElem?_startRail, Issue.edit]
  case openSignal head aspects placement =>
    refine here (Issue.edit ⟨s, .openSignal head aspects placement⟩) ?_ fun _ => rfl
    have opened : (s.openSection aspects .indexBased).line.blocks[k]? = _ :=
      getElem?_modifyBlock s
        (fun b => { b with sections := b.sections.push s.line.sections.size }) k
    dsimp only [apply, Laying.addSignal]
    rw [getElem?_modifyBlock, opened, Option.map_map]
    refine congrArg (Option.map · _) (funext fun b => ?_)
    dsimp only [Function.comp_apply]
    by_cases hk : s.block = k
    · rw [if_pos hk, if_pos hk]
      exact if_pos hk
    · rw [if_neg hk, if_neg hk]
      exact if_neg hk
  case addStop station stop =>
    cases hst : s.line.stations[station]? with
    | none => simp [apply, addStop_of_none hst, Issue.edit, hst]
    | some st =>
      refine here _ (getElem?_addStop hst stop k) fun b => ?_
      simp [Issue.edit, hst, Block.withoutRails]
  case addRequestStop | addMarker | addBuffer | addPointOfInterest => simp [apply, Issue.edit]
  all_goals exact here _ (getElem?_modifyBlock s _ k) fun _ => rfl

/-- Rails aside, a block after an action is one before it, changed if it is the current one. -/
theorem exists_of_getElem?_apply {a : Action R} {s : Laying R} {k : Nat} {b' : Block R}
    (hb' : (a.apply s).line.blocks[k]? = some b') :
    ∃ b, s.line.blocks[k]? = some b ∧
      b'.withoutRails = (if s.block = k then Issue.edit ⟨s, a⟩ b else b).withoutRails := by
  have parts := a.getElem?_apply s k
  rw [hb', Option.map_some] at parts
  obtain ⟨b, hb, parts⟩ := Option.map_eq_some_iff.1 parts.symm
  exact ⟨b, hb, parts.symm⟩

end Action

/-! ## Moves -/

namespace Line

theorem size_appendBlocks (n : Nat) (blocks : Array (Block R)) :
    (appendBlocks n blocks).size = blocks.size + n := by
  induction n generalizing blocks with
  | zero => rfl
  | succ n ih =>
    rw [appendBlocks, ih, Array.size_push]
    omega

theorem getElem?_appendBlocks_of_lt (n : Nat) {blocks : Array (Block R)} {k : Nat}
    (h : k < blocks.size) : (appendBlocks n blocks)[k]? = blocks[k]? := by
  induction n generalizing blocks with
  | zero => rfl
  | succ n ih =>
    rw [appendBlocks, ih (by rw [Array.size_push]; omega), Array.getElem?_push_lt h,
      Array.getElem?_eq_getElem h]

theorem nextBlock_eq {blocks : Array (Block R)} {m : Nat} {last : Block R}
    (hsize : blocks.size = m + 1) (hlast : blocks[m]? = some last) :
    nextBlock blocks = last.inherit := by
  rw [nextBlock, Array.back?_eq_getElem?, hsize, Nat.add_sub_cancel, hlast]

theorem nextBlock_push (blocks : Array (Block R)) (b : Block R) :
    nextBlock (blocks.push b) = b.inherit := by
  simp [nextBlock]

/-- What holds of the first block to be added, and of every block if it holds of the one before,
holds of all blocks that are added. -/
theorem forall_appendBlocks {P : Nat → Block R → Prop}
    (inherited : ∀ k b, P k b → P (k + 1) b.inherit) (n : Nat) {blocks : Array (Block R)}
    (next : P blocks.size (nextBlock blocks)) {k : Nat} (hk : blocks.size ≤ k) {b : Block R}
    (hb : (appendBlocks n blocks)[k]? = some b) : P k b := by
  induction n generalizing blocks with
  | zero => simp [appendBlocks, Array.getElem?_eq_none hk] at hb
  | succ n ih =>
    rw [appendBlocks] at hb
    rcases hk.eq_or_lt with rfl | hlt
    · rw [getElem?_appendBlocks_of_lt n (by simp), Array.getElem?_push_size] at hb
      exact Option.some.inj hb ▸ next
    · refine ih ?_ (by rw [Array.size_push]; omega) hb
      rw [nextBlock_push, Array.size_push]
      exact inherited _ _ next

theorem exists_nextBlock_eq {blocks : Array (Block R)} (hs : 0 < blocks.size) :
    ∃ last ∈ blocks, nextBlock blocks = last.inherit := by
  refine ⟨blocks[blocks.size - 1], Array.getElem_mem _, ?_⟩
  exact nextBlock_eq (by omega) (Array.getElem?_eq_getElem _)

/-- What every block has, and hands on to the next, the added blocks have too. -/
theorem forall_mem_appendBlocks {P : Block R → Prop} (inherited : ∀ b, P b → P b.inherit) (n : Nat)
    {blocks : Array (Block R)} (hs : 0 < blocks.size) (h : ∀ b ∈ blocks, P b) :
    ∀ b ∈ appendBlocks n blocks, P b := by
  induction n generalizing blocks with
  | zero => exact h
  | succ n ih =>
    refine ih (by simp) fun b hb => ?_
    rcases Array.mem_push.1 hb with hb | rfl
    · exact h b hb
    · obtain ⟨last, hlast, heq⟩ := exists_nextBlock_eq hs
      rw [heq]
      exact inherited last (h last hlast)

/-- Each block that is added takes over the one before it. -/
theorem getElem?_appendBlocks_succ (n : Nat) {blocks : Array (Block R)} {k : Nat}
    (hs : 0 < blocks.size) (hk : blocks.size ≤ k + 1) {b : Block R}
    (hb : (appendBlocks n blocks)[k + 1]? = some b) :
    ∃ b', (appendBlocks n blocks)[k]? = some b' ∧ b = b'.inherit := by
  induction n generalizing blocks with
  | zero => simp [appendBlocks, Array.getElem?_eq_none hk] at hb
  | succ n ih =>
    rw [appendBlocks] at hb ⊢
    rcases hk.eq_or_lt with hlast | hlt
    · obtain ⟨last, hl⟩ : ∃ last, blocks[k]? = some last :=
        ⟨_, Array.getElem?_eq_getElem (by omega)⟩
      rw [getElem?_appendBlocks_of_lt n (by rw [Array.size_push]; omega), ← hlast,
        Array.getElem?_push_size, nextBlock_eq hlast hl] at hb
      refine ⟨last, ?_, (Option.some.inj hb).symm⟩
      rw [getElem?_appendBlocks_of_lt n (by rw [Array.size_push]; omega),
        Array.getElem?_push_lt (by omega), ← Array.getElem?_eq_getElem, hl]
    · exact ih (by simp) (by rw [Array.size_push]; omega) hb

end Line

namespace Laying

theorem moveTo_block (s : Laying R) (position : R) :
    (s.moveTo position).block = s.line.blockIndex position := rfl

theorem size_moveTo (s : Laying R) (position : R) : (s.moveTo position).line.blocks.size =
    max s.line.blocks.size (s.line.blockIndex position + 1) := by
  simp only [moveTo, Line.reach, Line.size_appendBlocks]
  omega

/-- A move leaves the blocks alone that there are already. -/
theorem getElem?_moveTo_of_lt {s : Laying R} {k : Nat} (h : k < s.line.blocks.size) (position : R) :
    (s.moveTo position).line.blocks[k]? = s.line.blocks[k]? :=
  Line.getElem?_appendBlocks_of_lt _ h

/-- What holds of the last block, and of every block if it holds of the one before, holds of the
blocks that a move adds. -/
theorem forall_moveTo {P : Nat → Block R → Prop} {s : Laying R} {m : Nat}
    (inherited : ∀ k b, m ≤ k → P k b → P (k + 1) b.inherit) (hsize : s.line.blocks.size = m + 1)
    (last : ∀ b, s.line.blocks[m]? = some b → P m b) (position : R) {k : Nat} (hk : m < k)
    {b : Block R} (hb : (s.moveTo position).line.blocks[k]? = some b) : P k b := by
  obtain ⟨b', hb'⟩ : ∃ b', s.line.blocks[m]? = some b' :=
    ⟨_, Array.getElem?_eq_getElem (by omega)⟩
  have next : m < s.line.blocks.size ∧ P s.line.blocks.size (Line.nextBlock s.line.blocks) := by
    rw [Line.nextBlock_eq hsize hb', hsize]
    exact ⟨Nat.lt_succ_self m, inherited m b' le_rfl (last b' hb')⟩
  exact (Line.forall_appendBlocks (P := fun k b => m < k ∧ P k b)
    (fun k b h => ⟨by omega, inherited k b h.1.le h.2⟩) _ next (hsize ▸ hk) hb).2

/-- What every block has, and hands on to the next, every block has after a move. -/
theorem forall_mem_moveTo {P : Block R → Prop} (inherited : ∀ b, P b → P b.inherit) {s : Laying R}
    (hs : 0 < s.line.blocks.size) (h : ∀ b ∈ s.line.blocks, P b) (position : R) :
    ∀ b ∈ (s.moveTo position).line.blocks, P b :=
  Line.forall_mem_appendBlocks inherited _ hs h

/-- A block that a move adds takes over the block before it. -/
theorem getElem?_moveTo_succ {s : Laying R} {k : Nat} (hk : s.line.blocks.size ≤ k + 1)
    (hs : 0 < s.line.blocks.size) {position : R} {b : Block R}
    (hb : (s.moveTo position).line.blocks[k + 1]? = some b) :
    ∃ b', (s.moveTo position).line.blocks[k]? = some b' ∧ b = b'.inherit :=
  Line.getElem?_appendBlocks_succ _ hs hk hb

/-! ## Runs -/

theorem size_pos_carryOut {s : Laying R} (hs : 0 < s.line.blocks.size) (d : Deed R) :
    0 < (s.carryOut d).line.blocks.size := by
  cases d with
  | go position =>
    rw [carryOut, size_moveTo]
    omega
  | act a => rwa [carryOut, a.size_apply]

/-- A line begins with a single block. -/
theorem mem_blocks_initial {interval height : R} {b : Block R} :
    b ∈ (initial interval height).line.blocks ↔ b = Block.initial height := by
  simp [initial, Line.initial]

omit [Scalar R] in
theorem positions_append (xs ys : List (Deed R)) :
    positions (xs ++ ys) = positions xs ++ positions ys := by
  induction xs with
  | nil => rfl
  | cons d xs ih => cases d <;> simp [positions, ih]

theorem issues_append (s : Laying R) (xs ys : List (Deed R)) :
    s.issues (xs ++ ys) = s.issues xs ++ (s.run xs).issues ys := by
  induction xs generalizing s with
  | nil => rfl
  | cons d xs ih =>
    cases d with
    | go position => exact ih (s.moveTo position)
    | act action => exact congrArg _ (ih (action.apply s))

/-- What holds at first, and is kept by every step, holds after a run. -/
theorem run_induction {P : Laying R → Prop} {s : Laying R} {ds : List (Deed R)} (first : P s)
    (go : ∀ s, ∀ position ∈ positions ds, P s → P (s.moveTo position))
    (act : ∀ i ∈ s.issues ds, P i.laying → P (i.action.apply i.laying)) : P (s.run ds) := by
  induction ds generalizing s with
  | nil => exact first
  | cons d ds ih =>
    cases d with
    | go position =>
      exact ih (go s position (List.mem_cons_self ..) first)
        (fun s p hp => go s p (List.mem_cons_of_mem _ hp)) act
    | act action =>
      exact ih (act ⟨s, action⟩ (List.mem_cons_self ..) first) go
        fun i hi => act i (List.mem_cons_of_mem _ hi)

end Laying

end RailRoute
