import Mathlib
import RailRoute.Proofs.Block.Admission
import RailRoute.Proofs.Block.CarryForward

/-!
# How rails go on

A rail that runs in a block goes on in the next one, and there from where it came to; one that
appears without having run before is started in that very block. Four things have a hand in this:
new blocks, rails that start or move, which bends their end in the block before, and rails that end.
As long as no step leads back they all act at the end of the line. Main statements: `joined_run`,
and `mainRail_run`, that the main rail runs everywhere, whatever the order of the steps.
-/

namespace RailRoute

variable {R : Type}

/-- Whether the rails of a block go on as they should in the block behind it. -/
structure RailsJoin (here next : IndexMap (Rail R)) : Prop where
  goesOn : ∀ (i : Nat) (r : Rail R), here[i]? = some r → r.isRunning →
    ∃ r', next[i]? = some r' ∧ r'.start = r.finish
  startsAnew : ∀ (i : Nat) (r' : Rail R), next[i]? = some r' →
    (∀ r, here[i]? = some r → ¬ r.isRunning) → r'.refreshed

/-- Whether the rails of every block go on in the block behind it. -/
def Line.Joined (l : Line R) : Prop :=
  ∀ (k : Nat) (b b' : Block R), l.blocks[k]? = some b → l.blocks[k + 1]? = some b' →
    RailsJoin b.rails b'.rails

namespace Action

/-- What an action does to the rails of the current block. -/
def railsHere (a : Action R) (rails : IndexMap (Rail R)) : IndexMap (Rail R) :=
  match a with
  | .startRail i offset => rails.insert i ⟨true, true, false, offset, offset⟩
  | .endRail i finish =>
    rails.modify i fun r => { r with ended := true, finish := finish.getD r.finish }
  | _ => rails

/-- What an action does to the rails of the block before the current one. -/
def railsBefore (a : Action R) (rails : IndexMap (Rail R)) : IndexMap (Rail R) :=
  match a with
  | .startRail i offset =>
    rails.modify i fun r => if r.isRunning then { r with finish := offset } else r
  | _ => rails

/-- What an action does to one rail of the block before the current one: if it runs there, it leads
to where it starts. -/
def bend (a : Action R) (i : Nat) : Rail R → Rail R :=
  match a with
  | .startRail j offset => fun r => if j = i ∧ r.isRunning then { r with finish := offset } else r
  | _ => id

variable (a : Action R) (rails : IndexMap (Rail R)) (i : Nat) (r : Rail R)

/-- Bending a rail changes nothing but where it leads to. -/
theorem exists_bend_eq : ∃ finish, a.bend i r = { r with finish := finish } := by
  unfold bend
  split
  · split_ifs
    · exact ⟨_, rfl⟩
    · exact ⟨r.finish, rfl⟩
  · exact ⟨r.finish, rfl⟩

@[simp] theorem bend_isRunning : (a.bend i r).isRunning = r.isRunning := by
  obtain ⟨finish, h⟩ := a.exists_bend_eq i r
  rw [h]
  rfl

@[simp] theorem bend_start : (a.bend i r).start = r.start := by
  obtain ⟨finish, h⟩ := a.exists_bend_eq i r
  rw [h]

@[simp] theorem bend_refreshed : (a.bend i r).refreshed = r.refreshed := by
  obtain ⟨finish, h⟩ := a.exists_bend_eq i r
  rw [h]

theorem getElem?_railsBefore : (a.railsBefore rails)[i]? = rails[i]?.map (a.bend i) := by
  cases a
  case startRail j offset =>
    by_cases hj : j = i <;> simp [railsBefore, bend, Std.TreeMap.getElem?_modify, hj]
  all_goals simp [railsBefore, bend]

end Action

/-! ## Two blocks -/

namespace RailsJoin

variable {here next : IndexMap (Rail R)}

/-- Bending the ends of rails is no harm to the rails before them. -/
theorem before (h : RailsJoin here next) (a : Action R) :
    RailsJoin here (a.railsBefore next) where
  goesOn i r hr hruns := by
    obtain ⟨r', hr', hstart⟩ := h.goesOn i r hr hruns
    exact ⟨a.bend i r', by rw [a.getElem?_railsBefore, hr', Option.map_some], by simpa using hstart⟩
  startsAnew i r' hr' hstops := by
    rw [a.getElem?_railsBefore] at hr'
    obtain ⟨r, hr, rfl⟩ := Option.map_eq_some_iff.1 hr'
    simpa using h.startsAnew i r hr hstops

/-- A rail that starts or moves takes the end of the one before along, and one that ends keeps where
it began. -/
theorem act (h : RailsJoin here next) (a : Action R) :
    RailsJoin (a.railsBefore here) (a.railsHere next) where
  goesOn i r hr hruns := by
    rw [a.getElem?_railsBefore] at hr
    obtain ⟨r, hr₀, rfl⟩ := Option.map_eq_some_iff.1 hr
    rw [a.bend_isRunning] at hruns
    obtain ⟨r', hr', hstart⟩ := h.goesOn i r hr₀ hruns
    cases a
    case startRail j offset =>
      by_cases hj : j = i
      · exact ⟨⟨true, true, false, offset, offset⟩, by simp [Action.railsHere, hj],
          by simp [Action.bend, hj, hruns]⟩
      · exact ⟨r', by simp [Action.railsHere, Std.TreeMap.getElem?_insert, hj, hr'],
          by simpa [Action.bend, hj] using hstart⟩
    case endRail j finish =>
      by_cases hj : j = i
      · exact ⟨{ r' with ended := true, finish := finish.getD r'.finish },
          by simp [Action.railsHere, hj, hr'], hstart⟩
      · exact ⟨r', by simp [Action.railsHere, Std.TreeMap.getElem?_modify, hj, hr'], hstart⟩
    all_goals exact ⟨r', hr', hstart⟩
  startsAnew i r' hr' hstops := by
    have stops : ∀ r, here[i]? = some r → ¬ r.isRunning := fun r hr => by
      have := hstops (a.bend i r) (by rw [a.getElem?_railsBefore, hr, Option.map_some])
      rwa [a.bend_isRunning] at this
    cases a
    case startRail j offset =>
      by_cases hj : j = i
      · obtain rfl : _ = r' := by simpa [Action.railsHere, hj] using hr'
        rfl
      · exact h.startsAnew i r' (by
          simpa [Action.railsHere, Std.TreeMap.getElem?_insert, hj] using hr') stops
    case endRail j finish =>
      by_cases hj : j = i
      · obtain ⟨r, hr, rfl⟩ : ∃ r, next[i]? = some r ∧ _ = r' := by
          simpa [Action.railsHere, hj] using hr'
        exact h.startsAnew i r hr stops
      · exact h.startsAnew i r' (by
          simpa [Action.railsHere, Std.TreeMap.getElem?_modify, hj] using hr') stops
    all_goals exact h.startsAnew i r' hr' stops

variable [Scalar R]

theorem inherit (b : Block R) : RailsJoin b.rails b.inherit.rails where
  goesOn i r hr hruns := by
    refine ⟨⟨true, false, false, r.finish, r.finish⟩, ?_, rfl⟩
    simp [Block.inherit, Block.carryRail?, hr, hruns]
  startsAnew i r' hr' hstops := by
    exfalso
    obtain ⟨r, hr, hcarry⟩ : ∃ r, b.rails[i]? = some r ∧ Block.carryRail? r = some r' := by
      simpa [Block.inherit, Option.bind_eq_some_iff] using hr'
    simp [Block.carryRail?, hstops r hr] at hcarry

end RailsJoin

/-! ## The line -/

variable [Scalar R]

/-- What an action does to the rails of all blocks. -/
theorem Action.getElem?_apply_rails (a : Action R) (s : Laying R) (k : Nat) :
    (a.apply s).line.blocks[k]?.map Block.rails = s.line.blocks[k]?.map fun b =>
      if s.block = k then a.railsHere b.rails
      else if s.block = k + 1 then a.railsBefore b.rails else b.rails := by
  cases a
  case startRail i offset =>
    have started := Laying.getElem?_modifyBlock s
      (fun b => { b with rails := b.rails.insert i ⟨true, true, false, offset, offset⟩ }) k
    simp only [apply, Laying.startRail]
    by_cases hs : s.block = 0
    · rw [if_pos hs, started, Option.map_map]
      refine congrArg (Option.map · _) (funext fun b => ?_)
      by_cases hk : s.block = k
      · simp [railsHere, hk]
      · simp [hk, show s.block ≠ k + 1 by omega]
    · rw [if_neg hs]
      simp only [Line.modifyBlock, Array.getElem?_modify, started]
      by_cases hk : s.block = k
      · simp [railsHere, hk, show k - 1 ≠ k by omega, Function.comp_def]
      · by_cases hk' : s.block = k + 1
        · simp [railsBefore, hk', Function.comp_def]
        · simp [hk, hk', show s.block - 1 ≠ k by omega]
  case endRail i finish =>
    rw [apply, Laying.getElem?_modifyBlock, Option.map_map]
    refine congrArg (Option.map · _) (funext fun b => ?_)
    by_cases hk : s.block = k <;> simp [railsHere, railsBefore, hk]
  all_goals simp only [railsHere, railsBefore, ite_self]
  case openSignal =>
    refine (Laying.map_modify_of_eq _ _ _ ?_).trans (Laying.map_modify_of_eq _ _ _ ?_) <;>
      exact fun _ => rfl
  case addStop =>
    simp only [apply, Laying.addStop]
    split
    · rfl
    · exact Laying.map_modify_of_eq _ _ _ fun _ => rfl
  case addRequestStop | addMarker | addBuffer | addPointOfInterest => rfl
  all_goals exact Laying.map_modify_of_eq _ _ _ fun _ => rfl

namespace Laying

variable {s : Laying R} {h : List (Issue R)} {ds : List (Deed R)}

theorem joined_apply (g : Grown s h) (hs : s.line.Joined) (a : Action R) :
    (a.apply s).line.Joined := by
  intro k b b' hb hb'
  have hrails := a.getElem?_apply_rails s k
  have hrails' := a.getElem?_apply_rails s (k + 1)
  rw [hb, Option.map_some] at hrails
  rw [hb', Option.map_some] at hrails'
  obtain ⟨c, hc, hcb⟩ := Option.map_eq_some_iff.1 hrails.symm
  obtain ⟨c', hc', hcb'⟩ := Option.map_eq_some_iff.1 hrails'.symm
  obtain ⟨hk, -⟩ := Array.getElem?_eq_some_iff.1 hc'
  rw [g.size] at hk
  have joined := hs k c c' hc hc'
  rw [← hcb, ← hcb']
  -- The current block is the last one, so it is the second of the two, or behind both.
  rcases (show k + 1 ≤ s.block by omega).eq_or_lt with hk | hk
  · simpa [← hk] using joined.act a
  · rcases (show k + 2 ≤ s.block by omega).eq_or_lt with hk | hk
    · simpa [← hk] using joined.before a
    · simpa [show s.block ≠ k by omega, show s.block ≠ k + 1 by omega,
        show s.block ≠ k + 1 + 1 by omega] using joined

theorem joined_moveTo (g : Grown s h) (hs : s.line.Joined) (position : R) :
    (s.moveTo position).line.Joined := by
  intro k b b' hb hb'
  rcases Nat.lt_or_ge (k + 1) s.line.blocks.size with hk | hk
  · rw [getElem?_moveTo_of_lt (by omega)] at hb
    rw [getElem?_moveTo_of_lt hk] at hb'
    exact hs k b b' hb hb'
  · obtain ⟨c, hc, rfl⟩ := getElem?_moveTo_succ hk (by rw [g.size]; omega) hb'
    obtain rfl : b = c := Option.some.inj (hb.symm.trans hc)
    exact RailsJoin.inherit b

/-- As long as no step leads back, the rails of every block go on in the one behind it. -/
theorem joined_run (g : Grown s h) (asc : s.Ascends ds) (hs : s.line.Joined) :
    (s.run ds).line.Joined := by
  induction ds generalizing s h with
  | nil => exact hs
  | cons d ds ih =>
    cases d with
    | go position => exact ih (g.moveTo asc.1) asc.2 (joined_moveTo g hs position)
    | act action => exact ih (g.apply action) asc (joined_apply g hs action)

theorem joined_initial (interval height : R) : (initial interval height).line.Joined := by
  intro k b b' _ hb'
  simp [initial, Line.initial] at hb'

/-! ## The main rail -/

/-- Whether the main rail runs in every block. -/
def MainRailRuns (s : Laying R) : Prop :=
  ∀ b ∈ s.line.blocks, ∃ r, b.rails[0]? = some r ∧ r.isRunning

theorem mainRail_moveTo (hs : 0 < s.line.blocks.size) (main : s.MainRailRuns) (position : R) :
    (s.moveTo position).MainRailRuns := by
  refine forall_mem_moveTo ?_ hs main position
  rintro b ⟨r, hr, hruns⟩
  refine ⟨⟨true, false, false, r.finish, r.finish⟩, ?_, rfl⟩
  simp [Block.inherit, Block.carryRail?, hr, hruns]

theorem mainRail_apply {t : Tables R} {a : Action R} (ha : a.Admitted t s)
    (main : s.MainRailRuns) : (a.apply s).MainRailRuns := by
  intro b' hb'
  obtain ⟨k, hk⟩ := Array.mem_iff_getElem?.1 hb'
  have hrails := a.getElem?_apply_rails s k
  rw [hk, Option.map_some] at hrails
  obtain ⟨b, hb, hbb'⟩ := Option.map_eq_some_iff.1 hrails.symm
  obtain ⟨r, hr, hruns⟩ := main b (Array.mem_of_getElem? hb)
  rw [← hbb']
  split_ifs
  · refine ⟨r, ?_, hruns⟩
    cases a
    case startRail i offset =>
      have other : i ≠ 0 := ha
      simpa [Action.railsHere, Std.TreeMap.getElem?_insert, other] using hr
    case endRail i finish =>
      have other : i ≠ 0 := ha
      simpa [Action.railsHere, Std.TreeMap.getElem?_modify, other] using hr
    all_goals exact hr
  · exact ⟨a.bend 0 r, by rw [a.getElem?_railsBefore, hr, Option.map_some], by simpa using hruns⟩
  · exact ⟨r, hr, hruns⟩

/-- No admitted action touches the main rail, so it runs in every block. -/
theorem mainRail_run {t : Tables R} (hs : 0 < s.line.blocks.size) (main : s.MainRailRuns)
    (admitted : ∀ i ∈ s.issues ds, i.action.Admitted t i.laying) : (s.run ds).MainRailRuns := by
  refine (run_induction (P := fun s => 0 < s.line.blocks.size ∧ s.MainRailRuns) ⟨hs, main⟩
    (fun s position _ h => ⟨?_, mainRail_moveTo h.1 h.2 position⟩) fun i hi h => ⟨?_, ?_⟩).2
  · exact size_pos_carryOut h.1 (.go position)
  · exact size_pos_carryOut h.1 (.act i.action)
  · exact mainRail_apply (admitted i hi) h.2

theorem mainRail_initial (interval height : R) : (initial interval height).MainRailRuns := by
  intro b hb
  obtain rfl := mem_blocks_initial.1 hb
  exact ⟨⟨true, true, false, .zero, .zero⟩, by simp [Block.initial], rfl⟩

end Laying

end RailRoute
