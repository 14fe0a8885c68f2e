import Mathlib
import RailRoute.Proofs.Arithmetic
import RailRoute.Proofs.Block.Admission
import RailRoute.Proofs.Block.CarryForward
import RailRoute.Proofs.Block.Bounds
import RailRoute.Proofs.Block.Integrity

/-!
# In which blocks things stand

Speed limits and sections are listed by the block that they stand in, in the order in which they
were placed. A block names one station only, so of the stations that stand in it the last one takes
the place of the others. Main statements: `placed_run`, in whatever order positions are gone to, and
`ordered_run`, that what is listed ascends if they do.
-/

namespace RailRoute

/-- Whether a place in an array is the last one that holds a value. -/
def IsLastAt {α : Type} (xs : Array α) (a : α) (i : Nat) : Prop :=
  xs[i]? = some a ∧ ∀ j, i < j → xs[j]? ≠ some a

theorem isLastAt_push {α : Type} (xs : Array α) (a b : α) (i : Nat) :
    IsLastAt (xs.push b) a i ↔ a = b ∧ i = xs.size ∨ a ≠ b ∧ IsLastAt xs a i := by
  have beyond {j : Nat} (hj : xs.size ≤ j) : xs[j]? ≠ some a := by
    simp [Array.getElem?_eq_none hj]
  by_cases hab : a = b
  · subst hab
    simp only [IsLastAt, Array.getElem?_push, ne_eq, not_true_eq_false, true_and, false_and, or_false]
    constructor
    · rintro ⟨hi, last⟩
      by_contra hne
      have := last xs.size
      split_ifs at hi
      have hlt := (Array.getElem?_eq_some_iff.1 hi).1
      simp [hlt] at this
    · rintro rfl
      refine ⟨if_pos rfl, fun j hj => ?_⟩
      rw [if_neg (by omega)]
      exact beyond hj.le
  · simp only [IsLastAt, Array.getElem?_push, hab, ne_eq, not_false_eq_true, true_and, false_and,
      false_or]
    have skip (j : Nat) : (if j = xs.size then some b else xs[j]?) = some a ↔ xs[j]? = some a := by
      split_ifs with hj
      · simp [hj, Ne.symm hab]
      · rfl
    simp only [skip]

variable {R : Type}

/-- The positions of the stations. -/
def Line.stationPositions (l : Line R) : Array R := l.stations.map (·.position)

/-- The positions of the sections. -/
def Line.sectionPositions (l : Line R) : Array R := l.sections.map (·.position)

namespace Action

/-- The positions of the stations that an action opens. -/
def stationPositions : Action R → Array R
  | .openStation x => #[x.position]
  | _ => #[]

/-- The positions of the sections that an action opens at a position. -/
def sectionPositions (position : R) : Action R → Array R
  | .openSection _ _ | .openSignal _ _ _ => #[position]
  | _ => #[]

variable [Scalar R]

theorem stationPositions_apply (a : Action R) (s : Laying R) :
    (a.apply s).line.stationPositions = s.line.stationPositions ++ a.stationPositions := by
  cases a
  case startRail rail offset =>
    simp only [apply, Laying.startRail]
    split_ifs <;> exact Array.append_empty.symm
  case openStation station =>
    simp [apply, Line.stationPositions, stationPositions, Laying.openStation, Laying.modifyBlock,
      Line.modifyBlock]
  case addStop station stop =>
    simp only [apply, Laying.addStop]
    split
    · exact Array.append_empty.symm
    · refine (Array.ext_getElem? fun i => ?_).trans Array.append_empty.symm
      by_cases hi : station = i <;>
        simp [Line.stationPositions, Laying.modifyBlock, Line.modifyBlock, Array.getElem?_modify, hi,
          Function.comp_def]
  all_goals exact Array.append_empty.symm

theorem sectionPositions_apply (a : Action R) (s : Laying R) :
    (a.apply s).line.sectionPositions =
      s.line.sectionPositions ++ a.sectionPositions s.position := by
  cases a
  case startRail rail offset =>
    simp only [apply, Laying.startRail]
    split_ifs <;> exact Array.append_empty.symm
  case openSection | openSignal =>
    simp [apply, Line.sectionPositions, sectionPositions, Laying.openSection, Laying.addSignal,
      Laying.modifyBlock, Line.modifyBlock]
  case addStop station stop =>
    simp only [apply, Laying.addStop]
    split <;> exact Array.append_empty.symm
  all_goals exact Array.append_empty.symm

end Action

namespace Issue

variable [Scalar R]

/-- The station that is opened by a command. -/
def station? (i : Issue R) : Option Nat :=
  match i.action with
  | .openStation _ => some i.laying.line.stations.size
  | _ => none

theorem edit_station (i : Issue R) (b : Block R) : (i.edit b).station = i.station?.or b.station := by
  obtain ⟨s, a⟩ := i
  cases a <;> rfl

end Issue

/-- What blocks list ascends in their order if it does within each block and from one block to
another. -/
theorem Line.pairwise_flatMap_iff {l : Line R} {α : Type} {part : Block R → List α}
    {rel : α → α → Prop}
    (across : ∀ (j k : Nat) (b c : Block R), j < k → l.blocks[j]? = some b →
      l.blocks[k]? = some c → ∀ x ∈ part b, ∀ y ∈ part c, rel x y) :
    (l.blocks.toList.flatMap part).Pairwise rel ↔ ∀ b ∈ l.blocks, (part b).Pairwise rel := by
  rw [List.pairwise_flatMap]
  simp only [Array.mem_toList_iff, and_iff_left_iff_imp]
  intro _
  refine List.pairwise_iff_getElem.2 fun j k hj hk hjk => across j k _ _ hjk ?_ ?_
  · exact Array.getElem?_eq_getElem (by simpa using hj)
  · exact Array.getElem?_eq_getElem (by simpa using hk)

/-- Whether what blocks list stands in them, and each names the last station that does. -/
structure Laying.Placed [Scalar R] (s : Laying R) : Prop where
  block : s.block < s.line.blocks.size
  here : s.line.blockIndex s.position = s.block
  limits : ∀ (k : Nat) (b : Block R), s.line.blocks[k]? = some b →
    ∀ x ∈ b.limits, s.line.blockIndex x.position = k
  sections : ∀ (k : Nat) (b : Block R), s.line.blocks[k]? = some b →
    ∀ i ∈ b.sections, (s.line.sectionPositions[i]?).map s.line.blockIndex = some k
  marks : ∀ b ∈ s.line.blocks, b.sections.toList.Pairwise (· < ·)
  stations : ∀ (k : Nat) (b : Block R), s.line.blocks[k]? = some b →
    ∀ i, b.station = some i ↔ IsLastAt (s.line.stationPositions.map s.line.blockIndex) k i
  reached : ∀ p ∈ s.line.stationPositions, s.line.blockIndex p < s.line.blocks.size

namespace Laying

variable [Scalar R] {t : Tables R} {s : Laying R}

/-- A block that a move adds lists nothing. -/
theorem bare_of_moveTo (hs : 0 < s.line.blocks.size) {position : R} {k : Nat}
    (hk : s.line.blocks.size ≤ k) {b : Block R}
    (hb : (s.moveTo position).line.blocks[k]? = some b) :
    b.limits = #[] ∧ b.sections = #[] ∧ b.station = none := by
  obtain ⟨last, -, next⟩ := Line.exists_nextBlock_eq hs
  refine Line.forall_appendBlocks
    (P := fun _ b => b.limits = #[] ∧ b.sections = #[] ∧ b.station = none)
    (fun _ _ _ => ⟨rfl, rfl, rfl⟩) _ ?_ hk hb
  rw [next]
  exact ⟨rfl, rfl, rfl⟩

theorem placed_moveTo (h : s.Placed) (position : R) : (s.moveTo position).Placed := by
  have hs : 0 < s.line.blocks.size := Nat.zero_lt_of_lt h.block
  have size := size_moveTo s position
  have old {k : Nat} {b : Block R} (hk : k < s.line.blocks.size)
      (hb : (s.moveTo position).line.blocks[k]? = some b) : s.line.blocks[k]? = some b := by
    rwa [getElem?_moveTo_of_lt hk] at hb
  exact
    { block := by
        rw [size, moveTo_block]
        omega
      here := rfl
      limits := fun k b hb x hx => by
        rcases Nat.lt_or_ge k s.line.blocks.size with hk | hk
        · exact h.limits k b (old hk hb) x hx
        · simp [(bare_of_moveTo hs hk hb).1] at hx
      sections := fun k b hb i hi => by
        rcases Nat.lt_or_ge k s.line.blocks.size with hk | hk
        · exact h.sections k b (old hk hb) i hi
        · simp [(bare_of_moveTo hs hk hb).2.1] at hi
      marks := forall_mem_moveTo (P := fun b => b.sections.toList.Pairwise (· < ·))
        (fun _ _ => List.Pairwise.nil) hs h.marks position
      stations := fun k b hb i => by
        rcases Nat.lt_or_ge k s.line.blocks.size with hk | hk
        · exact h.stations k b (old hk hb) i
        · rw [(bare_of_moveTo hs hk hb).2.2]
          refine iff_of_false (by simp) fun last => ?_
          -- A station that stands in the block would have added it.
          obtain ⟨p, hp, rfl⟩ := Array.mem_map.1 (Array.mem_of_getElem? last.1)
          exact absurd hk (not_le.2 (h.reached p hp))
      reached := fun p hp => (h.reached p hp).trans_le (by omega) }

/-! ## Actions -/

theorem limits_eq_nil_or {i : Issue R} (hi : i.action.Admitted t i.laying) :
    i.limits = [] ∨ ∃ x, i.limits = [x] ∧ x.position = i.laying.position := by
  obtain ⟨s, a⟩ := i
  cases a
  case addLimit limit => exact Or.inr ⟨limit, rfl, hi⟩
  all_goals exact Or.inl rfl

omit [Scalar R] in
theorem sections_eq_nil_or (i : Issue R) :
    i.sections = [] ∧ i.action.sectionPositions i.laying.position = #[] ∨
      i.sections = [i.laying.line.sections.size] ∧
        i.action.sectionPositions i.laying.position = #[i.laying.position] := by
  obtain ⟨s, a⟩ := i
  cases a
  case openSection | openSignal => exact Or.inr ⟨rfl, rfl⟩
  all_goals exact Or.inl ⟨rfl, rfl⟩

theorem station?_eq_none_or {i : Issue R} (hi : i.action.Admitted t i.laying) :
    i.station? = none ∧ i.action.stationPositions = #[] ∨
      i.station? = some i.laying.line.stations.size ∧
        i.action.stationPositions = #[i.laying.position] := by
  obtain ⟨s, a⟩ := i
  cases a
  case openStation x => exact Or.inr ⟨rfl, congrArg (#[·]) hi.1⟩
  all_goals exact Or.inl ⟨rfl, rfl⟩

/-- What blocks list is what they listed before an action, and in the current block what the action
places there. -/
theorem exists_listed_eq {α : Type} (part : Block R → Array α) (placed : Issue R → List α)
    (edit : ∀ (i : Issue R) b, part (i.edit b) = part b ++ (placed i).toArray) {a : Action R}
    {k : Nat} {b' : Block R} (hb' : (a.apply s).line.blocks[k]? = some b')
    (withoutRails : ∀ b : Block R, part b.withoutRails = part b := by exact fun _ => rfl) :
    ∃ b, s.line.blocks[k]? = some b ∧
      part b' = part b ++ if s.block = k then (placed ⟨s, a⟩).toArray else #[] := by
  obtain ⟨b, hb, same⟩ := Action.exists_of_getElem?_apply hb'
  refine ⟨b, hb, ?_⟩
  rw [← withoutRails b', same, withoutRails]
  split_ifs
  · exact edit ⟨s, a⟩ b
  · exact Array.append_empty.symm

theorem exists_limits_eq {a : Action R} {k : Nat} {b' : Block R}
    (hb' : (a.apply s).line.blocks[k]? = some b') :
    ∃ b, s.line.blocks[k]? = some b ∧ b'.limits = b.limits ++
      if s.block = k then (Issue.limits ⟨s, a⟩).toArray else #[] :=
  exists_listed_eq (·.limits) Issue.limits (fun i b => congrArg Block.limits (i.edit_eq b)) hb'

theorem exists_sections_eq {a : Action R} {k : Nat} {b' : Block R}
    (hb' : (a.apply s).line.blocks[k]? = some b') :
    ∃ b, s.line.blocks[k]? = some b ∧ b'.sections = b.sections ++
      if s.block = k then (Issue.sections ⟨s, a⟩).toArray else #[] :=
  exists_listed_eq (·.sections) Issue.sections (fun i b => congrArg Block.sections (i.edit_eq b)) hb'

namespace Placed

variable (h : s.Placed) {a : Action R} (ha : a.Admitted t s)

include h ha

theorem limits_apply {k : Nat} {b' : Block R} (hb' : (a.apply s).line.blocks[k]? = some b') :
    ∀ x ∈ b'.limits, s.line.blockIndex x.position = k := by
  intro x hx
  obtain ⟨b, hb, same⟩ := exists_limits_eq hb'
  rw [same, Array.mem_append] at hx
  rcases hx with hx | hx
  · exact h.limits k b hb x hx
  · split_ifs at hx with hk
    · obtain none | ⟨y, one, hy⟩ := limits_eq_nil_or (i := ⟨s, a⟩) ha
      · simp [none] at hx
      · obtain rfl : x = y := by simpa [one] using hx
        exact (congrArg s.line.blockIndex hy).trans (h.here.trans hk)
    · simp at hx

omit ha in
theorem sections_apply {k : Nat} {b' : Block R} (hb' : (a.apply s).line.blocks[k]? = some b') :
    ∀ i ∈ b'.sections,
      ((a.apply s).line.sectionPositions[i]?).map s.line.blockIndex = some k := by
  intro i hi
  obtain ⟨b, hb, same⟩ := exists_sections_eq hb'
  rw [same, Array.mem_append] at hi
  rw [a.sectionPositions_apply s]
  rcases hi with hi | hi
  · have before := h.sections k b hb i hi
    obtain ⟨p, hp, -⟩ := Option.map_eq_some_iff.1 before
    rw [Array.getElem?_append_left (Array.getElem?_eq_some_iff.1 hp).1, before]
  · split_ifs at hi with hk
    · obtain ⟨none, -⟩ | ⟨one, added⟩ := sections_eq_nil_or ⟨s, a⟩
      · simp [none] at hi
      · obtain rfl : i = s.line.sections.size := by simpa [one] using hi
        have size : s.line.sectionPositions.size = s.line.sections.size := Array.size_map
        change a.sectionPositions s.position = _ at added
        rw [Array.getElem?_append_right size.le, size, Nat.sub_self, added]
        exact congrArg some (h.here.trans hk)
    · simp at hi

omit ha in
theorem marks_apply : ∀ b' ∈ (a.apply s).line.blocks, b'.sections.toList.Pairwise (· < ·) := by
  intro b' hb'
  obtain ⟨k, hk⟩ := Array.mem_iff_getElem?.1 hb'
  obtain ⟨b, hb, same⟩ := exists_sections_eq hk
  have before := h.marks b (Array.mem_of_getElem? hb)
  have size : s.line.sectionPositions.size = s.line.sections.size := Array.size_map
  have below : ∀ i ∈ b.sections, i < s.line.sections.size := by
    intro i hi
    obtain ⟨p, hp, -⟩ := Option.map_eq_some_iff.1 (h.sections k b hb i hi)
    exact size ▸ (Array.getElem?_eq_some_iff.1 hp).1
  rw [same]
  split_ifs
  · obtain ⟨none, -⟩ | ⟨one, -⟩ := sections_eq_nil_or ⟨s, a⟩
    · simpa [none] using before
    · rw [one, Array.toList_append]
      refine List.pairwise_append.2 ⟨before, List.pairwise_singleton .., fun i hi j hj => ?_⟩
      obtain rfl := List.mem_singleton.1 hj
      exact below i (Array.mem_toList_iff.1 hi)
  · simpa using before

theorem stations_apply {k : Nat} {b' : Block R} (hb' : (a.apply s).line.blocks[k]? = some b')
    (i : Nat) : b'.station = some i ↔
      IsLastAt ((a.apply s).line.stationPositions.map s.line.blockIndex) k i := by
  obtain ⟨b, hb, same⟩ := Action.exists_of_getElem?_apply hb'
  have station : b'.station = (if s.block = k then Issue.edit ⟨s, a⟩ b else b).station := by
    change b'.withoutRails.station = _
    rw [same]
    rfl
  have size : (s.line.stationPositions.map s.line.blockIndex).size = s.line.stations.size := by
    simp [Line.stationPositions]
  rw [a.stationPositions_apply s, station]
  obtain ⟨none, added⟩ | ⟨one, added⟩ := station?_eq_none_or (i := ⟨s, a⟩) ha
  · change a.stationPositions = _ at added
    rw [added, Array.append_empty, ← h.stations k b hb i]
    split_ifs
    · rw [Issue.edit_station, none, Option.none_or]
    · rfl
  · change a.stationPositions = _ at added
    rw [added, Array.append_singleton, Array.map_push, isLastAt_push, size, h.here]
    by_cases hk : s.block = k
    · rw [if_pos hk, Issue.edit_station, one, Option.some_or]
      simp [hk, eq_comm]
    · simp [hk, Ne.symm hk, h.stations k b hb i]

theorem reached_apply : ∀ p ∈ (a.apply s).line.stationPositions,
    s.line.blockIndex p < s.line.blocks.size := by
  intro p hp
  rw [a.stationPositions_apply s, Array.mem_append] at hp
  rcases hp with hp | hp
  · exact h.reached p hp
  · obtain ⟨-, added⟩ | ⟨-, added⟩ := station?_eq_none_or (i := ⟨s, a⟩) ha
    · change a.stationPositions = _ at added
      simp [added] at hp
    · change a.stationPositions = _ at added
      obtain rfl : p = s.position := by simpa [added] using hp
      exact h.here.trans_lt h.block

end Placed

theorem placed_apply (h : s.Placed) {a : Action R} (ha : a.Admitted t s) : (a.apply s).Placed := by
  have index := apply_blockIndex a s
  constructor
  case block =>
    rw [a.apply_block, a.size_apply]
    exact h.block
  case here =>
    rw [index, apply_position, a.apply_block]
    exact h.here
  case limits => exact fun k b' hb' => by simpa only [index] using h.limits_apply ha hb'
  case sections => exact fun k b' hb' => by simpa only [index] using h.sections_apply hb'
  case marks => exact h.marks_apply
  case stations => exact fun k b' hb' => by simpa only [index] using h.stations_apply ha hb'
  case reached => simpa only [index, a.size_apply] using h.reached_apply ha

/-- In whatever order positions are gone to, what blocks list stands in them, and each block names
the last station that does. -/
theorem placed_run {ds : List (Deed R)} (h : s.Placed)
    (admitted : ∀ i ∈ s.issues ds, i.action.Admitted t i.laying) : (s.run ds).Placed :=
  run_induction h (fun _ position _ hs => placed_moveTo hs position)
    fun i hi hs => placed_apply hs (admitted i hi)

end Laying

/-! ## Exact positions -/

section Exact

variable {R : Type} [ExactScalar R]

theorem Line.blockIndex_zero (l : Line R) : l.blockIndex 0 = 0 := by
  have tolerance : (0 : R) ≤ 1 / 1000 := by positivity
  have below := ExactScalar.floorNat_le (1 / 1000 : R) tolerance
  have low : (Scalar.floorNat (1 / 1000 : R) : R) < 1 := below.trans_lt (by norm_num)
  have first : Scalar.floorNat (1 / 1000 : R) < 1 := by exact_mod_cast low
  have start : l.blockIndex 0 = Scalar.floorNat (1 / 1000 : R) := by
    rw [blockIndex, zero_div, zero_add, ExactScalar.fixed_eq]
    norm_num
  omega

theorem le_of_pairwise_tail {xs : Array R} (h : xs.toList.tail.Pairwise (· ≤ ·)) {i j : Nat}
    (hi : 1 ≤ i) (hij : i < j) {p q : R} (hp : xs[i]? = some p) (hq : xs[j]? = some q) : p ≤ q := by
  obtain ⟨i, rfl⟩ := Nat.exists_eq_add_of_le' hi
  obtain ⟨j, rfl⟩ := Nat.exists_eq_add_of_le' (hi.trans hij.le)
  rw [← Array.getElem?_toList, ← List.getElem?_tail] at hp hq
  obtain ⟨hi, rfl⟩ := List.getElem?_eq_some_iff.1 hp
  obtain ⟨hj, rfl⟩ := List.getElem?_eq_some_iff.1 hq
  exact List.pairwise_iff_getElem.1 h i j hi hj (by omega)

/-- What lies in an earlier block lies ahead. -/
theorem Line.lt_of_blockIndex_lt {l : Line R} {p q : R} (hq : 0 ≤ q)
    (h : l.blockIndex p < l.blockIndex q) : p < q := by
  by_contra hle
  exact absurd (l.blockIndex_le_blockIndex hq (not_lt.1 hle)) (not_le.2 h)

namespace Laying

section Placed

variable {s : Laying R} (h : s.Placed)

include h

/-- The limits of a line ascend in the order of the blocks if they do within each block. -/
theorem Placed.pairwise_limits_iff (stands : s.line.Stands (0 ≤ ·)) :
    (s.line.blocks.toList.flatMap (·.limits.toList)).Pairwise
        (fun x y => x.position ≤ y.position) ↔
      ∀ b ∈ s.line.blocks, b.limits.toList.Pairwise fun x y => x.position ≤ y.position := by
  refine Line.pairwise_flatMap_iff fun j k b c hjk hb hc x hx y hy => ?_
  have hx := h.limits j b hb x (Array.mem_toList_iff.1 hx)
  have hy' := h.limits k c hc y (Array.mem_toList_iff.1 hy)
  have nonneg := stands.limits c (Array.mem_of_getElem? hc) y (Array.mem_toList_iff.1 hy)
  exact (Line.lt_of_blockIndex_lt (l := s.line) nonneg (by omega)).le

/-- If the sections ascend in the order in which they were opened, the blocks list them in that
order. -/
theorem Placed.sectionMarks_eq (marks : Enumerates s.line.sectionMarks fun i =>
      1 ≤ i ∧ i < s.line.sections.size) (nonneg : ∀ p ∈ s.line.sectionPositions, 0 ≤ p)
    (asc : s.line.sectionPositions.toList.tail.Pairwise (· ≤ ·)) :
    s.line.sectionMarks = List.range' 1 (s.line.sections.size - 1) := by
  have ascends : s.line.sectionMarks.Pairwise (· < ·) := by
    refine (Line.pairwise_flatMap_iff fun j k b c hjk hb hc i hi i' hi' => ?_).2 h.marks
    have listed {m : Nat} {d : Block R} (hd : s.line.blocks[m]? = some d) {n : Nat}
        (hn : n ∈ d.sections.toList) :
        1 ≤ n ∧ ∃ p, s.line.sectionPositions[n]? = some p ∧ s.line.blockIndex p = m := by
      have mem : n ∈ s.line.sectionMarks :=
        List.mem_flatMap.2 ⟨d, Array.mem_toList_iff.2 (Array.mem_of_getElem? hd), hn⟩
      exact ⟨((marks.mem_iff n).1 mem).1,
        Option.map_eq_some_iff.1 (h.sections m d hd n (Array.mem_toList_iff.1 hn))⟩
    obtain ⟨hi, p, hp, rfl⟩ := listed hb hi
    obtain ⟨hi', q, hq, rfl⟩ := listed hc hi'
    by_contra hle
    have before : q ≤ p := by
      rcases (not_lt.1 hle).eq_or_lt with rfl | hlt
      · exact (Option.some.inj (hq.symm.trans hp)).le
      · exact le_of_pairwise_tail asc hi' hlt hq hp
    have := s.line.blockIndex_le_blockIndex (nonneg q (Array.mem_of_getElem? hq)) before
    omega
  refine List.Perm.eq_of_pairwise (fun _ _ _ _ hab hba => absurd hab hba.asymm) ascends
    List.pairwise_lt_range' ?_
  refine (List.perm_ext_iff_of_nodup marks.nodup List.nodup_range').2 fun i => ?_
  rw [marks.mem_iff, List.mem_range'_1]
  omega

end Placed

theorem placed_initial (interval height : R) : (initial interval height).Placed where
  block := Nat.one_pos
  here := Line.blockIndex_zero _
  limits k b hb x hx := by
    obtain rfl := mem_blocks_initial.1 (Array.mem_of_getElem? hb)
    simp [Block.initial] at hx
  sections k b hb i hi := by
    obtain rfl := mem_blocks_initial.1 (Array.mem_of_getElem? hb)
    simp [Block.initial] at hi
  marks b hb := by
    obtain rfl := mem_blocks_initial.1 hb
    exact List.Pairwise.nil
  stations k b hb i := by
    obtain rfl := mem_blocks_initial.1 (Array.mem_of_getElem? hb)
    refine iff_of_false (by simp [Block.initial]) fun last => ?_
    simpa [Line.stationPositions, initial, Line.initial] using last.1
  reached p hp := by simp [Line.stationPositions, initial, Line.initial] at hp

/-! ## In ascending order -/

/-- Whether positions ascend up to one behind them. -/
def LeadsUpTo (xs : List R) (p : R) : Prop := (xs ++ [p]).Pairwise (· ≤ ·)

theorem LeadsUpTo.mono {xs : List R} {p q : R} (h : LeadsUpTo xs p) (hpq : p ≤ q) :
    LeadsUpTo xs q := by
  obtain ⟨ascends, -, below⟩ := List.pairwise_append.1 h
  refine List.pairwise_append.2 ⟨ascends, List.pairwise_singleton .., fun x hx y hy => ?_⟩
  rw [List.mem_singleton.1 hy]
  exact (below x hx p (List.mem_singleton_self p)).trans hpq

theorem LeadsUpTo.snoc {xs : List R} {p : R} (h : LeadsUpTo xs p) : LeadsUpTo (xs ++ [p]) p := by
  refine List.pairwise_append.2 ⟨h, List.pairwise_singleton .., fun x hx y hy => ?_⟩
  rw [List.mem_singleton.1 hy]
  rcases List.mem_append.1 hx with hx | hx
  · exact (List.pairwise_append.1 h).2.2 x hx p (List.mem_singleton_self p)
  · exact (List.mem_singleton.1 hx).le

/-- Whether what is listed ascends up to the current position. -/
structure Ordered (s : Laying R) : Prop where
  limits : ∀ b ∈ s.line.blocks, LeadsUpTo (b.limits.toList.map (·.position)) s.position
  sections : LeadsUpTo s.line.sectionPositions.toList s.position

variable {t : Tables R} {s : Laying R}

theorem ordered_moveTo (hs : 0 < s.line.blocks.size) (h : s.Ordered) {position : R}
    (hp : s.position ≤ position) : (s.moveTo position).Ordered where
  limits := forall_mem_moveTo (P := fun b => LeadsUpTo (b.limits.toList.map (·.position)) position)
    (fun _ _ => List.pairwise_singleton ..) hs (fun b hb => (h.limits b hb).mono hp) position
  sections := LeadsUpTo.mono h.sections hp

theorem ordered_apply (h : s.Ordered) {a : Action R} (ha : a.Admitted t s) :
    (a.apply s).Ordered where
  limits b' hb' := by
    obtain ⟨k, hk⟩ := Array.mem_iff_getElem?.1 hb'
    obtain ⟨b, hb, same⟩ := exists_limits_eq hk
    have before := h.limits b (Array.mem_of_getElem? hb)
    rw [apply_position, same]
    split_ifs
    · obtain none | ⟨x, one, hx⟩ := limits_eq_nil_or (i := ⟨s, a⟩) ha
      · simpa [none] using before
      · change x.position = s.position at hx
        simpa [one, hx] using before.snoc
    · simpa using before
  sections := by
    rw [a.sectionPositions_apply, apply_position]
    obtain ⟨-, added⟩ | ⟨-, added⟩ := sections_eq_nil_or ⟨s, a⟩
    · change a.sectionPositions s.position = _ at added
      simpa [added] using h.sections
    · change a.sectionPositions s.position = _ at added
      simpa [added] using h.sections.snoc

/-- As long as positions do not go back, the limits of each block and the sections ascend. -/
theorem ordered_run {ds : List (Deed R)} (hs : 0 < s.line.blocks.size) (h : s.Ordered)
    (asc : (s.position :: positions ds).Pairwise (· ≤ ·))
    (admitted : ∀ i ∈ s.issues ds, i.action.Admitted t i.laying) : (s.run ds).Ordered := by
  induction ds generalizing s with
  | nil => exact h
  | cons d ds ih =>
    cases d with
    | go position =>
      obtain ⟨behind, asc⟩ := List.pairwise_cons.1 asc
      have moved := ordered_moveTo hs h (behind position (List.mem_cons_self ..))
      exact ih (size_pos_carryOut hs (.go position)) moved asc admitted
    | act a =>
      obtain ⟨ha, admitted⟩ := List.forall_mem_cons.1 admitted
      refine ih (size_pos_carryOut hs (.act a)) (ordered_apply h ha) ?_ admitted
      change ((a.apply s).position :: positions ds).Pairwise (· ≤ ·)
      rwa [apply_position]

theorem ordered_initial (interval height : R) : (initial interval height).Ordered where
  limits b hb := by
    obtain rfl := mem_blocks_initial.1 hb
    exact List.pairwise_singleton ..
  sections := by simp [LeadsUpTo, Line.sectionPositions, initial, Line.initial, Line.firstSection]

end Laying

end Exact

end RailRoute
