import Mathlib
import RailRoute.Proofs.Block.Integrity
import RailRoute.Proofs.Block.Placement
import RailRoute.Proofs.Track.Distribution

/-!
# Events of one kind

Each event of a line comes from one part of its blocks, or from a marker. So what becomes of one
part can be followed by itself: first in the order of the blocks, where events of speed limits and
of sections are chained to the ones before, and then sorted by position, which breaks the chain
unless the order of the blocks is that of the positions already. Main statements:
`chained_limits`, `sectionChanges_iff` and `positionsOf_assemble`.
-/

namespace RailRoute

variable {R : Type}

/-- What only one entry of an array has is all that there is. -/
theorem flatMap_eq_of_unique {α β : Type} {xs : Array α} {g : α → List β} {k : Nat} {b : α}
    (hb : xs[k]? = some b) (others : ∀ j c, xs[j]? = some c → j ≠ k → g c = []) :
    xs.toList.flatMap g = g b := by
  obtain ⟨xs⟩ := xs
  simp only [List.getElem?_toArray] at hb others
  obtain ⟨hk, rfl⟩ := List.getElem?_eq_some_iff.1 hb
  have parts : xs = xs.take k ++ xs[k] :: xs.drop (k + 1) := by simp
  have before : (xs.take k).flatMap g = [] := List.flatMap_eq_nil_iff.2 fun c hc => by
    obtain ⟨j, hj⟩ := List.mem_iff_getElem?.1 hc
    rw [List.getElem?_take] at hj
    split_ifs at hj with hlt
    exact others j c hj hlt.ne
  have behind : (xs.drop (k + 1)).flatMap g = [] := List.flatMap_eq_nil_iff.2 fun c hc => by
    obtain ⟨j, hj⟩ := List.mem_iff_getElem?.1 hc
    rw [List.getElem?_drop] at hj
    exact others _ c hj (by omega)
  calc xs.flatMap g = (xs.take k ++ xs[k] :: xs.drop (k + 1)).flatMap g := by rw [← parts]
    _ = g xs[k] := by
      rw [List.flatMap_append, List.flatMap_cons, before, behind, List.nil_append, List.append_nil]

/-! ## Parts of events -/

/-- What an event comes from. -/
inductive EventSource where
  | rails
  | station
  | section
  | limit
  | sound
  | transponder
  | marker
  | trackEnd
  deriving DecidableEq

namespace EventKind

/-- What an event comes from. -/
def source : EventKind R → EventSource
  | .railSoundsChange _ _ _ _ => .rails
  | .stationStart _ | .stationEnd _ | .stationPassAlarm _ => .station
  | .sectionChange _ _ => .section
  | .limit _ _ => .limit
  | .sound _ _ _ _ _ _ => .sound
  | .transponder _ _ _ => .transponder
  | .marker _ _ => .marker
  | .trackEnd => .trackEnd

/-- The speeds before and behind a limit. -/
def limit? : EventKind R → Option (Speed R × Speed R)
  | .limit previous next => some (previous, next)
  | _ => none

/-- The sections before and behind the beginning of a section. -/
def sectionChange? : EventKind R → Option (Option Nat × Nat)
  | .sectionChange previous next => some (previous, next)
  | _ => none

/-- The station that an event belongs to. -/
def station? : EventKind R → Option Nat
  | .stationStart i | .stationEnd i | .stationPassAlarm i => some i
  | _ => none

end EventKind

/-- The positions of the events of a kind. -/
def Track.positionsOf [Scalar R] [DecidableEq R] (t : Track R) (kind : EventKind R) : List R :=
  (t.events.filter fun x => x.2.kind = kind).map (·.1)

/-- What is found in events, with their positions. -/
def select {β : Type} (f : EventKind R → Option β) (xs : List (R × EventKind R)) : List (R × β) :=
  xs.filterMap fun x => (f x.2).map (x.1, ·)

section Select

variable {β : Type} {f : EventKind R → Option β} {xs ys : List (R × EventKind R)}

@[simp] theorem select_nil : select f [] = [] := rfl

@[simp] theorem select_append : select f (xs ++ ys) = select f xs ++ select f ys :=
  List.filterMap_append

/-- Nothing is missed if only the events are looked at that can have it. -/
theorem select_filter {src : EventSource} (hf : ∀ k, f k ≠ none → k.source = src) :
    select f (xs.filter fun x => x.2.source = src) = select f xs := by
  rw [select, List.filterMap_filter]
  refine List.filterMap_congr fun x _ => ?_
  by_cases hx : f x.2 = none
  · simp [hx]
  · simp [hf x.2 hx]

theorem map_snd_select : (select f xs).map (·.2) = xs.filterMap fun x => f x.2 := by
  rw [select, List.map_filterMap]
  simp

end Select

/-- Whether events all come from one thing. -/
def AllFrom (src : EventSource) (xs : List (R × EventKind R)) : Prop := ∀ x ∈ xs, x.2.source = src

theorem AllFrom.filter_eq {xs : List (R × EventKind R)} {src : EventSource}
    (h : AllFrom src xs) (src' : EventSource) :
    xs.filter (fun x => x.2.source = src') = if src = src' then xs else [] := by
  split_ifs with hsrc
  · exact List.filter_eq_self.2 fun x hx => decide_eq_true ((h x hx).trans hsrc)
  · exact List.filter_eq_nil_iff.2 fun x hx => by simp [h x hx, hsrc]

namespace Assembly

variable [Scalar R] (l : Line R) (train : TrainInfo R)

/-! ## The order of the blocks -/

section Sources

omit [Scalar R]

theorem allFrom_railEvents (start : R) (before after : Nat) :
    AllFrom .rails (railEvents train start before after) := by
  unfold AllFrom railEvents
  split_ifs <;> simp [EventKind.source]

theorem allFrom_sectionEvents (marks : List Nat) :
    AllFrom .section (marks.filterMap (sectionEvent? l)) := by
  intro x hx
  obtain ⟨i, -, hi⟩ := List.mem_filterMap.1 hx
  obtain ⟨s, -, rfl⟩ := Option.map_eq_some_iff.1 hi
  rfl

theorem allFrom_limitEvents (before : Speed R) (limits : List (LimitSign R)) :
    AllFrom .limit (limitEvents before limits) := by
  induction limits generalizing before with
  | nil => simp [AllFrom, limitEvents]
  | cons limit limits ih => exact List.forall_mem_cons.2 ⟨rfl, ih _⟩

theorem allFrom_transponderEvents (transponders : List (Transponder R)) :
    AllFrom .transponder (transponders.map transponderEvent) := List.forall_mem_map.2 fun _ _ => rfl

theorem allFrom_markerEvents (markers : List (Marker R)) :
    AllFrom .marker (markerEvents markers) := by
  intro x hx
  obtain ⟨m, -, hx⟩ := List.mem_flatMap.1 hx
  simp only [List.mem_cons, List.not_mem_nil, or_false] at hx
  rcases hx with rfl | rfl <;> rfl

end Sources

theorem allFrom_blockStationEvents (b : Block R) : AllFrom .station (blockStationEvents l b) := by
  unfold AllFrom blockStationEvents
  split
  · simp
  · split
    · simp
    · rename_i st _
      unfold stationEvents
      cases st.passAlarm <;> simp [EventKind.source]

theorem allFrom_soundEvents (sounds : List (SoundPlacement R)) :
    AllFrom .sound (sounds.map soundEvent) := by
  refine List.forall_mem_map.2 fun x _ => ?_
  unfold soundEvent
  cases x.kind <;> rfl

/-- The events of a block that come from one part of it. -/
theorem filter_blockEvents (start : R) (c : Carried R) (b : Block R) (src : EventSource) :
    (blockEvents l train start c b).filter (fun x => x.2.source = src) =
      match src with
      | .rails => railEvents train start c.railType (mainRailType b)
      | .station => blockStationEvents l b
      | .section => b.sections.toList.filterMap (sectionEvent? l)
      | .limit => limitEvents c.speed b.limits.toList
      | .sound => b.sounds.toList.map soundEvent
      | .transponder => b.transponders.toList.map transponderEvent
      | .marker | .trackEnd => [] := by
  rw [blockEvents]
  simp only [List.filter_append, (allFrom_railEvents _ _ _ _).filter_eq,
    (allFrom_blockStationEvents _ _).filter_eq, (allFrom_sectionEvents _ _).filter_eq,
    (allFrom_limitEvents _ _).filter_eq, (allFrom_soundEvents _).filter_eq,
    (allFrom_transponderEvents _).filter_eq]
  cases src <;> simp

omit [Scalar R] in
theorem limitEvents_append (before : Speed R) (xs : Array (LimitSign R)) (ys : List (LimitSign R)) :
    limitEvents before (xs.toList ++ ys) =
      limitEvents before xs.toList ++ limitEvents (speedAfter before xs) ys := by
  obtain ⟨xs⟩ := xs
  induction xs generalizing before with
  | nil => rfl
  | cons x xs ih =>
    have after : speedAfter before ⟨x :: xs⟩ = speedAfter x.speed ⟨xs⟩ := by
      simp only [speedAfter, List.back?_toArray, List.getLast?_cons]
      cases xs.getLast? <;> rfl
    rw [after]
    exact congrArg _ (ih x.speed)

theorem filter_station_eventsFrom (i : Nat) (c : Carried R) (bs : List (Block R)) :
    (eventsFrom l train i c bs).filter (fun x => x.2.source = .station) =
      bs.flatMap (blockStationEvents l) := by
  induction bs generalizing i c with
  | nil => rfl
  | cons b bs ih => rw [eventsFrom, List.filter_append, filter_blockEvents, ih, List.flatMap_cons]

theorem filter_section_eventsFrom (i : Nat) (c : Carried R) (bs : List (Block R)) :
    (eventsFrom l train i c bs).filter (fun x => x.2.source = .section) =
      (bs.flatMap (·.sections.toList)).filterMap (sectionEvent? l) := by
  induction bs generalizing i c with
  | nil => rfl
  | cons b bs ih =>
    rw [eventsFrom, List.filter_append, filter_blockEvents, ih, List.flatMap_cons,
      List.filterMap_append]

theorem filter_limit_eventsFrom (i : Nat) (c : Carried R) (bs : List (Block R)) :
    (eventsFrom l train i c bs).filter (fun x => x.2.source = .limit) =
      limitEvents c.speed (bs.flatMap (·.limits.toList)) := by
  induction bs generalizing i c with
  | nil => rfl
  | cons b bs ih =>
    rw [eventsFrom, List.filter_append, filter_blockEvents, ih, List.flatMap_cons,
      limitEvents_append]

section Collect

variable (src : EventSource) (hsrc : src ≠ .marker)

include hsrc in
theorem filter_collectEvents : (collectEvents l train).filter (fun x => x.2.source = src) =
    (eventsFrom l train 0 (firstCarried l) l.blocks.toList).filter fun x => x.2.source = src := by
  rw [collectEvents, List.filter_append, (allFrom_markerEvents _).filter_eq, if_neg hsrc.symm,
    List.append_nil]

/-- The events of stations, in the order of the blocks. -/
theorem filter_station_collectEvents :
    (collectEvents l train).filter (fun x => x.2.source = .station) =
      l.blocks.toList.flatMap (blockStationEvents l) :=
  (filter_collectEvents l train _ (by decide)).trans (filter_station_eventsFrom ..)

/-- The events of sections, in the order of the blocks. -/
theorem filter_section_collectEvents :
    (collectEvents l train).filter (fun x => x.2.source = .section) =
      l.sectionMarks.filterMap (sectionEvent? l) :=
  (filter_collectEvents l train _ (by decide)).trans (filter_section_eventsFrom ..)

/-- The events of speed limits, in the order of the blocks. -/
theorem filter_limit_collectEvents :
    (collectEvents l train).filter (fun x => x.2.source = .limit) =
      limitEvents .unlimited (l.blocks.toList.flatMap (·.limits.toList)) :=
  (filter_collectEvents l train _ (by decide)).trans (filter_limit_eventsFrom ..)

end Collect

end Assembly

/-! ## Chains -/

/-- Whether each pair begins with what the one before it ends with, the first one with a given
thing. -/
def Chained {α : Type} : α → List (α × α) → Prop
  | _, [] => True
  | a, x :: xs => x.1 = a ∧ Chained x.2 xs

namespace Chained

variable {α β : Type} {a : α}

/-- Every pair of a chain begins with what an earlier one ends with. -/
theorem fst_mem {xs : List (α × α)} (h : Chained a xs) {x : α × α} (hx : x ∈ xs) :
    x.1 ∈ a :: xs.map (·.2) := by
  induction xs generalizing a with
  | nil => cases hx
  | cons y ys ih =>
    rcases List.mem_cons.1 hx with rfl | hx
    · exact List.mem_cons.2 (Or.inl h.1)
    · exact List.mem_cons_of_mem _ (ih h.2 hx)

/-- There is one way only to chain pairs that end differently. -/
theorem eq_of_perm {xs ys : List (β × α × α)} (perm : xs.Perm ys)
    (hx : Chained a (xs.map (·.2))) (hy : Chained a (ys.map (·.2)))
    (ends : (a :: ys.map (·.2.2)).Nodup) : xs = ys := by
  induction ys generalizing a xs with
  | nil => exact perm.eq_nil
  | cons y ys ih =>
    cases xs with
    | nil => exact (List.cons_ne_nil y ys perm.nil_eq.symm).elim
    | cons x xs =>
      obtain ⟨new, ends⟩ := List.nodup_cons.1 ends
      -- A later pair cannot begin with what the first one begins with, as none ends so.
      have first : x = y := by
        rcases List.mem_cons.1 (perm.mem_iff.1 (List.mem_cons_self ..)) with h | h
        · exact h
        · have := hy.2.fst_mem (List.mem_map_of_mem h)
          rw [List.map_map] at this
          exact absurd (hx.1 ▸ this) new
      subst first
      rw [ih perm.cons_inv hx.2 hy.2 ends]

end Chained

namespace Assembly

theorem chained_limitEvents (before : Speed R) (limits : List (LimitSign R)) :
    Chained before ((select EventKind.limit? (limitEvents before limits)).map (·.2)) := by
  induction limits generalizing before with
  | nil => trivial
  | cons limit limits ih => exact ⟨rfl, ih _⟩

theorem map_fst_select_limitEvents (before : Speed R) (limits : List (LimitSign R)) :
    (select EventKind.limit? (limitEvents before limits)).map (·.1) =
      limits.map (·.position) := by
  induction limits generalizing before with
  | nil => rfl
  | cons limit limits ih => exact congrArg _ (ih _)

theorem map_next_select_limitEvents (before : Speed R) (limits : List (LimitSign R)) :
    (select EventKind.limit? (limitEvents before limits)).map (·.2.2) = limits.map (·.speed) := by
  induction limits generalizing before with
  | nil => rfl
  | cons limit limits ih => exact congrArg _ (ih _)

/-- The beginning of a section is found at its position. -/
theorem getElem?_of_mem_select_sectionEvents {l : Line R} {marks : List Nat}
    {x : R × Option Nat × Nat}
    (hx : x ∈ select EventKind.sectionChange? (marks.filterMap (sectionEvent? l))) :
    l.sectionPositions[x.2.2]? = some x.1 := by
  obtain ⟨y, hy, hyx⟩ := List.mem_filterMap.1 hx
  obtain ⟨i, -, hi⟩ := List.mem_filterMap.1 hy
  obtain ⟨s, hs, rfl⟩ := Option.map_eq_some_iff.1 hi
  obtain rfl := Option.some.inj hyx
  simp [Line.sectionPositions, hs]

/-- The beginnings of all sections but the first, if they are listed in the order of their
numbers. -/
theorem select_sectionEvents_range' (l : Line R) :
    select EventKind.sectionChange?
        ((List.range' 1 (l.sections.size - 1)).filterMap (sectionEvent? l)) =
      (l.sections.toList.tail.zipIdx 1).map fun y => (y.1.position, some (y.2 - 1), y.2) := by
  have numbers : List.range' 1 (l.sections.size - 1) =
      (l.sections.toList.tail.zipIdx 1).map (·.2) := by
    simp [List.zipIdx_map_snd]
  rw [numbers, List.filterMap_map, select, List.filterMap_filterMap, ← List.filterMap_eq_map]
  refine List.filterMap_congr fun y hy => ?_
  obtain ⟨hle, hy⟩ := List.mem_zipIdx_iff_le_and_getElem?_sub.1 hy
  have found : l.sections[y.2]? = some y.1 := by
    rw [List.getElem?_tail, Nat.sub_add_cancel hle] at hy
    simpa using hy
  simp [sectionEvent?, found, EventKind.sectionChange?, show 0 < y.2 by omega]

/-! ## The order of the positions -/

section Exact

variable {R : Type} [ExactScalar R] (l : Line R) (train : TrainInfo R)

theorem perm_select_sortedEvents {β : Type} (f : EventKind R → Option β) :
    (select f (sortedEvents l train)).Perm (select f (collectEvents l train)) :=
  (stablySorted_sortedEvents l train).perm.filterMap _

theorem pairwise_select_sortedEvents {β : Type} (f : EventKind R → Option β) :
    ((select f (sortedEvents l train)).map (·.1)).Pairwise (· ≤ ·) := by
  refine List.pairwise_map.2 (List.pairwise_filterMap.2 ?_)
  refine (stablySorted_sortedEvents l train).sorted.imp fun hab x hx y hy => ?_
  obtain ⟨_, -, rfl⟩ := Option.map_eq_some_iff.1 hx
  obtain ⟨_, -, rfl⟩ := Option.map_eq_some_iff.1 hy
  exact of_decide_eq_true hab

variable {l train}

/-- What is found in ascending order in the first place stays as it is. -/
theorem select_sortedEvents_of_pairwise {β : Type} {f : EventKind R → Option β}
    (h : ((select f (collectEvents l train)).map (·.1)).Pairwise (· ≤ ·)) :
    select f (sortedEvents l train) = select f (collectEvents l train) := by
  let found (x : R × EventKind R) : Bool := (f x.2).isSome
  have only (xs : List (R × EventKind R)) : select f (xs.filter found) = select f xs := by
    rw [select, List.filterMap_filter]
    refine List.filterMap_congr fun x _ => ?_
    cases hx : f x.2 <;> simp [found, hx]
  have ascends : ((collectEvents l train).filter found).Pairwise fun a b => decide (a.1 ≤ b.1) := by
    refine List.pairwise_filter.2 ?_
    refine (List.pairwise_filterMap.1 (List.pairwise_map.1 h)).imp fun {a b} hab ha hb => ?_
    obtain ⟨x, hx⟩ := Option.isSome_iff_exists.1 ha
    obtain ⟨y, hy⟩ := Option.isSome_iff_exists.1 hb
    exact decide_eq_true (hab (a.1, x) (by rw [hx, Option.map_some]) (b.1, y)
      (by rw [hy, Option.map_some]))
  rw [sortedEvents_eq, ← only, Source.filter_mergeSort_of_pairwise position_le_trans
    position_le_total ascends, only]

theorem select_limit_collectEvents (l : Line R) (train : TrainInfo R) :
    select EventKind.limit? (collectEvents l train) =
      select EventKind.limit?
        (limitEvents .unlimited (l.blocks.toList.flatMap (·.limits.toList))) := by
  rw [← filter_limit_collectEvents l train, select_filter]
  intro k hk
  cases k <;> first | rfl | exact (hk rfl).elim

theorem select_section_collectEvents (l : Line R) (train : TrainInfo R) :
    select EventKind.sectionChange? (collectEvents l train) =
      select EventKind.sectionChange? (l.sectionMarks.filterMap (sectionEvent? l)) := by
  rw [← filter_section_collectEvents l train, select_filter]
  intro k hk
  cases k <;> first | rfl | exact (hk rfl).elim

/-- What is found along an assembled track is what is found in the sorted events. -/
theorem filterMap_kind_assemble {β : Type} {l : Line R} (blocks : 0 < l.blocks.size)
    (hi : 0 < l.interval) (t : Tables R) {f : EventKind R → Option β} (hf : f .trackEnd = none) :
    ((assemble l t).events.map fun x => x.2.kind).filterMap f =
      (select f (sortedEvents l t.train)).map (·.2) := by
  have kinds : (assemble l t).events.map (fun x => x.2.kind) =
      ((assemble l t).events.map fun x => (x.1, x.2.kind)).map (·.2) := by
    rw [List.map_map]
    rfl
  rw [kinds, events_eq_sortedEvents t blocks hi, map_snd_select, List.filterMap_map,
    List.filterMap_append]
  simp [hf]

/-- Speed limits are chained if those of the blocks ascend. If all speeds differ, they are chained
only then. -/
theorem chained_limits (l : Line R) (train : TrainInfo R) :
    let limits := l.blocks.toList.flatMap (·.limits.toList)
    let found := (select EventKind.limit? (sortedEvents l train)).map (·.2)
    (limits.Pairwise (fun x y => x.position ≤ y.position) → Chained .unlimited found) ∧
      ((.unlimited :: limits.map (·.speed)).Nodup → Chained .unlimited found →
        limits.Pairwise fun x y => x.position ≤ y.position) := by
  intro limits found
  have collected : select EventKind.limit? (collectEvents l train) =
      select EventKind.limit? (limitEvents .unlimited limits) := select_limit_collectEvents l train
  constructor
  · intro ascends
    have stays : select EventKind.limit? (sortedEvents l train) = _ :=
      select_sortedEvents_of_pairwise (by
        rw [collected, map_fst_select_limitEvents]
        exact List.pairwise_map.2 ascends)
    rw [show found = _ from congrArg (List.map (·.2)) (stays.trans collected)]
    exact chained_limitEvents ..
  · intro ends chained
    have same : select EventKind.limit? (sortedEvents l train) =
        select EventKind.limit? (limitEvents .unlimited limits) := by
      refine Chained.eq_of_perm ?_ chained (chained_limitEvents ..) ?_
      · rw [← collected]
        exact perm_select_sortedEvents l train _
      · rwa [map_next_select_limitEvents]
    have ascends := pairwise_select_sortedEvents l train EventKind.limit?
    rw [same, map_fst_select_limitEvents] at ascends
    exact List.pairwise_map.1 ascends

/-- The beginnings of sections are met in the order of their numbers, each behind the one before
it, if the sections ascend, and only then. -/
theorem sectionChanges_iff {s : Laying R} (h : s.Placed)
    (marks : Enumerates s.line.sectionMarks fun i => 1 ≤ i ∧ i < s.line.sections.size)
    (nonneg : ∀ p ∈ s.line.sectionPositions, 0 ≤ p) (train : TrainInfo R) :
    (select EventKind.sectionChange? (sortedEvents s.line train)).map (·.2) =
        (List.range (s.line.sections.size - 1)).map (fun i => (some i, i + 1)) ↔
      s.line.sectionPositions.toList.tail.Pairwise (· ≤ ·) := by
  have collected := select_section_collectEvents s.line train
  constructor
  · intro inOrder
    have positions : (select EventKind.sectionChange? (sortedEvents s.line train)).map (·.1) =
        s.line.sectionPositions.toList.tail := by
      refine List.map_injective_iff.2 (Option.some_injective R) ?_
      rw [List.map_map]
      have found : ∀ x ∈ select EventKind.sectionChange? (sortedEvents s.line train),
          some x.1 = s.line.sectionPositions[x.2.2]? := by
        intro x hx
        have hx := (perm_select_sortedEvents s.line train _).mem_iff.1 hx
        rw [collected] at hx
        exact (getElem?_of_mem_select_sectionEvents hx).symm
      have numbered := congrArg (List.map fun c => s.line.sectionPositions[c.2]?) inOrder
      rw [List.map_map, List.map_map] at numbered
      refine ((List.map_congr_left found).trans numbered).trans ?_
      refine List.ext_getElem (by simp [Line.sectionPositions]) fun i hi hi' => ?_
      simp
    rw [← positions]
    exact pairwise_select_sortedEvents s.line train _
  · intro ascends
    rw [h.sectionMarks_eq marks nonneg ascends, select_sectionEvents_range'] at collected
    have positions : (select EventKind.sectionChange? (collectEvents s.line train)).map (·.1) =
        s.line.sectionPositions.toList.tail := by
      rw [collected, List.map_map]
      exact List.ext_getElem (by simp [Line.sectionPositions]) fun i hi hi' => by
        simp [Line.sectionPositions]
    rw [select_sortedEvents_of_pairwise (positions ▸ ascends), collected, List.map_map]
    exact List.ext_getElem (by simp) fun i hi hi' => by simp [Nat.add_comm 1 i]

/-! ### Stations -/

theorem filter_station_blockStationEvents (l : Line R) (b : Block R) (i : Nat) :
    (blockStationEvents l b).filter (fun x => x.2.station? = some i) =
      if b.station = some i then blockStationEvents l b else [] := by
  have own : ∀ x ∈ blockStationEvents l b, x.2.station? = b.station := by
    unfold blockStationEvents
    split
    · simp
    · rename_i j hj
      split
      · simp
      · rename_i st _
        rw [hj]
        unfold stationEvents
        cases st.passAlarm <;> simp [EventKind.station?]
  split_ifs with hi
  · exact List.filter_eq_self.2 fun x hx => decide_eq_true ((own x hx).trans hi)
  · exact List.filter_eq_nil_iff.2 fun x hx => by simp [own x hx, hi]

theorem filter_station?_collectEvents (l : Line R) (train : TrainInfo R) (i : Nat) :
    (collectEvents l train).filter (fun x => x.2.station? = some i) =
      l.blocks.toList.flatMap fun b =>
        if b.station = some i then blockStationEvents l b else [] := by
  have source {k : EventKind R} (hk : k.station? = some i) : k.source = .station := by
    cases k <;> first | rfl | cases hk
  have all : (collectEvents l train).filter (fun x => x.2.station? = some i) =
      ((collectEvents l train).filter fun x => x.2.source = .station).filter
        fun x => x.2.station? = some i := by
    rw [List.filter_filter]
    refine List.filter_congr fun x _ => ?_
    by_cases hx : x.2.station? = some i <;> simp [hx, source]
  rw [all, filter_station_collectEvents, List.filter_flatMap]
  simp only [filter_station_blockStationEvents]

section Stations

variable {s : Laying R} (h : s.Placed) {i : Nat} {st : Station R}
  (hst : s.line.stations[i]? = some st)

include h hst

/-- The last station that stands in a block has all its events. -/
theorem perm_stationEvents (train : TrainInfo R)
    (last : ∀ j st', i < j → s.line.stations[j]? = some st' →
      s.line.blockIndex st'.position ≠ s.line.blockIndex st.position) :
    ((sortedEvents s.line train).filter fun x => x.2.station? = some i).Perm
      (stationEvents i st) := by
  obtain ⟨k, hk⟩ : ∃ k, s.line.blockIndex st.position = k := ⟨_, rfl⟩
  have here : (s.line.stationPositions.map s.line.blockIndex)[i]? = some k := by
    simp [Line.stationPositions, hst, hk]
  have reached : k < s.line.blocks.size :=
    hk ▸ h.reached _ (Array.mem_map.2 ⟨st, Array.mem_of_getElem? hst, rfl⟩)
  have found := Array.getElem?_eq_getElem reached
  have isLast : IsLastAt (s.line.stationPositions.map s.line.blockIndex) k i := by
    refine ⟨here, fun j hij hj => ?_⟩
    obtain ⟨st', hst', hk'⟩ : ∃ st', s.line.stations[j]? = some st' ∧
        s.line.blockIndex st'.position = k := by
      simpa [Line.stationPositions] using hj
    exact last j st' hij hst' (hk'.trans hk.symm)
  have names := (h.stations k _ found i).2 isLast
  refine ((stablySorted_sortedEvents s.line train).perm.filter _).trans (.of_eq ?_)
  rw [filter_station?_collectEvents, flatMap_eq_of_unique found fun j c hc hjk => ?_, if_pos names]
  · simp only [blockStationEvents, names, hst]
  · refine if_neg fun hi => hjk ?_
    exact Option.some.inj (((h.stations j c hc i).1 hi).1.symm.trans here)

/-- A station has no events if another one is opened in its block later on. -/
theorem filter_station?_eq_nil (train : TrainInfo R) {j : Nat} {st' : Station R} (hij : i < j)
    (hst' : s.line.stations[j]? = some st')
    (same : s.line.blockIndex st'.position = s.line.blockIndex st.position) :
    ((sortedEvents s.line train).filter fun x => x.2.station? = some i) = [] := by
  refine List.Perm.eq_nil (((stablySorted_sortedEvents s.line train).perm.filter _).trans ?_)
  rw [filter_station?_collectEvents, List.flatMap_eq_nil_iff.2 fun b hb => if_neg fun hi => ?_]
  obtain ⟨k, hk⟩ := Array.mem_iff_getElem?.1 (Array.mem_toList_iff.1 hb)
  obtain ⟨here, last⟩ := (h.stations k b hk i).1 hi
  refine last j hij ?_
  have hk : s.line.blockIndex st.position = k := by simpa [Line.stationPositions, hst] using here
  simp [Line.stationPositions, hst', same, hk]

end Stations

section StationEvents

variable (i : Nat) (st : Station R)

theorem positions_stationStart :
    ((stationEvents i st).filter fun x => x.2 = .stationStart i).map (·.1) = [st.position] := by
  unfold stationEvents
  cases st.passAlarm <;> simp

theorem positions_stationEnd :
    ((stationEvents i st).filter fun x => x.2 = .stationEnd i).map (·.1) =
      [stationEndPosition st] := by
  unfold stationEvents
  cases st.passAlarm <;> simp

theorem positions_stationPassAlarm :
    ((stationEvents i st).filter fun x => x.2 = .stationPassAlarm i).map (·.1) =
      if st.passAlarm then [max (st.position - 50) 0] else [] := by
  unfold stationEvents
  cases st.passAlarm <;> simp [passAlarmDistance, ExactScalar.ofNat_eq, ExactScalar.max_eq]

end StationEvents

/-- The events of a station on an assembled track are those of the line. -/
theorem positionsOf_assemble {l : Line R} (blocks : 0 < l.blocks.size) (hi : 0 < l.interval)
    (t : Tables R) {kind : EventKind R} {i : Nat} (hkind : kind.station? = some i) :
    (assemble l t).positionsOf kind =
      (((sortedEvents l t.train).filter fun x => x.2.station? = some i).filter
        fun x => x.2 = kind).map (·.1) := by
  have traced : (assemble l t).positionsOf kind =
      (((assemble l t).events.map fun x => (x.1, x.2.kind)).filter fun x => x.2 = kind).map
        (·.1) := by
    rw [List.filter_map, List.map_map]
    rfl
  have behind : EventKind.trackEnd ≠ kind := by
    rintro rfl
    cases hkind
  rw [traced, events_eq_sortedEvents t blocks hi, List.filter_append,
    List.filter_cons_of_neg (by simpa using behind), List.filter_nil, List.append_nil,
    List.filter_filter]
  refine congrArg _ (List.filter_congr fun x _ => ?_)
  by_cases hx : x.2 = kind <;> simp [hx, hkind]

theorem isGreatest_stationEndPosition (st : Station R) :
    IsGreatest {p | p = st.position ∨ ∃ stop ∈ st.stops, p = stop.position}
      (stationEndPosition st) := by
  have key (stops : List (StopPoint R)) (p : R) :
      IsGreatest {q | q = p ∨ ∃ stop ∈ stops, q = stop.position}
        (stops.foldl (fun furthest stop => Scalar.max furthest stop.position) p) := by
    induction stops generalizing p with
    | nil => simp [IsGreatest, upperBounds]
    | cons stop stops ih =>
      have greatest := ih (max p stop.position)
      rw [List.foldl_cons, ExactScalar.max_eq]
      refine ⟨?_, ?_⟩
      · rcases greatest.1 with h | ⟨x, hx, h⟩
        · rw [h]
          rcases max_choice p stop.position with hp | hp <;> simp [hp]
        · exact Or.inr ⟨x, List.mem_cons_of_mem _ hx, h⟩
      · have below := greatest.2 (Or.inl rfl)
        rintro q (rfl | ⟨x, hx, rfl⟩)
        · exact (le_max_left _ _).trans below
        · rcases List.mem_cons.1 hx with rfl | hx
          · exact (le_max_right _ _).trans below
          · exact greatest.2 (Or.inr ⟨x, hx, rfl⟩)
  simpa [stationEndPosition] using key st.stops.toList st.position

end Exact

end Assembly

end RailRoute
