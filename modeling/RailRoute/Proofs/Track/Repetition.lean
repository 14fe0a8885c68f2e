import Mathlib
import RailRoute.Proofs.Track.Search
import RailRoute.Proofs.Track.Walking

/-!
# How often a move triggers an event

The stretches of a move lie in different elements, so that each event is triggered once at most,
unless the move runs off the front of the track: then the first element is left backwards and
travelled once more at the end, and what lies in both stretches is triggered twice. Main statement:
`triggered_twice_iff`, which events these are.
-/

namespace RailRoute

variable {R : Type} [Scalar R]

/-! ## The places of calls -/

namespace Track

variable {t : Track R}

theorem nodup_places_callsOf (t : Track R) (v : Visit R) :
    ((t.callsOf v).map (·.place)).Nodup := by
  refine List.pairwise_map.2 ((t.pairwise_callsOf v).imp_of_mem fun {a b} ha hb hab => ?_)
  obtain ⟨-, -, -, ha, -⟩ := mem_callsOf.1 ha
  obtain ⟨-, -, -, hb, -⟩ := mem_callsOf.1 hb
  rw [TriggerCall.Precedes, if_pos (ha.trans hb.symm)] at hab
  simp only [TriggerCall.place, ne_eq, Prod.mk.injEq]
  omega

/-- An event is among the calls of visits if one of them goes through it. -/
theorem mem_places {i k : Nat} {e : Element R} {ev : Event R} (he : t.elements[i]? = some e)
    (hev : e.events[k]? = some ev) (vs : List (Visit R)) :
    (i, k) ∈ (vs.flatMap t.callsOf).map (·.place) ↔
      ∃ v ∈ vs, v.element = i ∧ v.crosses ev.offset := by
  simp only [List.mem_map, List.mem_flatMap, mem_callsOf]
  constructor
  · rintro ⟨call, ⟨v, hv, e', ev', he', helement, hev', hcross, -⟩, hplace⟩
    obtain ⟨rfl, rfl⟩ := Prod.mk.inj hplace
    rw [helement] at he
    obtain rfl := Option.some.inj (he.symm.trans he')
    obtain rfl := Option.some.inj (hev.symm.trans hev')
    exact ⟨v, hv, helement.symm, hcross⟩
  · rintro ⟨v, hv, rfl, hcross⟩
    exact ⟨⟨v.element, k, v.direction⟩, ⟨v, hv, e, ev, he, rfl, hev, hcross, rfl⟩, rfl⟩

theorem nodup_places {vs : List (Visit R)} (h : (vs.map (·.element)).Nodup) :
    ((vs.flatMap t.callsOf).map (·.place)).Nodup := by
  rw [List.map_flatMap]
  refine List.nodup_flatMap.2 ⟨fun v _ => t.nodup_places_callsOf v, ?_⟩
  refine (List.pairwise_map.1 h).imp fun {v w} hne => ?_
  rintro _ hv hw
  obtain ⟨a, ha, rfl⟩ := List.mem_map.1 hv
  obtain ⟨b, hb, hab⟩ := List.mem_map.1 hw
  obtain ⟨-, -, -, ha, -⟩ := mem_callsOf.1 ha
  obtain ⟨-, -, -, hb, -⟩ := mem_callsOf.1 hb
  exact hne (ha.symm.trans ((congrArg Prod.fst hab).symm.trans hb))

end Track

namespace Follower

/-! ## What a move leaves as it was -/

/-- A move triggers its calls and nothing else, on any track and from any element. -/
theorem moveTo_eq_triggerAll (f : Follower R) (t : Track R) (mode : MoveMode) (target : R) :
    let moved := f.moveTo t mode target
    (moved.track, moved.crossings.toList) = t.triggerAll f.crosser (f.calls t target) := by
  intro moved
  rcases Nat.eq_zero_or_pos t.elements.size with empty | nonempty
  · have nothing : f.calls t target = [] := by
      refine List.flatMap_eq_nil_iff.2 fun v _ => ?_
      simp [Track.callsOf, Array.getElem?_eq_none (show t.elements.size ≤ v.element by omega)]
    have stays : moved = ⟨f, t, #[]⟩ := by
      simp only [moved, moveTo]
      rw [Array.getElem?_eq_none (by omega)]
    rw [nothing, stays]
    rfl
  · have here := Array.getElem?_eq_getElem (plan_lt nonempty f.element f.position target)
    simp only [moved, moveTo, here, visitAll_eq_triggerAll]
    rfl

@[simp] theorem crosser_moveTo (f : Follower R) (t : Track R) (mode : MoveMode) (target : R) :
    (f.moveTo t mode target).follower.crosser = f.crosser := by
  unfold moveTo
  dsimp only
  split
  · rfl
  · exact place_crosser ..

theorem sameLayout_moveTo (f : Follower R) (t : Track R) (mode : MoveMode) (target : R) :
    t.SameLayout (f.moveTo t mode target).track := by
  rw [show (f.moveTo t mode target).track = _ from
    congrArg Prod.fst (f.moveTo_eq_triggerAll t mode target)]
  exact t.sameLayout_triggerAll f.crosser _

@[simp] theorem crosser_moveAll (f : Follower R) (t : Track R) (moves : List (Move R)) :
    (f.moveAll t moves).follower.crosser = f.crosser := by
  induction moves generalizing f t with
  | nil => rfl
  | cons m rest ih => exact (ih _ _).trans (f.crosser_moveTo ..)

theorem sameLayout_moveAll (f : Follower R) (t : Track R) (moves : List (Move R)) :
    t.SameLayout (f.moveAll t moves).track := by
  induction moves generalizing f t with
  | nil => exact fun _ => rfl
  | cons m rest ih => exact (f.sameLayout_moveTo t m.mode m.target).trans (ih _ _)

/-! ## The visits of a plan -/

section Comparable

variable [ComparableScalar R] {t : Track R} {target : R}

open ComparableScalar

/-- A move that does not run off the front of the track visits no element twice. -/
theorem nodup_elements_plan (ascends : t.Ascends) (nonempty : 0 < t.elements.size)
    (reach : startOf t 0 ≤ target) (element : Nat) (source : R) :
    ((plan t element source target).2.map (·.element)).Nodup := by
  obtain ⟨j, k, hjk, turn, -, hplan⟩ := exists_plan_of_reach ascends nonempty reach element source
  have back (n c : Nat) :
      ((List.range' n c).reverse.map (visitBackward t source)).map (·.element) =
        (List.range' n c).reverse := by simp [visitBackward, Function.comp_def]
  have forth (n c : Nat) : ((List.range' n c).map fun m =>
      visitForward t source (startOf t (m + 1)) m).map (·.element) = List.range' n c := by
    simp [visitForward, Function.comp_def]
  have last : (lastVisit t source target k).element = k := rfl
  rw [hplan, List.map_append, List.map_append, back, forth, List.map_singleton, last]
  have descending := List.nodup_reverse.2 (List.nodup_range' (s := j + 1)
    (n := min element (t.elements.size - 1) - j))
  have ascending := List.nodup_range' (s := j) (n := k - j)
  rw [List.nodup_append, List.nodup_append]
  simp only [List.mem_append, List.mem_reverse, List.mem_range'_1, List.mem_singleton]
  refine ⟨⟨descending, ascending, ?_⟩, List.nodup_singleton k, ?_⟩
  · rintro a ha b hb
    omega
  · rintro a ha b rfl
    omega

/-- What the first stretch of an element leaves ahead of it, the last one goes through as far as the
target. -/
theorem crosses_lastVisit_of_lt {source d : R} {i : Nat} (h : d < source - startOf t i) :
    (lastVisit t source target i).crosses d ↔ target - startOf t i ≤ d := by
  have shape : (lastVisit t source target i).direction =
      finalDirection (source - startOf t i) (target - startOf t i) := rfl
  unfold finalDirection at shape
  split_ifs at shape with hforth hback
  · rw [Visit.crosses_forward shape]
    refine ⟨fun ⟨h', _⟩ => absurd (lt_iff.1 h').1 (lt_iff.1 h).2, fun hle => ?_⟩
    exact absurd (lt_iff.1 (lt_of_le_of_lt hle h)).1 (lt_iff.1 hforth).2
  · rw [Visit.crosses_backward shape]
    exact and_iff_right h
  · refine ⟨fun h' => ?_, fun hle => absurd (lt_of_le_of_lt hle h) hback⟩
    simp [Visit.crosses, shape] at h'

omit [ComparableScalar R] in
theorem exists_visitBackward (source d : R) (n i : Nat) :
    (∃ v ∈ (List.range (n + 1)).reverse.map (visitBackward t source),
      v.element = i ∧ v.crosses d) ↔
      i ≤ n ∧ d < source - startOf t i ∧ -Scalar.fixed 1 2 ≤ d := by
  simp only [List.mem_map, List.mem_reverse, List.mem_range, exists_exists_and_eq_and,
    Nat.lt_succ_iff]
  constructor
  · rintro ⟨m, hm, rfl, hcross⟩
    exact ⟨hm, (Visit.crosses_backward rfl).1 hcross⟩
  · rintro ⟨hi, hcross⟩
    exact ⟨i, hi, rfl, (Visit.crosses_backward rfl).2 hcross⟩

/-- Off the front of the track, an event is triggered once for the way back through its element, and
once more for the way on from the first element. -/
theorem count_calls_of_lt (ascends : t.Ascends) (off : target < startOf t 0) (f : Follower R)
    {i k : Nat} {e : Element R} {ev : Event R} (he : t.elements[i]? = some e)
    (hev : e.events[k]? = some ev) :
    ((f.calls t target).map (·.place)).count (i, k) =
      (if i ≤ min f.element (t.elements.size - 1) ∧ ev.offset < f.position - startOf t i ∧
        -Scalar.fixed 1 2 ≤ ev.offset then 1 else 0) +
      if i = 0 ∧ (lastVisit t f.position target 0).crosses ev.offset then 1 else 0 := by
  let back := (List.range (min f.element (t.elements.size - 1) + 1)).reverse.map
    (visitBackward t f.position)
  have hback : ((back.flatMap t.callsOf).map (·.place)).Nodup := by
    refine Track.nodup_places ?_
    simp only [back, List.map_map, Function.comp_def, visitBackward, List.map_id']
    exact List.nodup_reverse.2 List.nodup_range
  have hlast : (([lastVisit t f.position target 0].flatMap t.callsOf).map (·.place)).Nodup :=
    Track.nodup_places (List.nodup_singleton _)
  rw [calls, plan_of_lt ascends off, List.flatMap_append, List.map_append, List.count_append,
    List.Nodup.count hback, List.Nodup.count hlast]
  have first : (lastVisit t f.position target 0).element = i ↔ i = 0 := eq_comm
  simp only [Track.mem_places he hev, back, exists_visitBackward, List.mem_singleton,
    exists_eq_left, first]

theorem count_calls (ascends : t.Ascends) (start : startOf t 0 == startOf t 0)
    (number : target == target) (f : Follower R) {i k : Nat} {e : Element R} {ev : Event R}
    (he : t.elements[i]? = some e) (hev : e.events[k]? = some ev) :
    let times := ((f.calls t target).map (·.place)).count (i, k)
    times ≤ 2 ∧ (1 < times ↔ target < startOf t 0 ∧ i = 0 ∧ -Scalar.fixed 1 2 ≤ ev.offset ∧
      target - startOf t 0 ≤ ev.offset ∧ ev.offset < f.position - startOf t 0) := by
  intro times
  obtain ⟨hi, -⟩ := Array.getElem?_eq_some_iff.1 he
  by_cases reach : startOf t 0 ≤ target
  · have once : times ≤ 1 := List.nodup_iff_count_le_one.1
      (Track.nodup_places (nodup_elements_plan ascends (by omega) reach _ _)) _
    refine ⟨by omega, fun h => by omega, fun ⟨off, _⟩ => ?_⟩
    exact absurd reach (lt_iff.1 off).2
  · have off := lt_of_not_le start number reach
    have twice := count_calls_of_lt ascends off f he hev
    refine ⟨by split_ifs at twice <;> omega, fun h => ?_, ?_⟩
    · split_ifs at twice with hb hl <;> try omega
      obtain ⟨-, hsource, hstretch⟩ := hb
      obtain ⟨rfl, hcross⟩ := hl
      exact ⟨off, rfl, hstretch, (crosses_lastVisit_of_lt hsource).1 hcross, hsource⟩
    · rintro ⟨-, rfl, hstretch, htarget, hsource⟩
      rw [if_pos ⟨Nat.zero_le _, hsource, hstretch⟩,
        if_pos ⟨rfl, (crosses_lastVisit_of_lt hsource).2 htarget⟩] at twice
      omega

/-! ## Assembled tracks -/

omit [ComparableScalar R] in
theorem startOf_assemble (l : Line R) (t : Tables R) {i : Nat} (hi : i < l.blocks.size) :
    startOf (Assembly.assemble l t) i = l.blockStart i := by
  have he := Array.getElem?_eq_getElem (show i < (Assembly.assemble l t).elements.size by
    rwa [Assembly.size_assemble])
  rw [startOf_eq he]
  exact (Assembly.eq_of_getElem?_assemble he).2.1

/-- After any moves, one more move triggers each event of the track twice at most, and twice only if
it runs off the front of the track. The event then lies in the first element, between the place the
follower comes from and the target, and no further ahead of the element than the stretches reach. -/
theorem triggered_twice_iff (l : Line R) (t : Tables R)
    (ascends : ∀ i j, i ≤ j → j < l.blocks.size → l.blockStart i ≤ l.blockStart j)
    (c : Crosser) (moves : List (Move R)) (mode : MoveMode) {target : R}
    (number : target == target) {i k : Nat} {e : Element R} {ev : Event R}
    (he : (Assembly.assemble l t).elements[i]? = some e) (hev : e.events[k]? = some ev) :
    let now := (initial c).moveAll (Assembly.assemble l t) moves
    let calls := now.follower.calls now.track target
    let moved := now.follower.moveTo now.track mode target
    let times := (calls.map (·.place)).count (i, k)
    (moved.track, moved.crossings.toList) = now.track.triggerAll c calls ∧ times ≤ 2 ∧
      (1 < times ↔ target < l.blockStart 0 ∧ i = 0 ∧ -Scalar.fixed 1 2 ≤ ev.offset ∧
        target - l.blockStart 0 ≤ ev.offset ∧
        ev.offset < now.follower.position - l.blockStart 0) := by
  intro now calls moved times
  have layout : (Assembly.assemble l t).SameLayout now.track :=
    (initial c).sameLayout_moveAll (Assembly.assemble l t) moves
  obtain ⟨hi, -, -⟩ := Assembly.eq_of_getElem?_assemble he
  have first : startOf now.track 0 = l.blockStart 0 := by
    rw [← startOf_congr layout, startOf_assemble l t (by omega)]
  have starts : now.track.Ascends := layout.ascends fun a b hab hb => by
    rw [Assembly.size_assemble] at hb
    rw [startOf_assemble l t (hab.trans hb), startOf_assemble l t hb]
    exact ascends a b hab.le hb
  have start : startOf now.track 0 == startOf now.track 0 := by
    rw [first]
    exact (beq_self_of_le (ascends 0 0 le_rfl (by omega))).1
  obtain ⟨e', he', hl⟩ := layout.getElem? he
  obtain ⟨ev', hev', ho⟩ := Track.SameLayout.exists_event hl hev
  have counted := count_calls starts start number now.follower he' hev'
  have triggered := now.follower.moveTo_eq_triggerAll now.track mode target
  rw [ho, first] at counted
  rw [crosser_moveAll] at triggered
  exact ⟨triggered, counted⟩

end Comparable

/-! ## Off the front of a line -/

section Marked

open Assembly

theorem assemble_markedLine : assemble markedLine (.initial : Tables ℚ) =
    ⟨placeEvents 25 [(10, .limit .unlimited (.limited 20)), (10, .marker 0 true),
        (30, .limit (.limited 20) .unlimited), (60, .marker 0 false)]
      (placeEnd 25 (withTangents
        (layElements .unsigned 25 0 .zero .forward markedLine.blocks.toList).toArray))⟩ := by
  have sorted : sortedEvents markedLine (.initial : Tables ℚ).train =
      [(10, .limit .unlimited (.limited 20)), (10, .marker 0 true),
        (30, .limit (.limited 20) .unlimited), (60, .marker 0 false)] := by cbv
  rw [← sorted]
  rfl

/-- A follower that has gone to the middle of the first block. -/
def inFirstBlock : Moved ℚ :=
  (initial ⟨.camera, none⟩).moveAll (assemble markedLine .initial) [⟨⟨true, false⟩, 20⟩]

/-- The limit in the first block is triggered twice on the way to a place before the track. -/
theorem triggered_twice_iff_markedLine :
    let calls := inFirstBlock.follower.calls inFirstBlock.track (-5)
    (∀ i j, i ≤ j → j < markedLine.blocks.size →
      markedLine.blockStart i ≤ markedLine.blockStart j) ∧ ((-5 : ℚ) == -5) = true ∧
      (calls.map (·.place)).count (0, 0) = 2 := by
  intro calls
  have ascends : ∀ i j, i ≤ j → j < markedLine.blocks.size →
      markedLine.blockStart i ≤ markedLine.blockStart j := fun i j hij _ =>
    Line.blockStart_le_blockStart (by decide) hij
  have limit : (assemble markedLine (.initial : Tables ℚ)).event? ⟨0, 0, -1⟩ =
      some ⟨10, .limit .unlimited (.limited 20), false⟩ := by
    rw [assemble_markedLine]
    with_unfolding_all decide
  obtain ⟨e, he, first⟩ := Track.event?_eq_some.1 limit
  have number : ((-5 : ℚ) == -5) = true := by decide
  obtain ⟨-, atMost, iff⟩ := triggered_twice_iff markedLine (.initial : Tables ℚ) ascends
    ⟨.camera, none⟩ [⟨⟨true, false⟩, 20⟩] ⟨true, false⟩ number he first
  have position : inFirstBlock.follower.position = 20 := by
    rw [inFirstBlock, assemble_markedLine]
    with_unfolding_all decide
  have twice := iff.2 ⟨by with_unfolding_all decide, rfl, by with_unfolding_all decide,
    by with_unfolding_all decide, by
      rw [show (initial _).moveAll _ _ = inFirstBlock from rfl, position]
      with_unfolding_all decide⟩
  exact ⟨ascends, number, le_antisymm atMost twice⟩

/-- Both events of the first block are triggered twice in one move, and reported twice. -/
theorem not_nodup_calls_markedLine :
    ¬ ((inFirstBlock.follower.calls inFirstBlock.track (-5)).map (·.place)).Nodup ∧
      (inFirstBlock.follower.moveTo inFirstBlock.track ⟨true, false⟩ (-5)).crossings.toList.map
          (fun x => (x.event.kind, x.direction)) =
        [(.limit .unlimited (.limited 20), -1), (.marker 0 true, -1),
          (.limit .unlimited (.limited 20), -1), (.marker 0 true, -1)] := by
  rw [inFirstBlock, assemble_markedLine]
  with_unfolding_all decide

end Marked

end Follower

end RailRoute
