import Mathlib
import RailRoute.Proofs.Compile.Walks

/-!
# The order of the events in an element

The events that are dealt out to an element ascend by their offsets. Behind those of the last
element comes the end of the track, at the length of a block. It is out of order if something lies
behind the track, and in a compiled route only a marker can. Main statements: `events_ascend_iff`
and `ascend_iff_of_compileLines`.
-/

namespace RailRoute

variable {R : Type}

/-- Whether the events of an element are in the order of their offsets. -/
def Element.Ascends [Scalar R] (e : Element R) : Prop :=
  e.events.Pairwise fun a b => a.offset ≤ b.offset

variable [ExactScalar R]

namespace Assembly

variable (l : Line R) (t : Tables R)

theorem pairwise_eventsIn (train : TrainInfo R) (i : Nat) :
    (eventsIn l train i).Pairwise fun a b => a.offset ≤ b.offset := by
  refine List.pairwise_map.2 (((stablySorted_sortedEvents l train).sorted.filter _).imp ?_)
  intro x y hxy
  exact sub_le_sub_right (of_decide_eq_true hxy) _

/-- What the last element holds does not lie behind the end of the track. -/
def EndsTrack (train : TrainInfo R) : Prop :=
  ∀ x ∈ collectEvents l train, elementIndex l.interval l.blocks.size x.1 + 1 = l.blocks.size →
    x.1 ≤ l.blockStart l.blocks.size

variable {l t}

theorem forall_mem_eventsIn {train : TrainInfo R} {i : Nat} {P : Event R → Prop} :
    (∀ ev ∈ eventsIn l train i, P ev) ↔
      ∀ x ∈ collectEvents l train, elementIndex l.interval l.blocks.size x.1 = i →
        P ⟨x.1 - l.blockStart i, x.2, false⟩ := by
  have collected (x : R × EventKind R) : x ∈ sortedEvents l train ↔ x ∈ collectEvents l train :=
    (stablySorted_sortedEvents l train).perm.mem_iff
  simp only [eventsIn, List.forall_mem_map, List.mem_filter, decide_eq_true_eq, collected, and_imp]

theorem ascends_iff {i : Nat} {e : Element R} (he : (assemble l t).elements[i]? = some e) :
    e.Ascends ↔ (i + 1 = l.blocks.size → ∀ ev ∈ eventsIn l t.train i, ev.offset ≤ l.interval) := by
  obtain ⟨-, -, hevents⟩ := eq_of_getElem?_assemble he
  have ends : (endIn l i).Pairwise fun a b => a.offset ≤ b.offset := by
    unfold endIn
    split_ifs <;> simp
  rw [Element.Ascends, hevents, List.pairwise_append,
    and_iff_right (pairwise_eventsIn l t.train i), and_iff_right ends]
  constructor
  · intro h hlast ev hev
    exact h ev hev _ (mem_endIn.2 ⟨hlast, rfl⟩)
  · intro h ev hev last hmem
    obtain ⟨hlast, rfl⟩ := mem_endIn.1 hmem
    exact h hlast ev hev

theorem ascend_iff_endsTrack :
    (∀ e ∈ (assemble l t).elements, e.Ascends) ↔ EndsTrack l t.train := by
  -- Only the last element can be out of order.
  have last {i : Nat} (hlast : i + 1 = l.blocks.size) :
      (∀ ev ∈ eventsIn l t.train i, ev.offset ≤ l.interval) ↔ EndsTrack l t.train := by
    rw [forall_mem_eventsIn, EndsTrack, ← hlast, l.blockStart_succ]
    simp only [Nat.add_right_cancel_iff, sub_le_iff_le_add']
  constructor
  · intro h
    rcases Nat.eq_zero_or_pos l.blocks.size with none | some
    · intro x _ hx
      omega
    · have hlast : l.blocks.size - 1 + 1 = l.blocks.size := by omega
      have he := Array.getElem?_eq_getElem
        (show l.blocks.size - 1 < (assemble l t).elements.size by rw [size_assemble]; omega)
      exact (last hlast).1 ((ascends_iff he).1 (h _ (Array.getElem_mem _)) hlast)
  · intro h e he
    obtain ⟨i, he⟩ := Array.mem_iff_getElem?.1 he
    exact (ascends_iff he).2 fun hlast => (last hlast).2 h

/-- The events dealt out to an element ascend. With the end of the track, which is the last event of
the last element, they do so unless that element has to hold an event that lies behind the track. -/
theorem events_ascend_iff (l : Line R) (t : Tables R) :
    (∀ i e, (assemble l t).elements[i]? = some e → e.events = eventsIn l t.train i ++ endIn l i ∧
      (eventsIn l t.train i).Pairwise fun a b => a.offset ≤ b.offset) ∧
    ((∀ e ∈ (assemble l t).elements, e.Ascends) ↔ EndsTrack l t.train) :=
  ⟨fun i _ he => ⟨(eq_of_getElem?_assemble he).2.2, pairwise_eventsIn l t.train i⟩,
    ascend_iff_endsTrack⟩

/-- Nothing lies behind the track, if nothing that the last element holds does. -/
theorem endsTrack_iff (hi : 0 < l.interval) (blocks : 0 < l.blocks.size) (train : TrainInfo R) :
    EndsTrack l train ↔ ∀ x ∈ collectEvents l train, x.1 ≤ l.blockStart l.blocks.size := by
  refine ⟨fun h x hx => ?_, fun h x hx _ => h x hx⟩
  by_contra hbehind
  refine hbehind (h x hx ?_)
  have inside := elementIndex_lt blocks l.interval x.1
  by_contra hlast
  have hlt := lt_blockStart_of_elementIndex hi (n := l.blocks.size) (p := x.1) (by omega)
  exact hbehind (hlt.le.trans (Line.blockStart_le_blockStart hi (by omega)))

end Assembly

open Assembly

/-- In the track of a compiled route all events are in order if, and only if, no marker ends behind
the track. -/
theorem ascend_iff_of_compileLines {settings : Settings} {host : Host} {path : String}
    {lines : List (List Char)} {route : CompiledRoute R}
    (h : (compileLines R settings host path lines).result = .ok route) :
    (∀ e ∈ route.track.elements, e.Ascends) ↔ route.track = ⟨#[]⟩ ∨
      ∀ m ∈ route.line.markers, m.finish ≤ route.line.blockStart route.line.blocks.size := by
  rcases Compile.ok_of_run h with empty | ⟨s, bounds, hline, htrack⟩
  · simp [empty]
  · have hi := bounds.interval
    have blocks := bounds.covered.size_pos
    have laid : route.track ≠ ⟨#[]⟩ := fun empty => by
      have size := size_assemble s.line route.tables
      rw [← htrack, empty] at size
      exact absurd size blocks.ne
    rw [or_iff_right laid, htrack, hline]
    constructor
    · intro ascend m hm
      have ends := (endsTrack_iff hi blocks _).1 (ascend_iff_endsTrack.1 ascend)
      obtain ⟨i, hm⟩ := Array.mem_iff_getElem?.1 hm
      refine ends (m.finish, .marker i false) (List.mem_append_right _ (List.mem_flatMap.2 ?_))
      exact ⟨(m, i), List.mem_zipIdx_iff_getElem?.2 (by simpa using hm), by simp⟩
    · intro finishes e he
      obtain ⟨i, he⟩ := Array.mem_iff_getElem?.1 he
      refine (ascends_iff he).2 fun _ ev hev => ?_
      refine offset_le_interval hi bounds.stands
        (fun m hm => ⟨bounds.finishes m hm, finishes m hm⟩) he ?_
      rw [(eq_of_getElem?_assemble he).2.2]
      exact List.mem_append_left _ hev

/-- The last element of a compiled route holds the end of a marker, behind the track, ahead of the
end of the track. -/
theorem not_ascends_of_longMarker : ∃ route : CompiledRoute ℚ,
    (compileLines ℚ .initial Compile.quietJob.host "" Follower.longMarker).result = .ok route ∧
      ¬ ∀ e ∈ route.track.elements, e.Ascends := by
  let route := Follower.longMarkerRoute
  refine ⟨route, Follower.compileLines_longMarker, fun ascend => ?_⟩
  have ends : EndsTrack route.line route.tables.train := ascend_iff_endsTrack.1 ascend
  have collected : ((110 : ℚ), EventKind.marker 0 false) ∈
      collectEvents route.line route.tables.train := by
    rw [Follower.collectEvents_longMarker]
    simp
  have isLast : elementIndex route.line.interval route.line.blocks.size 110 + 1 =
      route.line.blocks.size := by with_unfolding_all decide
  exact absurd (ends _ collected isLast) (by with_unfolding_all decide)

end RailRoute
