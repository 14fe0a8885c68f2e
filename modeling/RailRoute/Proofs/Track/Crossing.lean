import Mathlib
import RailRoute.Proofs.Track.Route

/-!
# The events that a move crosses

On a well-formed track a follower that is found in the right element crosses, on its way to any
position not before the start of the track, exactly the events between its old position and the new
one: an event where it comes from does not count, and one where it arrives does. It is found in the
right element again, so the law holds along any sequence of moves. Main statement:
`move_after_moves`, the law for one more move after any moves.
-/

namespace RailRoute

variable {R : Type}

/-! ## Moves -/

namespace Follower

/-- A move to a position. -/
structure Move (R : Type) where
  mode : MoveMode
  target : R

section Moves

variable [Scalar R]

/-- The calls that a move to a position makes. -/
def calls (f : Follower R) (t : Track R) (target : R) : List TriggerCall :=
  (plan t f.element f.position target).2.flatMap t.callsOf

/-- Makes moves one after the other. -/
def moveAll (f : Follower R) (t : Track R) : List (Move R) → Moved R
  | [] => ⟨f, t, #[]⟩
  | m :: rest =>
    let first := f.moveTo t m.mode m.target
    let others := moveAll first.follower first.track rest
    ⟨others.follower, others.track, first.crossings ++ others.crossings⟩

@[simp] theorem place_element (f : Follower R) (mode : MoveMode) (i : Nat) (e : Element R)
    (next? : Option (Element R)) (x : R) : (f.place mode i e next? x).element = i := by
  unfold place
  cases mode.addsIrregularity <;> rfl

@[simp] theorem place_position (f : Follower R) (mode : MoveMode) (i : Nat) (e : Element R)
    (next? : Option (Element R)) (x : R) : (f.place mode i e next? x).position = x := by
  unfold place
  cases mode.addsIrregularity <;> rfl

@[simp] theorem place_crosser (f : Follower R) (mode : MoveMode) (i : Nat) (e : Element R)
    (next? : Option (Element R)) (x : R) : (f.place mode i e next? x).crosser = f.crosser := by
  unfold place
  cases mode.addsIrregularity <;> rfl

theorem startOf_congr {t t' : Track R} (h : t.SameLayout t') (i : Nat) :
    startOf t i = startOf t' i := by
  have key : ∀ s : Track R,
      startOf s i = ((s.elements[i]?.map Element.layout).map (·.1)).getD 0 := by
    intro s
    cases hs : s.elements[i]? <;> simp [startOf, hs, Element.layout]
  rw [key, key, h]

end Moves

variable [ExactScalar R]

/-- What a move does on its way: it triggers the events between the two positions, each once and in
the order of the way, and ends in the element of the new position. -/
structure Passes (t : Track R) (f : Follower R) (target : R) (calls : List TriggerCall)
    (moved : Moved R) : Prop where
  crossed : t.CrossedInOrder f.position target calls
  triggered : (moved.track, moved.crossings.toList) = t.triggerAll f.crosser calls
  position : moved.follower.position = target
  crosser : moved.follower.crosser = f.crosser
  contains : moved.track.Contains moved.follower.element target

theorem passes_moveTo {t : Track R} (wf : t.WellFormed) {f : Follower R}
    (here : t.Contains f.element f.position) (mode : MoveMode) {target : R}
    (reach : startOf t 0 ≤ target) :
    Passes t f target (f.calls t target) (f.moveTo t mode target) := by
  obtain ⟨his, -, -⟩ := contains_iff.1 here
  obtain ⟨j, k, r, hplan⟩ := exists_route f.position his reach
  obtain ⟨e, he, -, -⟩ := r.contains
  have hmove : f.moveTo t mode target =
      ⟨f.place mode k e t.elements[k + 1]? target,
        (t.visitAll f.crosser (Route.visits t f.position target f.element j k)).1,
        (t.visitAll f.crosser (Route.visits t f.position target f.element j k)).2.toArray⟩ := by
    simp only [moveTo, hplan, he]
  have hcalls : f.calls t target =
      (Route.visits t f.position target f.element j k).flatMap t.callsOf := by
    rw [calls, hplan]
  have ordered := t.pairwise_flatMap_callsOf (r.pairwise_visits f.position wf)
  rw [hmove, hcalls, visitAll_eq_triggerAll]
  exact
    { crossed :=
        { mem_iff := fun call => ⟨r.isCrossed_of_mem wf, r.mem_of_isCrossed wf here⟩
          nodup := ordered.imp TriggerCall.Precedes.ne
          ordered := ordered }
      triggered := rfl
      position := by simp
      crosser := by simp
      contains := by
        simpa using (t.sameLayout_triggerAll f.crosser _).contains r.contains }

/-- What moves leave as it was, and that the follower is in the right element again. -/
structure Settled (t : Track R) (f : Follower R) (moved : Moved R) : Prop where
  layout : t.SameLayout moved.track
  crosser : moved.follower.crosser = f.crosser
  contains : moved.track.Contains moved.follower.element moved.follower.position

theorem Passes.settled {t : Track R} {f : Follower R} {target : R} {calls : List TriggerCall}
    {moved : Moved R} (h : Passes t f target calls moved) : Settled t f moved where
  layout := by
    rw [show moved.track = _ from congrArg Prod.fst h.triggered]
    exact t.sameLayout_triggerAll f.crosser calls
  crosser := h.crosser
  contains := by
    rw [h.position]
    exact h.contains

/-- Each move of a run starts on a track of the same layout and from the right element. -/
theorem settled_moveAll {t : Track R} (wf : t.WellFormed) {f : Follower R}
    (here : t.Contains f.element f.position) (moves : List (Move R))
    (reach : ∀ m ∈ moves, startOf t 0 ≤ m.target) : Settled t f (f.moveAll t moves) := by
  induction moves generalizing t f with
  | nil => exact ⟨fun _ => rfl, rfl, here⟩
  | cons m rest ih =>
    have first := (passes_moveTo wf here m.mode (reach m (List.mem_cons_self ..))).settled
    have others := ih (first.layout.wellFormed wf) first.contains fun m' hm' => by
      rw [← startOf_congr first.layout]
      exact reach m' (List.mem_cons_of_mem _ hm')
    exact ⟨first.layout.trans others.layout, others.crosser.trans first.crosser, others.contains⟩

/-- After any moves to positions not before the start of the track, one more move triggers exactly
the events between its two positions, each once and in the order of the way, and none if it
stays where it is; its outcome is that of triggering these events one after the other, and it ends
in the element of its target. -/
theorem move_after_moves {t : Track R} (wf : t.WellFormed) {f : Follower R}
    (here : t.Contains f.element f.position) (moves : List (Move R)) (next : Move R)
    (reach : ∀ m ∈ next :: moves, startOf t 0 ≤ m.target) :
    let now := f.moveAll t moves
    let calls := now.follower.calls now.track next.target
    let moved := now.follower.moveTo now.track next.mode next.target
    t.CrossedInOrder now.follower.position next.target calls ∧
      (next.target = now.follower.position → calls = []) ∧
      (moved.track, moved.crossings.toList) = now.track.triggerAll f.crosser calls ∧
      moved.follower.position = next.target ∧
      t.Contains moved.follower.element next.target := by
  intro now calls moved
  have settled : Settled t f now :=
    settled_moveAll wf here moves fun m hm => reach m (List.mem_cons_of_mem _ hm)
  have reachNow : startOf now.track 0 ≤ next.target := by
    rw [← startOf_congr settled.layout]
    exact reach next (List.mem_cons_self ..)
  have passes : Passes now.track now.follower next.target calls moved :=
    passes_moveTo (settled.layout.wellFormed wf) settled.contains next.mode reachNow
  have layout : t.SameLayout moved.track := settled.layout.trans passes.settled.layout
  refine ⟨settled.layout.symm.crossedInOrder passes.crossed, ?_, ?_, passes.position,
    layout.symm.contains passes.contains⟩
  · intro stays
    refine List.eq_nil_iff_forall_not_mem.2 fun call hcall => ?_
    obtain ⟨e, ev, -, -, ⟨-, h₁, h₂⟩ | ⟨-, h₁, h₂⟩⟩ := (passes.crossed.mem_iff call).1 hcall
    · exact (h₁.trans_le h₂).ne' stays
    · exact (h₁.trans_lt h₂).ne stays
  · rw [passes.triggered, settled.crosser]

/-! ## A track with markers -/

/-- A straight element with speed limits at some offsets. -/
def markedElement (start : ℚ) (offsets : List ℚ) : Element ℚ where
  start := start
  frame := .initial
  radius := 0
  cant := 0
  cantTangent := 0
  pitch := 0
  adhesion := 1
  accuracy := 2
  events := offsets.map fun d => ⟨d, .limit .unlimited .unlimited, false⟩

/-- Three elements, with an event at the very start of the second. -/
def markedTrack : Track ℚ :=
  ⟨#[markedElement 0 [10], markedElement 25 [0, 24], markedElement 50 [25]]⟩

theorem getElem?_markedTrack {i : Nat} {e : Element ℚ} (h : markedTrack.elements[i]? = some e) :
    i = 0 ∧ e = markedElement 0 [10] ∨ i = 1 ∧ e = markedElement 25 [0, 24] ∨
      i = 2 ∧ e = markedElement 50 [25] := by
  match i with
  | 0 | 1 | 2 => simp [markedTrack] at h; simp [h]
  | i + 3 => simp [markedTrack] at h

theorem wellFormed_markedTrack : markedTrack.WellFormed where
  start_lt_start i j e e' he he' hij := by
    rcases getElem?_markedTrack he with ⟨rfl, rfl⟩ | ⟨rfl, rfl⟩ | ⟨rfl, rfl⟩ <;>
      rcases getElem?_markedTrack he' with ⟨rfl, rfl⟩ | ⟨rfl, rfl⟩ | ⟨rfl, rfl⟩ <;>
      first | omega | norm_num [markedElement]
  offset_nonneg i e he ev hev := by
    rcases getElem?_markedTrack he with ⟨-, rfl⟩ | ⟨-, rfl⟩ | ⟨-, rfl⟩ <;>
      simp [markedElement] at hev <;> grind
  offset_lt i e e' he he' ev hev := by
    rcases getElem?_markedTrack he with ⟨rfl, rfl⟩ | ⟨rfl, rfl⟩ | ⟨rfl, rfl⟩ <;>
      rcases getElem?_markedTrack he' with ⟨h, rfl⟩ | ⟨h, rfl⟩ | ⟨h, rfl⟩ <;>
      first | omega | (simp [markedElement] at hev; simp [markedElement]; grind)

/-- A follower that has gone to the start of the second element and then beyond the last event comes
back to the start of the second element. -/
theorem move_after_moves_markedTrack :
    let now := (initial ⟨.camera, none⟩).moveAll markedTrack
      [⟨⟨true, false⟩, 25⟩, ⟨⟨true, false⟩, 80⟩]
    let moved := now.follower.moveTo now.track ⟨true, false⟩ 25
    markedTrack.CrossedInOrder 80 25 [⟨2, 0, -1⟩, ⟨1, 0, -1⟩, ⟨1, 1, -1⟩] ∧
      moved.crossings.size = 3 ∧ moved.follower.element = 1 ∧ markedTrack.Contains 1 25 := by
  intro now moved
  have here : markedTrack.Contains 0 0 := by
    refine ⟨markedElement 0 [10], rfl, by decide, fun e' he' => ?_⟩
    obtain ⟨h, -⟩ | ⟨-, rfl⟩ | ⟨h, -⟩ := getElem?_markedTrack he'
    · simp at h
    · decide
    · simp at h
  obtain ⟨crossed, -, -, -, contains⟩ := move_after_moves wellFormed_markedTrack
    (f := initial ⟨.camera, none⟩) here [⟨⟨true, false⟩, 25⟩, ⟨⟨true, false⟩, 80⟩]
    ⟨⟨true, false⟩, 25⟩ (by decide)
  have position : now.follower.position = 80 := by decide
  have calls : now.follower.calls now.track 25 = [⟨2, 0, -1⟩, ⟨1, 0, -1⟩, ⟨1, 1, -1⟩] := by
    with_unfolding_all decide
  have element : moved.follower.element = 1 := by decide
  refine ⟨?_, by with_unfolding_all decide, element, ?_⟩
  · rw [← position, ← calls]
    exact crossed
  · simp only [element, now, moved] at contains
    exact contains

end Follower

end RailRoute
