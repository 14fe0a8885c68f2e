import Mathlib
import RailRoute.Track.Follower

/-!
# Triggering events one at a time

A move of a follower is carried out as a list of visits, each of which crosses several events of one
element. Here it is taken apart: `Visit.calls` lists the events that a visit crosses, in order, and
`Track.triggerAll` triggers listed events one after the other. Main statement:
`visitAll_eq_triggerAll`, that visiting is triggering what the visits list.
-/

namespace RailRoute

variable {R : Type}

/-- An event of a track, by its element and its place among the events of the element, that is to be
triggered in a direction. -/
structure TriggerCall where
  element : Nat
  event : Nat
  direction : Int
  deriving DecidableEq, Repr

namespace Track

/-- The track with an element replaced. -/
def setElement (t : Track R) (i : Nat) (e : Element R) : Track R := ⟨t.elements.set! i e⟩

/-- Triggers one event. -/
def trigger (t : Track R) (c : Crosser) (call : TriggerCall) : Track R × List (Crossing R) :=
  match t.elements[call.element]? with
  | none => (t, [])
  | some e =>
    match e.events[call.event]? with
    | none => (t, [])
    | some ev =>
      let triggered := ev.trigger call.direction c
      (t.setElement call.element { e with events := e.events.set call.event triggered.1 },
        triggered.2.toList)

/-- Triggers events one after the other. -/
def triggerAll (t : Track R) (c : Crosser) : List TriggerCall → Track R × List (Crossing R)
  | [] => (t, [])
  | call :: rest =>
    let first := t.trigger c call
    let others := triggerAll first.1 c rest
    (others.1, first.2 ++ others.2)

theorem triggerAll_append (t : Track R) (c : Crosser) (xs ys : List TriggerCall) :
    t.triggerAll c (xs ++ ys) =
      (((t.triggerAll c xs).1.triggerAll c ys).1,
        (t.triggerAll c xs).2 ++ ((t.triggerAll c xs).1.triggerAll c ys).2) := by
  induction xs generalizing t with
  | nil => rfl
  | cons call rest ih => simp [triggerAll, ih, List.append_assoc]

theorem getElem?_setElement {t : Track R} {i : Nat} (hi : i < t.elements.size) (e : Element R) :
    (t.setElement i e).elements[i]? = some e := by
  simp [setElement, hi]

theorem getElem?_setElement_of_ne (t : Track R) {i j : Nat} (h : i ≠ j) (e : Element R) :
    (t.setElement i e).elements[j]? = t.elements[j]? := by
  simp [setElement, h]

theorem setElement_setElement (t : Track R) (i : Nat) (e e' : Element R) :
    (t.setElement i e).setElement i e' = t.setElement i e' := by
  simp [setElement]

theorem setElement_self {t : Track R} {i : Nat} {e : Element R} (h : t.elements[i]? = some e) :
    t.setElement i e = t := by
  obtain ⟨hi, rfl⟩ := Array.getElem?_eq_some_iff.1 h
  simp [setElement, Array.setIfInBounds, hi]

end Track

/-! ## Places do not change -/

@[simp] theorem Event.trigger_offset (ev : Event R) (direction : Int) (c : Crosser) :
    (ev.trigger direction c).1.offset = ev.offset := by
  unfold Event.trigger
  split_ifs <;> rfl

/-- Where an element starts, and the offsets of its events. -/
def Element.layout (e : Element R) : R × List R := (e.start, e.events.map (·.offset))

/-- Whether two tracks have their elements and events at the same places. -/
def Track.SameLayout (t t' : Track R) : Prop :=
  ∀ i : Nat, t.elements[i]?.map Element.layout = t'.elements[i]?.map Element.layout

namespace Track

theorem SameLayout.trans {t t' t'' : Track R} (h : t.SameLayout t') (h' : t'.SameLayout t'') :
    t.SameLayout t'' :=
  fun i => (h i).trans (h' i)

theorem SameLayout.getElem? {t t' : Track R} (h : t.SameLayout t') {i : Nat} {e : Element R}
    (he : t.elements[i]? = some e) : ∃ e', t'.elements[i]? = some e' ∧ e'.layout = e.layout := by
  have := h i
  rw [he, Option.map_some] at this
  exact Option.map_eq_some_iff.1 this.symm

theorem SameLayout.symm {t t' : Track R} (h : t.SameLayout t') : t'.SameLayout t :=
  fun i => (h i).symm

theorem sameLayout_trigger (t : Track R) (c : Crosser) (call : TriggerCall) :
    t.SameLayout (t.trigger c call).1 := by
  unfold trigger
  split
  · exact fun _ => rfl
  · rename_i e he
    split
    · exact fun _ => rfl
    · rename_i ev hev
      intro i
      by_cases h : call.element = i
      · subst h
        obtain ⟨hi, -⟩ := Array.getElem?_eq_some_iff.1 he
        obtain ⟨hk, hev⟩ := List.getElem?_eq_some_iff.1 hev
        have offsets : (e.events.set call.event (ev.trigger call.direction c).1).map (·.offset) =
            e.events.map (·.offset) := by
          rw [List.map_set, Event.trigger_offset, ← List.map_set, ← hev, List.set_getElem_self]
        rw [getElem?_setElement hi, he]
        simp [Element.layout, offsets]
      · rw [getElem?_setElement_of_ne t h]

theorem sameLayout_triggerAll (t : Track R) (c : Crosser) (calls : List TriggerCall) :
    t.SameLayout (t.triggerAll c calls).1 := by
  induction calls generalizing t with
  | nil => exact fun _ => rfl
  | cons call rest ih => exact (t.sameLayout_trigger c call).trans (ih _)

end Track

variable [Scalar R]

/-! ## The calls of a visit -/

/-- The events that a visit crosses among `events`, the first of which stands at place `first`. -/
def Visit.callsFrom (v : Visit R) (first : Nat) (events : List (Event R)) : List TriggerCall :=
  ((events.zipIdx first).filter fun x => v.crosses x.1.offset).map
    fun x => ⟨v.element, x.2, v.direction⟩

/-- The events of a track that a visit crosses, in their order. -/
def Track.callsOf (t : Track R) (v : Visit R) : List TriggerCall :=
  match t.elements[v.element]? with
  | none => []
  | some e => v.callsFrom 0 e.events

theorem Visit.callsFrom_cons (v : Visit R) (first : Nat) (ev : Event R) (rest : List (Event R)) :
    v.callsFrom first (ev :: rest) =
      if v.crosses ev.offset then
        ⟨v.element, first, v.direction⟩ :: v.callsFrom (first + 1) rest
      else v.callsFrom (first + 1) rest := by
  by_cases h : v.crosses ev.offset <;> simp [callsFrom, List.zipIdx_cons, h]

/-- Crossing the remaining events of an element is triggering them one at a time. The events in
front of them, `done`, only shift the places. -/
theorem triggerAll_callsFrom (t : Track R) (v : Visit R) (c : Crosser) (e : Element R)
    (hi : v.element < t.elements.size) (done rest : List (Event R)) :
    (t.setElement v.element { e with events := done ++ rest }).triggerAll c
        (v.callsFrom done.length rest) =
      (t.setElement v.element
          { e with events := done ++ (rest.map (v.crossEvent c)).map (·.1) },
        (rest.map (v.crossEvent c)).filterMap (·.2)) := by
  induction rest generalizing done with
  | nil => simp [Visit.callsFrom, Track.triggerAll]
  | cons ev rest ih =>
    by_cases h : v.crosses ev.offset
    · have first : (t.setElement v.element { e with events := done ++ ev :: rest }).trigger c
          ⟨v.element, done.length, v.direction⟩ =
          (t.setElement v.element
              { e with events := (done ++ [(ev.trigger v.direction c).1]) ++ rest },
            (ev.trigger v.direction c).2.toList) := by
        simp only [Track.trigger, Track.getElem?_setElement hi]
        simp [Track.setElement_setElement]
      have others := ih (done ++ [(ev.trigger v.direction c).1])
      rw [List.length_append, List.length_singleton] at others
      rw [Visit.callsFrom_cons, if_pos h, Track.triggerAll, first]
      simp only [others]
      cases hcrossing : (ev.trigger v.direction c).2 <;>
        simp [Visit.crossEvent, h, hcrossing]
    · have others := ih (done ++ [ev])
      rw [List.length_append, List.length_singleton, List.append_assoc, List.singleton_append]
        at others
      rw [Visit.callsFrom_cons, if_neg h, others]
      simp [Visit.crossEvent, h]

theorem visit_eq_triggerAll (t : Track R) (c : Crosser) (v : Visit R) :
    t.visit c v = t.triggerAll c (t.callsOf v) := by
  cases h : t.elements[v.element]? with
  | none => simp [Track.visit, Track.callsOf, h, Track.triggerAll]
  | some e =>
    obtain ⟨hi, -⟩ := Array.getElem?_eq_some_iff.1 h
    have key := triggerAll_callsFrom t v c e hi [] e.events
    simp only [List.nil_append, List.length_nil, Track.setElement_self h] at key
    simp only [Track.visit, Track.callsOf, h, key]
    rfl

theorem Track.SameLayout.callsOf_eq {t t' : Track R} (h : t.SameLayout t') (v : Visit R) :
    t.callsOf v = t'.callsOf v := by
  have key : ∀ s : Track R, s.callsOf v =
      match s.elements[v.element]?.map Element.layout with
      | none => []
      | some layout => ((layout.2.zipIdx 0).filter fun x => v.crosses x.1).map
          fun x => ⟨v.element, x.2, v.direction⟩ := by
    intro s
    cases hs : s.elements[v.element]? with
    | none => simp [Track.callsOf, hs]
    | some e =>
      simp [Track.callsOf, hs, Visit.callsFrom, Element.layout, List.zipIdx_map, List.filter_map,
        Function.comp_def]
  rw [key, key, h]

/-- Visiting is triggering what the visits list. -/
theorem visitAll_eq_triggerAll (t : Track R) (c : Crosser) (vs : List (Visit R)) :
    t.visitAll c vs = t.triggerAll c (vs.flatMap t.callsOf) := by
  induction vs generalizing t with
  | nil => rfl
  | cons v rest ih =>
    have same : t.SameLayout (t.triggerAll c (t.callsOf v)).1 := t.sameLayout_triggerAll c _
    have later : rest.flatMap (t.triggerAll c (t.callsOf v)).1.callsOf =
        rest.flatMap t.callsOf :=
      List.flatMap_congr fun w _ => (same.callsOf_eq w).symm
    rw [List.flatMap_cons, Track.triggerAll_append, Track.visitAll, visit_eq_triggerAll, ih, later]

end RailRoute
