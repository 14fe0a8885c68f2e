import Mathlib
import RailRoute.Proofs.Track.Triggering

/-!
# Where events lie

A track is well formed if its elements start one behind the other and the events of each lie inside
of it. This, the element of a position and the events between two positions are all told from the
layout of a track, so they outlast the falling silent of events.
-/

namespace RailRoute

variable {R : Type}

namespace Track

variable [Scalar R]

/-- Elements start one behind the other, and their events lie inside of them. -/
structure WellFormed (t : Track R) : Prop where
  start_lt_start : ∀ (i j : Nat) (e e' : Element R), t.elements[i]? = some e →
    t.elements[j]? = some e' → i < j → e.start < e'.start
  offset_nonneg : ∀ (i : Nat) (e : Element R), t.elements[i]? = some e →
    ∀ ev ∈ e.events, 0 ≤ ev.offset
  offset_lt : ∀ (i : Nat) (e e' : Element R), t.elements[i]? = some e →
    t.elements[i + 1]? = some e' → ∀ ev ∈ e.events, ev.offset < e'.start - e.start

/-- Whether a position belongs to an element: it is not before its start, but before the next
one's. -/
def Contains (t : Track R) (i : Nat) (x : R) : Prop :=
  ∃ e, t.elements[i]? = some e ∧ e.start ≤ x ∧
    ∀ e', t.elements[i + 1]? = some e' → x < e'.start

/-- Whether a call triggers an event that lies between two positions, in the direction from the old
one to the new one. -/
def IsCrossed (t : Track R) (old new : R) (call : TriggerCall) : Prop :=
  ∃ e ev, t.elements[call.element]? = some e ∧ e.events[call.event]? = some ev ∧
    (call.direction = 1 ∧ old < e.start + ev.offset ∧ e.start + ev.offset ≤ new ∨
      call.direction = -1 ∧ new ≤ e.start + ev.offset ∧ e.start + ev.offset < old)

end Track

/-- Whether a call comes before another one on the way: elements are visited in the direction of the
move, and the events of each in their order. -/
def TriggerCall.Precedes (a b : TriggerCall) : Prop :=
  if a.element = b.element then a.event < b.event
  else if 0 < a.direction then a.element < b.element else b.element < a.element

/-- Calls that trigger the events between two positions, each once, in the order of the way. -/
structure Track.CrossedInOrder [Scalar R] (t : Track R) (old new : R) (calls : List TriggerCall) :
    Prop where
  mem_iff : ∀ call, call ∈ calls ↔ t.IsCrossed old new call
  nodup : calls.Nodup
  ordered : calls.Pairwise TriggerCall.Precedes

/-! ## Tracks with one layout -/

namespace Track

variable {t t' : Track R}

theorem SameLayout.start_eq {e e' : Element R} (h : e'.layout = e.layout) : e'.start = e.start :=
  congrArg Prod.fst h

theorem SameLayout.exists_event {e e' : Element R} (h : e'.layout = e.layout) {ev : Event R}
    {k : Nat} (hev : e.events[k]? = some ev) :
    ∃ ev', e'.events[k]? = some ev' ∧ ev'.offset = ev.offset := by
  have := congrArg (·[k]?) (congrArg Prod.snd h)
  simp only [Element.layout, List.getElem?_map, hev, Option.map_some] at this
  exact Option.map_eq_some_iff.1 this

variable [Scalar R]

theorem SameLayout.contains (h : t.SameLayout t') {i : Nat} {x : R} (hx : t.Contains i x) :
    t'.Contains i x := by
  obtain ⟨e, he, hstart, hnext⟩ := hx
  obtain ⟨e', he', hl⟩ := h.getElem? he
  refine ⟨e', he', by rwa [start_eq hl], fun n' hn' => ?_⟩
  obtain ⟨n, hn, hl⟩ := h.symm.getElem? hn'
  rw [← start_eq hl]
  exact hnext n hn

theorem SameLayout.wellFormed (h : t.SameLayout t') (wf : t.WellFormed) : t'.WellFormed where
  start_lt_start i j e e' he he' hij := by
    obtain ⟨d, hd, hl⟩ := h.symm.getElem? he
    obtain ⟨d', hd', hl'⟩ := h.symm.getElem? he'
    rw [← start_eq hl, ← start_eq hl']
    exact wf.start_lt_start i j d d' hd hd' hij
  offset_nonneg i e he ev hev := by
    obtain ⟨d, hd, hl⟩ := h.symm.getElem? he
    obtain ⟨k, hk⟩ := List.mem_iff_getElem?.1 hev
    obtain ⟨ev', hev', ho⟩ := exists_event hl hk
    rw [← ho]
    exact wf.offset_nonneg i d hd ev' (List.mem_of_getElem? hev')
  offset_lt i e e' he he' ev hev := by
    obtain ⟨d, hd, hl⟩ := h.symm.getElem? he
    obtain ⟨d', hd', hl'⟩ := h.symm.getElem? he'
    obtain ⟨k, hk⟩ := List.mem_iff_getElem?.1 hev
    obtain ⟨ev', hev', ho⟩ := exists_event hl hk
    rw [← ho, ← start_eq hl, ← start_eq hl']
    exact wf.offset_lt i d d' hd hd' ev' (List.mem_of_getElem? hev')

theorem SameLayout.isCrossed (h : t.SameLayout t') {old new : R} {call : TriggerCall}
    (hc : t.IsCrossed old new call) : t'.IsCrossed old new call := by
  obtain ⟨e, ev, he, hev, hp⟩ := hc
  obtain ⟨e', he', hl⟩ := h.getElem? he
  obtain ⟨ev', hev', ho⟩ := exists_event hl hev
  exact ⟨e', ev', he', hev', by rwa [start_eq hl, ho]⟩

theorem SameLayout.crossedInOrder (h : t.SameLayout t') {old new : R} {calls : List TriggerCall}
    (hc : t.CrossedInOrder old new calls) : t'.CrossedInOrder old new calls where
  mem_iff call := (hc.mem_iff call).trans ⟨h.isCrossed, h.symm.isCrossed⟩
  nodup := hc.nodup
  ordered := hc.ordered

end Track

end RailRoute
