import Mathlib
import RailRoute.Proofs.Arithmetic
import RailRoute.Proofs.Track.Layout

/-!
# The route of a move

A move leads from one element back to another one and from there forward to the element of its
target; at least one of the two ways is empty. The stretches of the elements that it leaves reach a
little beyond their starts. No event lies there, because offsets are not negative and stay
below the length of their element, so the stretches cross just the events between the two positions.
Main statements: `Route.isCrossed_of_mem`, `Route.mem_of_isCrossed` and `Route.pairwise_visits`.
-/

namespace RailRoute

variable {R : Type}

/-! ## The calls of visits -/

section Calls

variable [Scalar R]

theorem Track.mem_callsOf {t : Track R} {v : Visit R} {call : TriggerCall} :
    call ∈ t.callsOf v ↔ ∃ e ev, t.elements[v.element]? = some e ∧ call.element = v.element ∧
      e.events[call.event]? = some ev ∧ v.crosses ev.offset ∧ call.direction = v.direction := by
  cases h : t.elements[v.element]? with
  | none => simp [Track.callsOf, h]
  | some e =>
    obtain ⟨element, event, direction⟩ := call
    simp only [Track.callsOf, h, Visit.callsFrom, List.mem_map, List.mem_filter, Prod.exists,
      List.mem_zipIdx_iff_getElem?, TriggerCall.mk.injEq, Option.some.injEq]
    constructor
    · rintro ⟨ev, k, ⟨hev, hc⟩, rfl, rfl, rfl⟩
      exact ⟨e, ev, rfl, rfl, hev, hc, rfl⟩
    · rintro ⟨e', ev, rfl, rfl, hev, hc, rfl⟩
      exact ⟨ev, event, ⟨hev, hc⟩, rfl, rfl, rfl⟩

theorem Track.pairwise_callsOf (t : Track R) (v : Visit R) :
    (t.callsOf v).Pairwise TriggerCall.Precedes := by
  cases h : t.elements[v.element]? with
  | none => simp [Track.callsOf, h]
  | some e =>
    simp only [Track.callsOf, h, Visit.callsFrom, List.pairwise_map]
    refine List.Pairwise.filter _ ?_
    have places : (e.events.zipIdx.map (·.2)).Pairwise (· < ·) := by
      rw [List.zipIdx_map_snd]
      exact List.pairwise_lt_range'
    rw [List.pairwise_map] at places
    exact places.imp fun h => by simpa [TriggerCall.Precedes] using h

theorem Visit.crosses_forward {v : Visit R} (h : v.direction = 1) {d : R} :
    v.crosses d ↔ v.source < d ∧ d ≤ v.target := by
  simp [Visit.crosses, h]

theorem Visit.crosses_backward {v : Visit R} (h : v.direction = -1) {d : R} :
    v.crosses d ↔ d < v.source ∧ v.target ≤ d := by
  simp [Visit.crosses, h]

/-- Whether a visit is made before another one on the way. -/
def Visit.Precedes (v w : Visit R) : Prop :=
  v.element ≠ w.element ∧ if 0 < v.direction then v.element < w.element else w.element < v.element

theorem Track.pairwise_flatMap_callsOf (t : Track R) {vs : List (Visit R)}
    (h : vs.Pairwise Visit.Precedes) : (vs.flatMap t.callsOf).Pairwise TriggerCall.Precedes := by
  refine List.pairwise_flatMap.2 ⟨fun v _ => t.pairwise_callsOf v, h.imp ?_⟩
  rintro v w ⟨hne, hvw⟩ a ha b hb
  obtain ⟨-, -, -, ha, -, -, da⟩ := mem_callsOf.1 ha
  obtain ⟨-, -, -, hb, -, -, -⟩ := mem_callsOf.1 hb
  simpa [TriggerCall.Precedes, ha, hb, da, hne] using hvw

theorem TriggerCall.Precedes.ne {a b : TriggerCall} (h : a.Precedes b) : a ≠ b := by
  rintro rfl
  simp [TriggerCall.Precedes] at h

end Calls

/-! ## Plans -/

namespace Follower

section Plans

variable [Scalar R] {t : Track R}

theorem startOf_eq {i : Nat} {e : Element R} (h : t.elements[i]? = some e) :
    startOf t i = e.start := by
  simp [startOf, h]

theorem nextStart?_eq_some {i : Nat} {next : R} (h : t.nextStart? i = some next) :
    next = startOf t (i + 1) ∧ i + 1 < t.elements.size := by
  obtain ⟨e, he, rfl⟩ := Option.map_eq_some_iff.1 h
  obtain ⟨hi, -⟩ := Array.getElem?_eq_some_iff.1 he
  exact ⟨(startOf_eq he).symm, hi⟩

omit [Scalar R] in
theorem nextStart?_eq_none {i : Nat} (h : t.nextStart? i = none) : t.elements.size ≤ i + 1 := by
  simpa [Track.nextStart?] using h

/-- The way back ends in the first element, from the given one downward, that does not start behind
the target, and leaves those above it. -/
theorem planBackward_eq (source : R) {target : R} (reach : startOf t 0 ≤ target) (i : Nat) :
    ∃ j ≤ i, startOf t j ≤ target ∧ (∀ k, j < k → k ≤ i → ¬ startOf t k ≤ target) ∧
      planBackward t source target i =
        (j, (List.range' (j + 1) (i - j)).reverse.map (visitBackward t source)) := by
  induction i with
  | zero =>
    refine ⟨0, le_rfl, reach, fun k h₁ h₂ => by omega, ?_⟩
    simp [planBackward, reach]
  | succ i ih =>
    by_cases h : startOf t (i + 1) ≤ target
    · refine ⟨i + 1, le_rfl, h, fun k h₁ h₂ => by omega, ?_⟩
      simp [planBackward, h]
    · obtain ⟨j, hj, hstart, hleft, hplan⟩ := ih
      refine ⟨j, by omega, hstart, fun k h₁ h₂ => ?_, ?_⟩
      · rcases Nat.lt_or_ge i k with hk | hk
        · rwa [show k = i + 1 by omega]
        · exact hleft k h₁ hk
      · have last : i + 1 - j = (i - j) + 1 := by omega
        have top : j + 1 + (i - j) = i + 1 := by omega
        simp [planBackward, h, hplan, last, List.range'_concat, top]

/-- The way forward ends in the last element, from the given one upward, that does not start behind
the target, and leaves those below it. -/
theorem planForward_eq (source : R) {target : R} (fuel : Nat) {i : Nat}
    (enough : t.elements.size ≤ fuel + i) (hi : i < t.elements.size)
    (hstart : ¬ target < startOf t i) :
    ∃ j, i ≤ j ∧ j < t.elements.size ∧ ¬ target < startOf t j ∧
      (j + 1 < t.elements.size → target < startOf t (j + 1)) ∧
      planForward t source target fuel i =
        (j, (List.range' i (j - i)).map fun k => visitForward t source (startOf t (k + 1)) k) := by
  induction fuel generalizing i with
  | zero => omega
  | succ fuel ih =>
    cases hnext : t.nextStart? i with
    | none =>
      have := nextStart?_eq_none hnext
      exact ⟨i, le_rfl, hi, hstart, fun h => by omega, by simp [planForward, hnext]⟩
    | some next =>
      obtain ⟨rfl, hi'⟩ := nextStart?_eq_some hnext
      by_cases h : target < startOf t (i + 1)
      · exact ⟨i, le_rfl, hi, hstart, fun _ => h, by simp [planForward, hnext, h]⟩
      · obtain ⟨j, hj, hjs, hs, hbehind, hplan⟩ := ih (by omega) hi' h
        refine ⟨j, by omega, hjs, hs, hbehind, ?_⟩
        have first : j - i = (j - (i + 1)) + 1 := by omega
        simp [planForward, hnext, h, hplan, first, List.range'_succ]

/-- The visit of the element where a move ends. -/
def lastVisit (t : Track R) (source target : R) (i : Nat) : Visit R :=
  ⟨i, finalDirection (source - startOf t i) (target - startOf t i), source - startOf t i,
    target - startOf t i⟩

end Plans

/-! ## The stretches of a plan -/

section Exact

variable [ExactScalar R] {t : Track R} {old new : R} {i j k : Nat}

theorem startOf_lt_startOf (wf : t.WellFormed) (h : i < j) (hj : j < t.elements.size) :
    startOf t i < startOf t j := by
  have hi := Array.getElem?_eq_getElem (h.trans hj)
  have hj := Array.getElem?_eq_getElem hj
  rw [startOf_eq hi, startOf_eq hj]
  exact wf.start_lt_start i j _ _ hi hj h

theorem startOf_le_startOf (wf : t.WellFormed) (h : i ≤ j) (hj : j < t.elements.size) :
    startOf t i ≤ startOf t j := by
  rcases h.eq_or_lt with rfl | h
  · exact le_rfl
  · exact (startOf_lt_startOf wf h hj).le

theorem contains_iff : t.Contains i new ↔ i < t.elements.size ∧ startOf t i ≤ new ∧
    (i + 1 < t.elements.size → new < startOf t (i + 1)) := by
  constructor
  · rintro ⟨e, he, hstart, hnext⟩
    obtain ⟨hi, -⟩ := Array.getElem?_eq_some_iff.1 he
    refine ⟨hi, by rwa [startOf_eq he], fun hi' => ?_⟩
    have he' := Array.getElem?_eq_getElem hi'
    rw [startOf_eq he']
    exact hnext _ he'
  · rintro ⟨hi, hstart, hnext⟩
    have he := Array.getElem?_eq_getElem hi
    refine ⟨_, he, by rwa [← startOf_eq he], fun e' he' => ?_⟩
    obtain ⟨hi', -⟩ := Array.getElem?_eq_some_iff.1 he'
    rw [← startOf_eq he']
    exact hnext hi'

/-- How a move from element `i` goes on: back to element `j`, from there forward to element `k`,
which contains the new position. -/
structure Route (t : Track R) (new : R) (i j k : Nat) : Prop where
  back_le : j ≤ i
  start_back : startOf t j ≤ new
  left_back : ∀ m, j < m → m ≤ i → new < startOf t m
  le_last : j ≤ k
  contains : t.Contains k new

/-- The visits of such a move. -/
def Route.visits (t : Track R) (old new : R) (i j k : Nat) : List (Visit R) :=
  (List.range' (j + 1) (i - j)).reverse.map (visitBackward t old) ++
    (List.range' j (k - j)).map (fun m => visitForward t old (startOf t (m + 1)) m) ++
    [lastVisit t old new k]

theorem exists_route (old : R) (hi : i < t.elements.size) (reach : startOf t 0 ≤ new) :
    ∃ j k, Route t new i j k ∧ plan t i old new = (k, Route.visits t old new i j k) := by
  obtain ⟨j, hj, hstart, hleft, hback⟩ := planBackward_eq old reach i
  obtain ⟨k, hk, hks, hkstart, hbehind, hforth⟩ :=
    planForward_eq old (t.elements.size - j) (by omega) (hj.trans_lt hi) hstart.not_gt
  refine ⟨j, k, ⟨hj, hstart, fun m h₁ h₂ => not_le.1 (hleft m h₁ h₂), hk, ?_⟩, ?_⟩
  · exact contains_iff.2 ⟨hks, not_lt.1 hkstart, hbehind⟩
  · have here : min i (t.elements.size - 1) = i := by omega
    simp only [plan, here, hback, hforth]
    rfl

/-- A move turns only once it has left nothing backwards. -/
theorem Route.back_or_forth (wf : t.WellFormed) (r : Route t new i j k) : j = i ∨ k = j := by
  obtain ⟨hks, hk, -⟩ := contains_iff.1 r.contains
  by_contra! h
  have hj := r.back_le
  have hjk := r.le_last
  have turned : new < startOf t (j + 1) := r.left_back (j + 1) (by omega) (by omega)
  have := startOf_le_startOf wf (show j + 1 ≤ k by omega) hks
  linarith

/-! ## What the stretches cross -/

theorem crosses_visitBackward (d : R) : (visitBackward t old i).crosses d ↔
    d < old - startOf t i ∧ -(1 / 100) ≤ d := by
  rw [Visit.crosses_backward rfl]
  norm_num [visitBackward, ExactScalar.fixed_eq]

theorem crosses_visitForward (next d : R) : (visitForward t old next i).crosses d ↔
    old - startOf t i < d ∧ d ≤ next - startOf t i + 1 / 100 := by
  rw [Visit.crosses_forward rfl]
  norm_num [visitForward, ExactScalar.fixed_eq]

theorem lastVisit_direction (t : Track R) (old new : R) (i : Nat) :
    (lastVisit t old new i).direction =
    if old < new then 1 else if new < old then -1 else 0 := by
  simp [lastVisit, finalDirection]

theorem crosses_lastVisit (d : R) : (lastVisit t old new i).crosses d ↔
    old < startOf t i + d ∧ startOf t i + d ≤ new ∨
      new ≤ startOf t i + d ∧ startOf t i + d < old := by
  have direction := lastVisit_direction t old new i
  rcases lt_trichotomy old new with h | rfl | h
  · rw [if_pos h] at direction
    rw [Visit.crosses_forward direction]
    simp only [lastVisit]
    grind
  · rw [if_neg (lt_irrefl _), if_neg (lt_irrefl _)] at direction
    simp only [Visit.crosses, direction]
    grind
  · rw [if_neg h.not_gt, if_pos h] at direction
    rw [Visit.crosses_backward direction]
    simp only [lastVisit]
    grind

theorem Route.mem_visits {v : Visit R} : v ∈ Route.visits t old new i j k ↔
    (∃ m, j < m ∧ m ≤ i ∧ v = visitBackward t old m) ∨
      (∃ m, j ≤ m ∧ m < k ∧ v = visitForward t old (startOf t (m + 1)) m) ∨
      v = lastVisit t old new k := by
  simp only [visits, List.mem_append, List.mem_map, List.mem_reverse, List.mem_range'_1,
    List.mem_singleton, or_assoc]
  refine or_congr (exists_congr fun m => ?_) (or_congr_left (exists_congr fun m => ?_))
  · constructor
    · rintro ⟨hm, rfl⟩
      exact ⟨by omega, by omega, rfl⟩
    · rintro ⟨h₁, h₂, rfl⟩
      exact ⟨by omega, rfl⟩
  · constructor
    · rintro ⟨hm, rfl⟩
      exact ⟨by omega, by omega, rfl⟩
    · rintro ⟨h₁, h₂, rfl⟩
      exact ⟨by omega, rfl⟩

/-- An event of an element that is followed by another one lies before the start of that one. -/
theorem position_lt_next (wf : t.WellFormed) {m : Nat} {e : Element R} {ev : Event R}
    (he : t.elements[m]? = some e) (hev : ev ∈ e.events) (hm : m + 1 < t.elements.size) :
    startOf t m + ev.offset < startOf t (m + 1) := by
  have he' := Array.getElem?_eq_getElem hm
  have := wf.offset_lt m e _ he he' ev hev
  rw [startOf_eq he, startOf_eq he']
  linarith

/-- Every event that the visits of a move trigger lies between the old position and the new one. -/
theorem Route.isCrossed_of_mem (wf : t.WellFormed) (r : Route t new i j k) {call : TriggerCall}
    (h : call ∈ (visits t old new i j k).flatMap t.callsOf) : t.IsCrossed old new call := by
  obtain ⟨hks, hk, -⟩ := contains_iff.1 r.contains
  obtain ⟨v, hv, hcall⟩ := List.mem_flatMap.1 h
  obtain ⟨e, ev, he, helement, hev, hcross, hdir⟩ := Track.mem_callsOf.1 hcall
  refine ⟨e, ev, helement ▸ he, hev, ?_⟩
  have hmem := List.mem_of_getElem? hev
  have hstart := startOf_eq he
  have hpos := wf.offset_nonneg _ e he ev hmem
  rcases mem_visits.1 hv with ⟨m, hjm, hmi, rfl⟩ | ⟨m, hjm, hmk, rfl⟩ | rfl
  · have behind := r.left_back m hjm hmi
    rw [crosses_visitBackward] at hcross
    right
    refine ⟨hdir, ?_, ?_⟩ <;> simp only [visitBackward] at hstart <;> linarith
  · have inside := position_lt_next wf he hmem (by simp only [visitForward]; omega)
    have upTo := startOf_le_startOf wf (show m + 1 ≤ k by omega) hks
    rw [crosses_visitForward] at hcross
    left
    refine ⟨hdir, ?_, ?_⟩ <;> simp only [visitForward] at hstart inside <;> linarith
  · rw [lastVisit_direction] at hdir
    rw [crosses_lastVisit] at hcross
    rw [← hstart]
    simp only [lastVisit] at *
    rcases hcross with ⟨h₁, h₂⟩ | ⟨h₁, h₂⟩
    · exact Or.inl ⟨by rw [hdir, if_pos (h₁.trans_le h₂)], h₁, h₂⟩
    · have back : new < old := h₁.trans_lt h₂
      exact Or.inr ⟨by rw [hdir, if_neg back.not_gt, if_pos back], h₁, h₂⟩

section Mem

variable {call : TriggerCall} {e : Element R} {ev : Event R}

theorem mem_flatMap_callsOf {vs : List (Visit R)} {v : Visit R} (hv : v ∈ vs)
    (he : t.elements[call.element]? = some e) (hev : e.events[call.event]? = some ev)
    (helement : call.element = v.element) (hcross : v.crosses ev.offset)
    (hdir : call.direction = v.direction) : call ∈ vs.flatMap t.callsOf :=
  List.mem_flatMap.2
    ⟨v, hv, Track.mem_callsOf.2 ⟨e, ev, helement ▸ he, helement, hev, hcross, hdir⟩⟩

theorem Route.mem_of_forward (wf : t.WellFormed) (here : t.Contains i old) (r : Route t new i j k)
    (he : t.elements[call.element]? = some e) (hev : e.events[call.event]? = some ev)
    (hdir : call.direction = 1) (h₁ : old < startOf t call.element + ev.offset)
    (h₂ : startOf t call.element + ev.offset ≤ new) :
    call ∈ (visits t old new i j k).flatMap t.callsOf := by
  obtain ⟨his, hi, -⟩ := contains_iff.1 here
  obtain ⟨hks, hk, hkbehind⟩ := contains_iff.1 r.contains
  obtain ⟨hms, -⟩ := Array.getElem?_eq_some_iff.1 he
  have hmem := List.mem_of_getElem? hev
  have hpos := wf.offset_nonneg _ e he ev hmem
  have inside := position_lt_next wf he hmem
  have hmk : call.element ≤ k := by
    by_contra! hlt
    have := startOf_le_startOf wf (show k + 1 ≤ call.element by omega) hms
    have := hkbehind (by omega)
    linarith
  have him : i ≤ call.element := by
    by_contra! hlt
    have := startOf_le_startOf wf (show call.element + 1 ≤ i by omega) his
    have := inside (by omega)
    linarith
  rcases hmk.eq_or_lt with rfl | hmk
  · refine mem_flatMap_callsOf (mem_visits.2 (Or.inr (Or.inr rfl))) he hev rfl ?_ ?_
    · exact (crosses_lastVisit _).2 (Or.inl ⟨h₁, h₂⟩)
    · rw [hdir, lastVisit_direction, if_pos (h₁.trans_le h₂)]
  · have hback := r.back_le
    refine mem_flatMap_callsOf
      (mem_visits.2 (Or.inr (Or.inl ⟨call.element, by omega, hmk, rfl⟩))) he hev rfl ?_ hdir
    have := inside (by omega)
    exact (crosses_visitForward _ _).2 ⟨by linarith, by linarith⟩

theorem Route.mem_of_backward (wf : t.WellFormed) (here : t.Contains i old) (r : Route t new i j k)
    (he : t.elements[call.element]? = some e) (hev : e.events[call.event]? = some ev)
    (hdir : call.direction = -1) (h₁ : new ≤ startOf t call.element + ev.offset)
    (h₂ : startOf t call.element + ev.offset < old) :
    call ∈ (visits t old new i j k).flatMap t.callsOf := by
  obtain ⟨-, -, hibehind⟩ := contains_iff.1 here
  obtain ⟨hks, hk, -⟩ := contains_iff.1 r.contains
  obtain ⟨hms, -⟩ := Array.getElem?_eq_some_iff.1 he
  have hmem := List.mem_of_getElem? hev
  have hpos := wf.offset_nonneg _ e he ev hmem
  have inside := position_lt_next wf he hmem
  have hmi : call.element ≤ i := by
    by_contra! hlt
    have := startOf_le_startOf wf (show i + 1 ≤ call.element by omega) hms
    have := hibehind (by omega)
    linarith
  have hkm : k ≤ call.element := by
    by_contra! hlt
    have := startOf_le_startOf wf (show call.element + 1 ≤ k by omega) hks
    have := inside (by omega)
    linarith
  rcases hkm.eq_or_lt with rfl | hkm
  · refine mem_flatMap_callsOf (mem_visits.2 (Or.inr (Or.inr rfl))) he hev rfl ?_ ?_
    · exact (crosses_lastVisit _).2 (Or.inr ⟨h₁, h₂⟩)
    · have back : new < old := h₁.trans_lt h₂
      rw [hdir, lastVisit_direction, if_neg back.not_gt, if_pos back]
  · have hjk := r.le_last
    refine mem_flatMap_callsOf
      (mem_visits.2 (Or.inl ⟨call.element, by omega, hmi, rfl⟩)) he hev rfl ?_ hdir
    exact (crosses_visitBackward _).2 ⟨by linarith, by linarith⟩

/-- Every event between the old position and the new one is triggered by some visit of the move. -/
theorem Route.mem_of_isCrossed (wf : t.WellFormed) (here : t.Contains i old)
    (r : Route t new i j k) (h : t.IsCrossed old new call) :
    call ∈ (visits t old new i j k).flatMap t.callsOf := by
  obtain ⟨e, ev, he, hev, hcases⟩ := h
  rw [← startOf_eq he] at hcases
  rcases hcases with ⟨hdir, h₁, h₂⟩ | ⟨hdir, h₁, h₂⟩
  · exact r.mem_of_forward wf here he hev hdir h₁ h₂
  · exact r.mem_of_backward wf here he hev hdir h₁ h₂

end Mem

theorem pairwise_visitBackward (t : Track R) (old : R) (first count : Nat) :
    ((List.range' first count).reverse.map (visitBackward t old)).Pairwise Visit.Precedes := by
  rw [List.pairwise_map, List.pairwise_reverse]
  have ascending : (List.range' first count).Pairwise (· < ·) := List.pairwise_lt_range'
  refine ascending.imp fun h => ?_
  simp only [Visit.Precedes, visitBackward]
  exact ⟨h.ne', by simpa using h⟩

theorem pairwise_visitForward (t : Track R) (old : R) (first count : Nat) :
    ((List.range' first count).map fun m =>
      visitForward t old (startOf t (m + 1)) m).Pairwise Visit.Precedes := by
  rw [List.pairwise_map]
  have ascending : (List.range' first count).Pairwise (· < ·) := List.pairwise_lt_range'
  refine ascending.imp fun h => ?_
  simp only [Visit.Precedes, visitForward]
  exact ⟨h.ne, by simpa using h⟩

/-- The visits of a move follow the way. -/
theorem Route.pairwise_visits (old : R) (wf : t.WellFormed) (r : Route t new i j k) :
    (visits t old new i j k).Pairwise Visit.Precedes := by
  have hj := r.back_le
  have hjk := r.le_last
  -- Visits backwards and forwards never meet, and what is left backwards lies behind the end.
  have turn := r.back_or_forth wf
  refine List.pairwise_append.2 ⟨List.pairwise_append.2
    ⟨pairwise_visitBackward .., pairwise_visitForward .., ?_⟩, by simp, ?_⟩
  · intro v hv w hw
    obtain ⟨m, hm, rfl⟩ := List.mem_map.1 hv
    obtain ⟨m', hm', rfl⟩ := List.mem_map.1 hw
    rw [List.mem_reverse, List.mem_range'_1] at hm
    rw [List.mem_range'_1] at hm'
    omega
  · intro v hv w hw
    obtain rfl := List.mem_singleton.1 hw
    rcases List.mem_append.1 hv with hv | hv
    · obtain ⟨m, hm, rfl⟩ := List.mem_map.1 hv
      rw [List.mem_reverse, List.mem_range'_1] at hm
      simp only [Visit.Precedes, visitBackward, lastVisit]
      exact ⟨by omega, by simp; omega⟩
    · obtain ⟨m, hm, rfl⟩ := List.mem_map.1 hv
      rw [List.mem_range'_1] at hm
      simp only [Visit.Precedes, visitForward, lastVisit]
      exact ⟨by omega, by simp; omega⟩

end Exact

end Follower

end RailRoute
