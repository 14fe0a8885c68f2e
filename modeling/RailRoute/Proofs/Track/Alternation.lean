import Mathlib
import RailRoute.Proofs.Track.Repetition

/-!
# In which directions an event is triggered

A move triggers an event if it passes it. An event that never falls silent is triggered forwards and
backwards by turns, as long as the follower does not turn round on it: where a move ends, the event
is triggered, and where the next one begins it is not, so a follower that comes to the event and
goes back triggers it once only. Main statement: `directions_alternate`.
-/

namespace RailRoute

/-- Whether directions alternate when they follow a first one. -/
def AlternatesFrom (first : Int) (directions : List Int) : Prop :=
  (first :: directions).IsChain fun a b => b = -a

/-- Whether directions alternate, beginning with forward. -/
def Alternates (directions : List Int) : Prop := AlternatesFrom (-1) directions

theorem alternatesFrom_cons {first d : Int} {rest : List Int} :
    AlternatesFrom first (d :: rest) ↔ d = -first ∧ AlternatesFrom d rest :=
  List.isChain_cons_cons

theorem AlternatesFrom.shorten {first : Int} {xs ys : List Int} (h : AlternatesFrom first ys)
    (le : xs <+: ys) : AlternatesFrom first xs :=
  List.IsChain.prefix h (List.cons_prefix_cons.2 ⟨rfl, le⟩)

/-! ## Passing a position -/

namespace Passing

variable {R : Type} [LinearOrder R] {p q x : R}

/-- The direction in which a move passes a position, if it does. Coming from the position is not
passing it, and arriving there is. -/
def passage (p old new : R) : List Int :=
  if old < p ∧ p ≤ new then [1] else if new ≤ p ∧ p < old then [-1] else []

/-- The directions in which moves pass a position. -/
def passages (p : R) : R → List R → List Int
  | _, [] => []
  | old, new :: rest => passage p old new ++ passages p new rest

/-- Whether two positions lie on the same side of another one. -/
def SameSide (p a b : R) : Prop := a < p ∧ b < p ∨ p < a ∧ p < b

/-- Whether someone who is at these positions, one after the other, turns round at `p`: comes there,
perhaps stays for a while, and leaves to the side it came from. -/
def TurnsAt (p : R) : List R → Prop
  | a :: q :: rest =>
    q = p ∧ (∃ b, rest.find? (· ≠ p) = some b ∧ SameSide p a b) ∨ TurnsAt p (q :: rest)
  | _ => False

/-- The direction in which one got to a side of a position. -/
def sideOf (p q : R) : Int := if q < p then -1 else 1

theorem passage_from (p x : R) : passage p p x = [] := by
  simp [passage]

theorem passage_to (h : q ≠ p) : passage p q p = [-sideOf p q] := by
  rcases lt_or_gt_of_ne h with h | h <;> simp [passage, sideOf, h, h.not_gt]

theorem passage_same (h : SameSide p q x) : passage p q x = [] ∧ sideOf p x = sideOf p q := by
  rcases h with ⟨hq, hx⟩ | ⟨hq, hx⟩
  · simp [passage, sideOf, hq, hx, hq.not_gt, hx.not_ge]
  · simp [passage, sideOf, hq, hq.not_gt, hx.not_gt, hx.not_ge]

theorem passage_opposite (hq : q ≠ p) (hx : x ≠ p) (h : ¬ SameSide p q x) :
    passage p q x = [-sideOf p q] ∧ sideOf p x = -sideOf p q := by
  rcases lt_or_gt_of_ne hq with hq | hq <;> rcases lt_or_gt_of_ne hx with hx | hx
  · exact absurd (Or.inl ⟨hq, hx⟩) h
  · simp [passage, sideOf, hq, hx.le, hx.not_gt]
  · simp [passage, sideOf, hq, hx, hx.le, hq.not_gt]
  · exact absurd (Or.inr ⟨hq, hx⟩) h

theorem neg_sideOf_ne (p q : R) : -sideOf p q ≠ sideOf p q := by
  unfold sideOf
  split_ifs <;> decide

theorem prefix_passages_append (p q : R) (xs ys : List R) :
    passages p q xs <+: passages p q (xs ++ ys) := by
  induction xs generalizing q with
  | nil => exact List.nil_prefix
  | cons x xs ih => exact (List.prefix_append_right_inj _).2 (ih x)

/-- Who last passed the position in the direction away from the side it is on now, passes it once
more in the same direction. -/
theorem not_alternatesFrom_of_turned (targets : List R) (hq : q ≠ p) :
    ¬ AlternatesFrom (-sideOf p q) (passages p q (targets ++ [p])) := by
  induction targets generalizing q with
  | nil => simp [passages, passage_to hq, alternatesFrom_cons, neg_sideOf_ne]
  | cons x rest ih =>
    rw [List.cons_append, passages]
    by_cases hx : x = p
    · simp [hx, passage_to hq, alternatesFrom_cons, neg_sideOf_ne]
    by_cases same : SameSide p q x
    · obtain ⟨nothing, side⟩ := passage_same same
      rw [nothing, List.nil_append, ← side]
      exact ih hx
    · simp [(passage_opposite hq hx same).1, alternatesFrom_cons, neg_sideOf_ne]

/-- Directions alternate until one turns round on the position, and not any more when one comes back
to it after that. The induction goes through two states: beside the position, and on it after having
come from `a`. -/
theorem alternatesFrom_iff (p : R) (targets : List R) :
    (∀ q, q ≠ p → (AlternatesFrom (sideOf p q) (passages p q (targets ++ [p])) ↔
      ¬ TurnsAt p (q :: targets))) ∧
    ∀ a, a ≠ p → (AlternatesFrom (-sideOf p a) (passages p p (targets ++ [p])) ↔
      ¬ ((∃ b, targets.find? (· ≠ p) = some b ∧ SameSide p a b) ∨ TurnsAt p (p :: targets))) := by
  induction targets with
  | nil =>
    refine ⟨fun q hq => ?_, fun a ha => ?_⟩
    · simp [passages, passage_to hq, TurnsAt, AlternatesFrom]
    · simp [passages, passage_from, TurnsAt, AlternatesFrom]
  | cons x rest ih =>
    obtain ⟨beside, on⟩ := ih
    refine ⟨fun q hq => ?_, fun a ha => ?_⟩
    · rw [List.cons_append, passages]
      by_cases hx : x = p
      · subst hx
        rw [passage_to hq, List.singleton_append, alternatesFrom_cons, on q hq]
        simp [TurnsAt]
      have turns : TurnsAt p (q :: x :: rest) ↔ TurnsAt p (x :: rest) := by simp [TurnsAt, hx]
      rw [turns, ← beside x hx]
      by_cases same : SameSide p q x
      · obtain ⟨nothing, side⟩ := passage_same same
        rw [nothing, List.nil_append, side]
      · obtain ⟨once, side⟩ := passage_opposite hq hx same
        rw [once, List.singleton_append, alternatesFrom_cons, side]
        simp
    · rw [List.cons_append, passages, passage_from, List.nil_append]
      by_cases hx : x = p
      · subst hx
        rw [on a ha]
        simp [TurnsAt, SameSide]
      have turns : TurnsAt p (p :: x :: rest) ↔ TurnsAt p (x :: rest) := by simp [TurnsAt, hx]
      have next : (x :: rest).find? (· ≠ p) = some x := by simp [hx]
      rw [turns, next]
      by_cases same : SameSide p a x
      · rw [← (passage_same same).2]
        simp [not_alternatesFrom_of_turned rest hx, same]
      · rw [← (passage_opposite ha hx same).2, beside x hx]
        simp [same]

theorem alternates_of_not_turnsAt {targets : List R} (hq : q < p)
    (h : ¬ TurnsAt p (q :: targets)) : Alternates (passages p q targets) := by
  have whole := ((alternatesFrom_iff p targets).1 q hq.ne).2 h
  have side : sideOf p q = -1 := if_pos hq
  rw [side] at whole
  exact whole.shorten (prefix_passages_append p q targets [p])

theorem not_alternates_of_turnsAt {targets : List R} (hq : q < p) (h : TurnsAt p (q :: targets)) :
    ¬ Alternates (passages p q (targets ++ [p])) := by
  have side : sideOf p q = -1 := if_pos hq
  intro alternates
  rw [Alternates, ← side] at alternates
  exact ((alternatesFrom_iff p targets).1 q hq.ne).1 alternates h

/-- Who never gets before a position passes it backwards only. -/
theorem eq_neg_one_of_mem_passages {targets : List R} (hq : p ≤ q) (h : ∀ x ∈ targets, p ≤ x) :
    ∀ d ∈ passages p q targets, d = -1 := by
  induction targets generalizing q with
  | nil => simp [passages]
  | cons x rest ih =>
    obtain ⟨hx, hrest⟩ := List.forall_mem_cons.1 h
    refine List.forall_mem_append.2 ⟨?_, ih hx hrest⟩
    unfold passage
    rw [if_neg fun h => hq.not_gt h.1]
    split_ifs <;> simp

end Passing

/-! ## What is reported of one event -/

theorem Event.trigger_of_not_latches {R : Type} {ev : Event R} (latched : ev.latched = false)
    (latches : ev.kind.latches = false) (direction : Int) (c : Crosser) :
    ev.trigger direction c = (ev, some ⟨ev, direction, ev.kind.effects direction c⟩) := by
  cases ev
  simp_all [Event.trigger]

namespace Track

variable {R : Type}

/-- Triggers events one after the other, and keeps with each crossing the call it comes from. -/
def reported (t : Track R) (c : Crosser) : List TriggerCall → List (TriggerCall × Crossing R)
  | [] => []
  | call :: rest =>
    let first := t.trigger c call
    first.2.map (call, ·) ++ reported first.1 c rest

theorem map_snd_reported (t : Track R) (c : Crosser) (calls : List TriggerCall) :
    (t.reported c calls).map (·.2) = (t.triggerAll c calls).2 := by
  induction calls generalizing t with
  | nil => rfl
  | cons call rest ih => simp [reported, triggerAll, ih]

/-- The directions in which the event at a place is triggered. -/
def directionsAt (t : Track R) (c : Crosser) (calls : List TriggerCall) (place : Nat × Nat) :
    List Int :=
  ((t.reported c calls).filter fun x => x.1.place = place).map (·.2.direction)

theorem event?_congr (t : Track R) {call other : TriggerCall} (h : call.place = other.place) :
    t.event? call = t.event? other := by
  obtain ⟨helement, hevent⟩ := Prod.mk.inj h
  rw [event?, event?, helement, hevent]

theorem event?_trigger (t : Track R) (c : Crosser) (call : TriggerCall) :
    (t.trigger c call).1.event? call =
      (t.event? call).map fun ev => (ev.trigger call.direction c).1 := by
  unfold trigger
  cases he : t.elements[call.element]? with
  | none => simp [event?, he]
  | some e =>
    dsimp only
    cases hev : e.events[call.event]? with
    | none => simp [event?, he, hev]
    | some ev =>
      obtain ⟨hi, -⟩ := Array.getElem?_eq_some_iff.1 he
      obtain ⟨hk, rfl⟩ := List.getElem?_eq_some_iff.1 hev
      simp [event?, getElem?_setElement hi, he, hk]

/-- An event that never falls silent is triggered by each of its calls. -/
theorem directionsAt_eq (t : Track R) (c : Crosser) (calls : List TriggerCall)
    {spot : TriggerCall} {ev : Event R} (hev : t.event? spot = some ev)
    (latched : ev.latched = false) (latches : ev.kind.latches = false) :
    t.directionsAt c calls spot.place =
      (calls.filter fun call => call.place = spot.place).map (·.direction) := by
  induction calls generalizing t with
  | nil => rfl
  | cons call rest ih =>
    unfold directionsAt at ih ⊢
    rw [reported, List.filter_append, List.map_append]
    by_cases h : call.place = spot.place
    · have here : t.event? call = some ev := (t.event?_congr h).trans hev
      have after : (t.trigger c call).1.event? spot = some ev := by
        rw [← event?_congr _ h, event?_trigger, here, Option.map_some,
          Event.trigger_of_not_latches latched latches]
      rw [ih _ after, crossings_trigger, here, Option.bind_some,
        Event.trigger_of_not_latches latched latches]
      simp [h]
    · have after : (t.trigger c call).1.event? spot = some ev :=
        (t.event?_trigger_of_ne c h).trans hev
      rw [ih _ after]
      simp [h]

/-- Whether the event at a place of the track stands at a position. -/
def StandsAt [Scalar R] (t : Track R) (place : Nat × Nat) (p : R) : Prop :=
  ∃ e ev, t.elements[place.1]? = some e ∧ e.events[place.2]? = some ev ∧ e.start + ev.offset = p

theorem SameLayout.standsAt [Scalar R] {t t' : Track R} (h : t.SameLayout t') {place : Nat × Nat}
    {p : R} (hp : t.StandsAt place p) : t'.StandsAt place p := by
  obtain ⟨e, ev, he, hev, rfl⟩ := hp
  obtain ⟨e', he', hl⟩ := h.getElem? he
  obtain ⟨ev', hev', ho⟩ := exists_event hl hev
  exact ⟨e', ev', he', hev', by rw [start_eq hl, ho]⟩

variable [ExactScalar R] {t : Track R} {old new p : R} {calls : List TriggerCall}

theorem CrossedInOrder.mem_iff_passed (h : t.CrossedInOrder old new calls) {call : TriggerCall}
    (hp : t.StandsAt call.place p) : call ∈ calls ↔
      call.direction = 1 ∧ old < p ∧ p ≤ new ∨ call.direction = -1 ∧ new ≤ p ∧ p < old := by
  obtain ⟨e, ev, he, hev, rfl⟩ := hp
  rw [h.mem_iff]
  constructor
  · rintro ⟨e', ev', he', hev', hcases⟩
    obtain rfl := Option.some.inj (he.symm.trans he')
    obtain rfl := Option.some.inj (hev.symm.trans hev')
    exact hcases
  · exact fun hcases => ⟨e, ev, he, hev, hcases⟩

/-- A call of a place is told by its direction. -/
theorem CrossedInOrder.filter_eq_singleton (h : t.CrossedInOrder old new calls)
    {place : Nat × Nat} {d : Int}
    (only : ∀ call ∈ calls, call.place = place → call.direction = d)
    (mem : ⟨place.1, place.2, d⟩ ∈ calls) :
    (calls.filter fun call => call.place = place) = [⟨place.1, place.2, d⟩] := by
  refine List.perm_singleton.1 ((List.perm_ext_iff_of_nodup (h.nodup.filter _)
    (List.nodup_singleton _)).2 fun call => ?_)
  rw [List.mem_filter, List.mem_singleton, decide_eq_true_iff]
  constructor
  · rintro ⟨hcall, rfl⟩
    rw [← only call hcall rfl]
    rfl
  · rintro rfl
    exact ⟨mem, rfl⟩

open Passing in
/-- Of the events between two positions, the one at a place is there once if the move passes it. -/
theorem CrossedInOrder.directions (h : t.CrossedInOrder old new calls) {place : Nat × Nat}
    (hp : t.StandsAt place p) :
    (calls.filter fun call => call.place = place).map (·.direction) = passage p old new := by
  have crossed (call : TriggerCall) (hplace : call.place = place) : call ∈ calls ↔
      call.direction = 1 ∧ old < p ∧ p ≤ new ∨ call.direction = -1 ∧ new ≤ p ∧ p < old :=
    h.mem_iff_passed (hplace ▸ hp)
  unfold passage
  split_ifs with hforth hback
  · rw [h.filter_eq_singleton (fun call hcall hplace => ?_)
      ((crossed _ rfl).2 (Or.inl ⟨rfl, hforth⟩))]
    · rfl
    · rcases (crossed call hplace).1 hcall with ⟨hd, -⟩ | ⟨-, -, hlt⟩
      · exact hd
      · exact absurd hlt hforth.1.not_gt
  · rw [h.filter_eq_singleton (fun call hcall hplace => ?_)
      ((crossed _ rfl).2 (Or.inr ⟨rfl, hback⟩))]
    · rfl
    · rcases (crossed call hplace).1 hcall with ⟨-, hlt, -⟩ | ⟨hd, -⟩
      · exact absurd hlt hback.2.not_gt
      · exact hd
  · rw [List.map_eq_nil_iff, List.filter_eq_nil_iff]
    intro call hcall hplace
    rcases (crossed call (of_decide_eq_true hplace)).1 hcall with ⟨-, hc⟩ | ⟨-, hc⟩
    · exact hforth hc
    · exact hback hc

end Track

/-! ## Runs -/

namespace Follower

variable {R : Type}

/-- The calls that moves make, one after the other. -/
def callsAlong [Scalar R] (f : Follower R) (t : Track R) : List (Move R) → List TriggerCall
  | [] => []
  | m :: rest =>
    let moved := f.moveTo t m.mode m.target
    f.calls t m.target ++ callsAlong moved.follower moved.track rest

theorem moveAll_eq_triggerAll [Scalar R] (f : Follower R) (t : Track R) (moves : List (Move R)) :
    let moved := f.moveAll t moves
    (moved.track, moved.crossings.toList) = t.triggerAll f.crosser (f.callsAlong t moves) := by
  induction moves generalizing f t with
  | nil => rfl
  | cons m rest ih =>
    have first := f.moveTo_eq_triggerAll t m.mode m.target
    have others := ih (f.moveTo t m.mode m.target).follower (f.moveTo t m.mode m.target).track
    rw [crosser_moveTo] at others
    rw [Prod.ext_iff] at first others
    simp only [callsAlong, Track.triggerAll_append, ← first.1, ← first.2, ← others.1, ← others.2]
    simp [moveAll]

variable [ExactScalar R]

open Passing in
theorem directions_callsAlong {t : Track R} (wf : t.WellFormed) {f : Follower R}
    (here : t.Contains f.element f.position) (moves : List (Move R))
    (reach : ∀ m ∈ moves, startOf t 0 ≤ m.target) {place : Nat × Nat} {p : R}
    (hp : t.StandsAt place p) :
    ((f.callsAlong t moves).filter fun call => call.place = place).map (·.direction) =
      passages p f.position (moves.map (·.target)) := by
  induction moves generalizing t f with
  | nil => rfl
  | cons m rest ih =>
    have passes := passes_moveTo wf here m.mode (reach m (List.mem_cons_self ..))
    have settled := passes.settled
    have others := ih (settled.layout.wellFormed wf) settled.contains (fun m' hm' => by
      rw [← startOf_congr settled.layout]
      exact reach m' (List.mem_cons_of_mem _ hm')) (settled.layout.standsAt hp)
    rw [passes.position] at others
    rw [callsAlong, List.filter_append, List.map_append, passes.crossed.directions hp, others]
    rfl

/-! ## Assembled tracks -/

omit [ExactScalar R] in
theorem latched_of_assemble [Scalar R] {l : Line R} {t : Tables R} {i : Nat} {e : Element R}
    (he : (Assembly.assemble l t).elements[i]? = some e) {ev : Event R} (hev : ev ∈ e.events) :
    ev.latched = false := by
  obtain ⟨-, -, hevents⟩ := Assembly.eq_of_getElem?_assemble he
  rw [hevents, List.mem_append] at hev
  rcases hev with hev | hev
  · obtain ⟨x, -, rfl⟩ := List.mem_map.1 hev
    rfl
  · obtain ⟨-, rfl⟩ := Assembly.mem_endIn.1 hev
    rfl

open Passing in
/-- Along any moves of a fresh follower to positions not before the start of the track, an event
that does not fall silent and stands behind the start is triggered forwards and backwards by turns,
as long as the follower does not turn round on it; and if it does, then no more than the way back
to the event is missing for a repetition. An event at the very start is triggered backwards only. -/
theorem directions_alternate {l : Line R} (t : Tables R) (blocks : 0 < l.blocks.size)
    (hi : 0 < l.interval) (stands : l.Stands (0 ≤ ·)) (finishes : ∀ m ∈ l.markers, 0 ≤ m.finish)
    (c : Crosser) (moves : List (Move R)) (reach : ∀ m ∈ moves, 0 ≤ m.target) {i k : Nat}
    {e : Element R} {ev : Event R} (he : (Assembly.assemble l t).elements[i]? = some e)
    (hev : e.events[k]? = some ev) (latches : ev.kind.latches = false) :
    let track := Assembly.assemble l t
    let calls := (initial c).callsAlong track
    let directions (ms : List (Move R)) := track.directionsAt c (calls ms) (i, k)
    let p := e.start + ev.offset
    let positions := 0 :: moves.map (·.target)
    ((initial c).moveAll track moves).crossings.toList =
        (track.reported c (calls moves)).map (·.2) ∧
      (0 < p → ¬ TurnsAt p positions → Alternates (directions moves)) ∧
      (0 < p → TurnsAt p positions → ∀ mode, ¬ Alternates (directions (moves ++ [⟨mode, p⟩]))) ∧
      (p = 0 → ∀ d ∈ directions moves, d = -1) := by
  intro track calls directions p positions
  have lies := Assembly.liesAt_sortedEvents stands finishes hi t.train
  have wf : track.WellFormed := Assembly.wellFormed_assemble t hi fun x hx => (lies x hx).1
  have here : track.Contains 0 0 := contains_zero_assemble t blocks hi
  have first : startOf track 0 = 0 := (startOf_assemble l t blocks).trans l.blockStart_zero
  have standsAt : track.StandsAt (i, k) p := ⟨e, ev, he, hev, rfl⟩
  have latched := latched_of_assemble he (List.mem_of_getElem? hev)
  have passed (ms : List (Move R)) (hms : ∀ m ∈ ms, 0 ≤ m.target) :
      directions ms = passages p 0 (ms.map (·.target)) := by
    have found : track.event? ⟨i, k, 1⟩ = some ev := Track.event?_eq_some.2 ⟨e, he, hev⟩
    refine (track.directionsAt_eq c (calls ms) found latched latches).trans ?_
    exact directions_callsAlong wf (f := initial c) here ms (by rwa [first]) standsAt
  refine ⟨?_, fun hp turns => ?_, fun hp turns mode => ?_, fun hp => ?_⟩
  · rw [Track.map_snd_reported]
    exact congrArg Prod.snd ((initial c).moveAll_eq_triggerAll track moves)
  · rw [passed moves reach]
    exact alternates_of_not_turnsAt hp turns
  · rw [passed _ (by simpa [or_imp, forall_and] using ⟨reach, hp.le⟩), List.map_append]
    exact not_alternates_of_turnsAt hp turns
  · rw [passed moves reach, hp]
    exact eq_neg_one_of_mem_passages le_rfl (by simpa using reach)

/-! ### Two lines -/

section Lines

open Assembly Passing

/-- Moves to positions. -/
def visiting {R : Type} (positions : List R) : List (Move R) :=
  positions.map fun x => ⟨⟨false, false⟩, x⟩

/-- The directions in which the camera triggers an event when it visits positions. -/
def directionsOn {R : Type} [Scalar R] (l : Line R) (place : Nat × Nat) (positions : List R) :
    List Int :=
  let track := assemble l .initial
  let camera : Crosser := ⟨.camera, none⟩
  track.directionsAt camera ((initial camera).callsAlong track (visiting positions)) place

theorem directions_alternate_markedLine :
    (∀ m ∈ visiting [(20 : ℚ), 5, 40, 5], 0 ≤ m.target) ∧
      ¬ TurnsAt 10 [(0 : ℚ), 20, 5, 40, 5] ∧
      directionsOn markedLine (0, 0) [20, 5, 40, 5] = [1, -1, 1, -1] ∧
      Alternates (directionsOn markedLine (0, 0) [20, 5, 40, 5]) := by
  have reach : ∀ m ∈ visiting [(20 : ℚ), 5, 40, 5], 0 ≤ m.target := by decide
  have straight : ¬ TurnsAt 10 [(0 : ℚ), 20, 5, 40, 5] := by norm_num [TurnsAt]
  have limit : (assemble markedLine (.initial : Tables ℚ)).event? ⟨0, 0, 1⟩ =
      some ⟨10, .limit .unlimited (.limited 20), false⟩ := by
    rw [assemble_markedLine]
    with_unfolding_all decide
  obtain ⟨e, he, hev⟩ := Track.event?_eq_some.1 limit
  have start : e.start + 10 = 10 := by
    obtain ⟨-, hstart, -⟩ := eq_of_getElem?_assemble he
    rw [hstart, Line.blockStart_zero, zero_add]
  obtain ⟨-, alternate, -, -⟩ := directions_alternate (.initial : Tables ℚ) (by decide)
    (by decide) stands_markedLine (by decide) ⟨.camera, none⟩ _ reach he hev rfl
  rw [start] at alternate
  refine ⟨reach, straight, ?_, alternate (by norm_num) straight⟩
  rw [directionsOn, assemble_markedLine]
  with_unfolding_all decide

/-- A line of short blocks, with a speed limit at what ought to be the start of the last one. The
nearest floating-point number lies before it. -/
def fineLine : Line Float :=
  { Line.initial 0.1 0 with
    blocks := (Array.replicate 17 (Block.initial 0)).push
      { Block.initial 0 with limits := #[⟨1.7, .limited 20, 0, 0⟩] } }

theorem assemble_fineLine : assemble fineLine (.initial : Tables Float) =
    ⟨placeEvents 0.1 [(1.7, .limit .unlimited (.limited 20))] (placeEnd 0.1 (withTangents
      (layElements .unsigned 0.1 0 .zero .forward fineLine.blocks.toList).toArray))⟩ := by
  have collected : collectEvents fineLine (.initial : Tables Float).train =
      [(1.7, .limit .unlimited (.limited 20))] := rfl
  have sorted : sortedEvents fineLine (.initial : Tables Float).train =
      [(1.7, .limit .unlimited (.limited 20))] := by
    rw [sortedEvents, collected]
    exact List.mergeSort_singleton _
  rw [← sorted]
  rfl

/-- Who turns round on an event triggers it in the same direction again. With rounding, the event of
`fineLine` lies a little ahead of its element: who stops there and goes on does not trigger it, and
triggers it backwards first. -/
theorem not_alternates_markedLine_fineLine :
    (directionsOn markedLine (0, 0) [10, 5, 10] = [1, 1] ∧ ¬ Alternates [1, 1]) ∧
      directionsOn fineLine (17, 0) [1.7, 1.75, 0] = [-1] ∧ ¬ Alternates [-1] := by
  refine ⟨⟨?_, by simp [Alternates, AlternatesFrom]⟩, ?_, by simp [Alternates, AlternatesFrom]⟩
  · rw [directionsOn, assemble_markedLine]
    with_unfolding_all decide
  · rw [directionsOn, assemble_fineLine]
    decide

end Lines

end Follower

end RailRoute
