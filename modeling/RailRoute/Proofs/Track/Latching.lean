import Mathlib
import RailRoute.Proofs.Track.Alternation

/-!
# Sounds that are played once

Several followers move along one track by turns. Whether an event has fallen silent is kept with the
event, so it is the same for all of them: a sound that is played once is played by the first of them
whose crossing has an effect. Crossings before that one are reported without effects, and none
behind it is reported. All other events are reported whenever they are crossed. Main statement:
`reports_of_event`.
-/

namespace RailRoute

variable {R : Type}

/-- An event that is crossed, the direction, and who crosses it. -/
structure Approach where
  call : TriggerCall
  crosser : Crosser
  deriving DecidableEq, Repr

/-- What an event of some kind asks for when it is crossed. -/
def Approach.effects (a : Approach) (k : EventKind R) : List (Effect R) :=
  k.effects a.call.direction a.crosser

/-- What is reported of a crossing, unless the event has fallen silent. -/
def Approach.report (a : Approach) (ev : Event R) : Crossing R :=
  ⟨{ ev with latched := ev.kind.latches && !(a.effects ev.kind).isEmpty }, a.call.direction,
    a.effects ev.kind⟩

/-! ## One event -/

namespace Event

theorem trigger_of_latched {ev : Event R} (h : ev.latched = true) (direction : Int) (c : Crosser) :
    ev.trigger direction c = (ev, none) := if_pos h

/-- Before its first effect, an event stays as it was. -/
theorem trigger_of_isSilent {ev : Event R} (h : ev.latched = false) {a : Approach}
    (silent : (ev.kind.latches && !(a.effects ev.kind).isEmpty) = false) :
    ev.trigger a.call.direction a.crosser = (ev, some (a.report ev)) := by
  obtain ⟨offset, kind, latched⟩ := ev
  simp only [Approach.effects] at h silent
  simp [trigger, Approach.report, Approach.effects, h, silent]

theorem trigger_eq {ev : Event R} (h : ev.latched = false) (a : Approach) :
    ev.trigger a.call.direction a.crosser = ((a.report ev).event, some (a.report ev)) := by
  simp [trigger, h, Approach.report, Approach.effects]

/-- What is reported of an event that is approached several times. -/
def reports (ev : Event R) : List Approach → List (Crossing R)
  | [] => []
  | a :: rest =>
    let triggered := ev.trigger a.call.direction a.crosser
    triggered.2.toList ++ reports triggered.1 rest

theorem reports_of_latched {ev : Event R} (h : ev.latched = true) (as : List Approach) :
    ev.reports as = [] := by
  induction as with
  | nil => rfl
  | cons a as ih => simp [reports, trigger_of_latched h, ih]

theorem reports_of_not_latches {ev : Event R} (h : ev.latched = false)
    (latches : ev.kind.latches = false) (as : List Approach) :
    ev.reports as = as.map fun a => a.report ev := by
  induction as with
  | nil => rfl
  | cons a as ih =>
    have stays := trigger_of_isSilent h (a := a) (by rw [latches, Bool.false_and])
    simp [reports, stays, ih]

/-- An event that falls silent is reported up to its first effect. -/
theorem reports_of_latches {ev : Event R} (h : ev.latched = false)
    (latches : ev.kind.latches = true) (as : List Approach) :
    ∃ front back, as = front ++ back ∧ (∀ a ∈ front, a.effects ev.kind = []) ∧
      (∀ a ∈ back.head?, a.effects ev.kind ≠ []) ∧
      ev.reports as = (front ++ back.head?.toList).map fun a => a.report ev := by
  induction as with
  | nil => exact ⟨[], [], rfl, by simp, by simp, rfl⟩
  | cons a as ih =>
    by_cases silent : a.effects ev.kind = []
    · obtain ⟨front, back, rfl, before, first, reported⟩ := ih
      have stays := trigger_of_isSilent h (a := a) (by simp [silent])
      refine ⟨a :: front, back, rfl, ?_, first, ?_⟩
      · exact List.forall_mem_cons.2 ⟨silent, before⟩
      · simp [reports, stays, reported]
    · have latched : (a.report ev).event.latched = true := by
        simp [Approach.report, latches, silent]
      refine ⟨[], a :: as, rfl, by simp, by simpa using silent, ?_⟩
      simp [reports, trigger_eq h, reports_of_latched latched]

end Event

/-! ## The events of a track -/

namespace Track

/-- Triggers events one after the other, and keeps with each crossing where it comes from. -/
def reportAll (t : Track R) : List Approach → Track R × List (Approach × Crossing R)
  | [] => (t, [])
  | a :: rest =>
    let first := t.trigger a.crosser a.call
    let others := reportAll first.1 rest
    (others.1, first.2.map (a, ·) ++ others.2)

theorem reportAll_append (t : Track R) (xs ys : List Approach) :
    t.reportAll (xs ++ ys) =
      (((t.reportAll xs).1.reportAll ys).1,
        (t.reportAll xs).2 ++ ((t.reportAll xs).1.reportAll ys).2) := by
  induction xs generalizing t with
  | nil => rfl
  | cons a rest ih => simp [reportAll, ih, List.append_assoc]

/-- Calls of one crosser are triggered as before. -/
theorem reportAll_map (t : Track R) (c : Crosser) (calls : List TriggerCall) :
    let reported := t.reportAll (calls.map (⟨·, c⟩))
    (reported.1, reported.2.map (·.2)) = t.triggerAll c calls := by
  induction calls generalizing t with
  | nil => rfl
  | cons call rest ih =>
    have others := ih (t.trigger c call).1
    rw [Prod.ext_iff] at others
    simp only [List.map_cons, reportAll, triggerAll, ← others.1, ← others.2]
    simp

/-- What is reported of the event at a place. -/
def reportsAt (t : Track R) (as : List Approach) (place : Nat × Nat) : List (Crossing R) :=
  ((t.reportAll as).2.filter fun x => x.1.call.place = place).map (·.2)

/-- Each event is reported as if it were the only one. -/
theorem reportsAt_eq (t : Track R) (as : List Approach) {spot : TriggerCall} {ev : Event R}
    (hev : t.event? spot = some ev) :
    t.reportsAt as spot.place = ev.reports (as.filter fun a => a.call.place = spot.place) := by
  induction as generalizing t ev with
  | nil => rfl
  | cons a rest ih =>
    unfold reportsAt at ih ⊢
    rw [reportAll, List.filter_append, List.map_append]
    by_cases h : a.call.place = spot.place
    · have here : t.event? a.call = some ev := (t.event?_congr h).trans hev
      have after : (t.trigger a.crosser a.call).1.event? spot =
          some (ev.trigger a.call.direction a.crosser).1 := by
        rw [← event?_congr _ h, event?_trigger, here, Option.map_some]
      have first : ∀ x ∈ (t.trigger a.crosser a.call).2.map (a, ·),
          decide (x.1.call.place = spot.place) = true := by simp [h]
      rw [ih _ after, List.filter_eq_self.2 first, crossings_trigger, here, Option.bind_some]
      simp [h, Event.reports, Function.comp_def]
    · have after : (t.trigger a.crosser a.call).1.event? spot = some ev :=
        (t.event?_trigger_of_ne a.crosser h).trans hev
      rw [ih _ after]
      simp [h]

end Track

/-! ## Traffic -/

/-- Followers that move along one track. -/
structure Traffic (ι R : Type) where
  followers : ι → Follower R
  track : Track R

/-- A move of one of several followers. -/
structure Turn (ι R : Type) where
  who : ι
  move : Follower.Move R

namespace Traffic

variable {ι : Type} [DecidableEq ι] [Scalar R]

/-- Moves one of the followers, and returns the crossings that are reported. -/
def take (s : Traffic ι R) (turn : Turn ι R) : Traffic ι R × List (Crossing R) :=
  let moved := (s.followers turn.who).moveTo s.track turn.move.mode turn.move.target
  (⟨Function.update s.followers turn.who moved.follower, moved.track⟩, moved.crossings.toList)

/-- Moves followers by turns. -/
def run (s : Traffic ι R) : List (Turn ι R) → Traffic ι R × List (Crossing R)
  | [] => (s, [])
  | turn :: rest =>
    let first := s.take turn
    let others := run first.1 rest
    (others.1, first.2 ++ others.2)

/-- The events that a follower crosses when it moves, whether they are reported or not. -/
def approached (s : Traffic ι R) (turn : Turn ι R) : List Approach :=
  let f := s.followers turn.who
  (f.calls s.track turn.move.target).map (⟨·, f.crosser⟩)

/-- The events that followers cross by turns. -/
def approaches (s : Traffic ι R) : List (Turn ι R) → List Approach
  | [] => []
  | turn :: rest => s.approached turn ++ approaches (s.take turn).1 rest

theorem take_eq_reportAll (s : Traffic ι R) (turn : Turn ι R) :
    let reported := s.track.reportAll (s.approached turn)
    ((s.take turn).1.track, (s.take turn).2) = (reported.1, reported.2.map (·.2)) :=
  ((s.followers turn.who).moveTo_eq_triggerAll s.track turn.move.mode turn.move.target).trans
    (Track.reportAll_map ..).symm

/-- What is reported comes of the events that are crossed. -/
theorem run_eq_reportAll (s : Traffic ι R) (turns : List (Turn ι R)) :
    let reported := s.track.reportAll (s.approaches turns)
    ((s.run turns).1.track, (s.run turns).2) = (reported.1, reported.2.map (·.2)) := by
  induction turns generalizing s with
  | nil => rfl
  | cons turn rest ih =>
    obtain ⟨track, crossings⟩ := Prod.mk.inj (s.take_eq_reportAll turn)
    obtain ⟨trackBehind, crossingsBehind⟩ := Prod.mk.inj (ih (s.take turn).1)
    rw [track] at trackBehind crossingsBehind
    simp only [approaches, Track.reportAll_append, List.map_append, ← trackBehind,
      ← crossingsBehind, ← crossings]
    rfl

/-- Whoever moves along the track and in whatever order, what the observer is told of an event
depends on the event alone. A sound that is played once is reported whenever it is crossed up to the
first crossing with an effect, that is with playing the sound, and never again; so it is played once
at most. Every event that does not fall silent is reported whenever it is crossed. -/
theorem reports_of_event (s : Traffic ι R) (turns : List (Turn ι R)) {i k : Nat} {e : Element R}
    {ev : Event R} (he : s.track.elements[i]? = some e) (hev : e.events[k]? = some ev) :
    let crossings := (s.approaches turns).filter fun a => a.call.place = (i, k)
    let reports := s.track.reportsAt (s.approaches turns) (i, k)
    (s.run turns).2 = (s.track.reportAll (s.approaches turns)).2.map (·.2) ∧
      (ev.latched = true → reports = []) ∧
      (ev.latched = false → ∀ file playerTrainOnly dynamic position speed,
        ev.kind = .sound file playerTrainOnly true dynamic position speed →
          (reports.flatMap (·.effects)).length ≤ 1 ∧
          ∃ front back, crossings = front ++ back ∧ (∀ a ∈ front, a.effects ev.kind = []) ∧
            (∀ a ∈ back.head?, a.effects ev.kind = [.playSound file position speed]) ∧
            reports = (front ++ back.head?.toList).map fun a => a.report ev) ∧
      (ev.latched = false → ev.kind.latches = false →
        reports = crossings.map fun a => a.report ev) := by
  intro crossings reports
  have found : s.track.event? ⟨i, k, 1⟩ = some ev := Track.event?_eq_some.2 ⟨e, he, hev⟩
  have alone : reports = ev.reports crossings := s.track.reportsAt_eq (s.approaches turns) found
  refine ⟨congrArg Prod.snd (s.run_eq_reportAll turns), fun latched => ?_,
    fun sounding file playerTrainOnly dynamic position speed sound => ?_,
    fun sounding latches => ?_⟩
  · rw [alone, Event.reports_of_latched latched]
  · obtain ⟨front, back, parts, before, first, reported⟩ :=
      Event.reports_of_latches sounding (by rw [sound]; rfl) crossings
    have plays : ∀ a ∈ back.head?, a.effects ev.kind = [.playSound file position speed] := by
      intro a ha
      have audible := first a ha
      simp only [Approach.effects, sound, EventKind.effects] at audible ⊢
      split_ifs at audible ⊢ <;> first | rfl | exact absurd rfl audible
    refine ⟨?_, front, back, parts, before, plays, alone.trans reported⟩
    have quiet : (front.map fun a => a.report ev).flatMap (·.effects) = [] := by
      simpa [Approach.report] using before
    rw [alone, reported, List.map_append, List.flatMap_append, quiet, List.nil_append]
    cases hfirst : back.head? with
    | none => simp
    | some a => simp [Approach.report, plays a hfirst]
  · rw [alone, Event.reports_of_not_latches sounding latches]

/-! ### An announcement -/

/-- An announcement for the player's train. -/
def doors : Event ℚ := ⟨10, .sound "doors.wav" true true false .zero 0, false⟩

/-- A speed limit. -/
def slow : Event ℚ := ⟨20, .limit .unlimited (.limited 15), false⟩

/-- The announcement, ahead of the speed limit. -/
def announcedTrack : Track ℚ := ⟨#[{ Follower.markedElement 0 [] with events := [doors, slow] }]⟩

/-- The front axles of the player's train and of another one, at the start of the track. -/
def twoTrains : Traffic Bool ℚ :=
  ⟨fun player => Follower.initial ⟨.frontCarFrontAxle, some ⟨0, 0, player⟩⟩, announcedTrack⟩

/-- The other train goes ahead. The player's train follows, goes back and comes again. -/
def oneBehindTheOther : List (Turn Bool ℚ) :=
  [(false, 30), (true, 15), (true, 5), (true, 30)].map fun x => ⟨x.1, ⟨false, false⟩, x.2⟩

/-- The announcement is not for the other train and is played for the player's, once. The speed
limit holds for both. -/
theorem reports_of_event_announced :
    let approaches := twoTrains.approaches oneBehindTheOther
    let crossings := approaches.filter fun a => a.call.place = (0, 0)
    let reports := announcedTrack.reportsAt approaches (0, 0)
    crossings.map (fun a => (a.crosser.isPlayer, a.call.direction)) =
        [(false, 1), (true, 1), (true, -1), (true, 1)] ∧
      reports.map (fun x => (x.direction, x.effects)) =
        [(1, []), (1, [.playSound "doors.wav" .zero 0])] ∧
      (reports.flatMap (·.effects)).length ≤ 1 ∧
      (∃ front back, crossings = front ++ back ∧ (∀ a ∈ front, a.effects doors.kind = []) ∧
        reports = (front ++ back.head?.toList).map fun a => a.report doors) ∧
      announcedTrack.reportsAt approaches (0, 1) =
        (approaches.filter fun a => a.call.place = (0, 1)).map fun a => a.report slow := by
  intro approaches crossings reports
  have he : twoTrains.track.elements[0]? = some { Follower.markedElement 0 [] with
    events := [doors, slow] } := rfl
  obtain ⟨-, -, sound, -⟩ := reports_of_event twoTrains oneBehindTheOther (k := 0) he rfl
  obtain ⟨-, -, -, other⟩ := reports_of_event twoTrains oneBehindTheOther (k := 1) he rfl
  obtain ⟨once, front, back, parts, before, -, reported⟩ := sound rfl _ _ _ _ _ rfl
  exact ⟨by with_unfolding_all decide, by with_unfolding_all decide, once,
    ⟨front, back, parts, before, reported⟩, other rfl rfl⟩

end Traffic

end RailRoute
