import Mathlib
import RailRoute.Proofs.Compile.Outcome
import RailRoute.Proofs.Track.Walking

/-!
# Walks along a compiled route

Whatever route is compiled, a walk along its track comes to an end, and the events that it reports
up to the end of the track are the same for all steps. A marker may end behind the end of the track,
and whether a walk gets there does depend on its step. Main statement: `walk_compileLines`.
-/

namespace RailRoute

open Laying

variable {R : Type} [ExactScalar R]

namespace Compile

/-- A compiled route is a preview, without a track, or its track is assembled from a line that
nothing stands off. -/
theorem ok_of_run {job : Job} {path : String} {lines : List (List Char)} {log : CallLog R}
    {route : CompiledRoute R} (h : (run job path lines log).1 = .ok route) :
    route.track = ⟨#[]⟩ ∨ ∃ s : Laying R, s.InBounds ∧ route.line = s.line ∧
      route.track = Assembly.assemble s.line route.tables := by
  obtain ⟨es, -, rfl⟩ := exists_of_run_eq_ok h
  rw [outcome_eq]
  split_ifs
  · exact Or.inl rfl
  · exact Or.inr ⟨laid job (firstPass job es), inBounds_laid job es, rfl, rfl⟩

end Compile

namespace Follower

variable {route : CompiledRoute R}

theorem walk_of_endPosition?_eq_none {t : Track R} (h : t.endPosition? = none) (f : Follower R)
    (step : R) : f.walk t step = ⟨f, t, #[]⟩ := by
  simp only [walk, h]

/-- Along the track of a compiled route every walk comes to an end. Up to the end of the track it
reports what one move there reports, whatever its step, and if no marker ends behind it, walks of
all steps report the same. Events behind the end have offsets that are greater than the length of a
block. -/
theorem walk_compileLines {settings : Settings} {host : Host} {path : String}
    {lines : List (List Char)}
    (h : (compileLines R settings host path lines).result = .ok route) (c : Crosser) :
    let finish := route.line.blockStart route.line.blocks.size
    let straight := (initial c).moveTo route.track ⟨true, true⟩ finish
    let walked (step : R) := (initial c).walk route.track step
    let upToEnd (m : Moved R) := m.crossings.toList.filter fun x =>
      decide (x.event.offset ≤ route.line.interval)
    (route.track = ⟨#[]⟩ ∨ route.track.endPosition? = some finish ∧
      ∀ step, finish + Scalar.max step leastStep ≤ (walked step).follower.position) ∧
      (∀ step, upToEnd (walked step) = straight.crossings.toList) ∧
      ((∀ m ∈ route.line.markers, m.finish ≤ finish) →
        ∀ step, (walked step).crossings = straight.crossings) := by
  intro finish straight walked upToEnd
  rcases Compile.ok_of_run h with empty | ⟨s, bounds, hline, htrack⟩
  · have none : route.track.endPosition? = none := by
      rw [empty]
      rfl
    have stays (step : R) : walked step = ⟨initial c, route.track, #[]⟩ :=
      walk_of_endPosition?_eq_none none _ step
    have still : straight = ⟨initial c, route.track, #[]⟩ := by
      simp only [straight, empty]
      rfl
    exact ⟨Or.inl empty, fun step => by rw [stays, still]; rfl, fun _ step => by rw [stays, still]⟩
  · have hi := bounds.interval
    have blocks := bounds.covered.size_pos
    have lies := Assembly.liesAt_sortedEvents (bounds.stands.mono fun _ hx => hx.1) bounds.finishes
      hi route.tables.train
    have nonneg := fun x hx => (lies x hx).1
    have hend := Assembly.endPosition?_assemble route.tables blocks hi fun x hx => (lies x hx).2
    have law := walk_upTo_end (Assembly.wellFormed_assemble route.tables hi nonneg)
      (Assembly.sortedUpTo_assemble hi nonneg) hend (f := initial c)
      (contains_zero_assemble route.tables blocks hi) (Line.blockStart_nonneg hi _)
    simp only [finish, straight, walked, upToEnd, hline, htrack]
    refine ⟨Or.inr ⟨hend, fun step => (law step).1⟩, fun step => (law step).2.1, ?_⟩
    intro finishes step
    refine (law step).2.2 fun i e he ev hev => ?_
    exact Assembly.offset_le_interval hi bounds.stands
      (fun m hm => ⟨bounds.finishes m hm, finishes m hm⟩) he hev

/-! ### A marker that ends behind the end -/

/-- What is reported of crossings: the event and the direction. -/
def reports {R : Type} (m : Moved R) : List (EventKind R × Int) :=
  m.crossings.toList.map fun x => (x.event.kind, x.direction)

/-- A route of three blocks with a marker that ends behind them. -/
def longMarker : List (List Char) :=
  ["0", "Track.TextMarker Slow;110", "50"].map String.toList

/-- The expressions of `longMarker`. -/
def longMarkerExpressions : List Source.Expression :=
  [⟨⟨"", 1, 1⟩, "0"⟩, ⟨⟨"", 2, 1⟩, "Track.TextMarker Slow;110"⟩, ⟨⟨"", 3, 1⟩, "50"⟩]

/-- What compiling `longMarker` comes to. -/
def longMarkerRoute : CompiledRoute ℚ :=
  let job : Compile.Job := .ofPath .initial Compile.quietJob.host ""
  let options : Options ℚ := (Options.readAhead .csv longMarkerExpressions).options
  Compile.builtRoute job
    (Compile.gathered job (Compile.startTables job.settings options) longMarkerExpressions)

theorem compileLines_longMarker :
    (compileLines ℚ .initial Compile.quietJob.host "" longMarker).result =
      .ok longMarkerRoute := by
  let es := longMarkerExpressions
  let options : Options ℚ := (Options.readAhead .csv es).options
  let job : Compile.Job := .ofPath .initial Compile.quietJob.host ""
  have expanded : (Compile.expanded ℚ job "" longMarker).result = .ok es :=
    Compile.expanded_of_plain (by decide) (by decide) (by decide)
  have factors : options.unitOfLength = [1] := by decide
  have sorts : Source.sortByPosition ([1] : List ℚ) .csv es = es := by cbv
  exact Compile.run_eq_ok (.ofPath .initial Compile.quietJob.host "") rfl rfl expanded factors
    sorts _

theorem collectEvents_longMarker :
    Assembly.collectEvents longMarkerRoute.line longMarkerRoute.tables.train =
      [(0, .marker 0 true), (110, .marker 0 false)] := by
  decide +kernel

/-- The point that crosses the events. -/
def frontAxle : Crosser := ⟨.frontCarFrontAxle, some ⟨0, 0, true⟩⟩

/-- Steps of 25 end short of the marker's end, and steps of 40 go beyond it. -/
theorem exists_longMarker : ∃ route : CompiledRoute ℚ,
    (compileLines ℚ .initial Compile.quietJob.host "" longMarker).result = .ok route ∧
      route.line.interval = 25 ∧
      reports ((initial frontAxle).walk route.track 25) = [(.trackEnd, 1)] ∧
      reports ((initial frontAxle).walk route.track 40) =
        [(.trackEnd, 1), (.marker 0 false, 1)] := by
  let route := longMarkerRoute
  let events : List (ℚ × EventKind ℚ) := [(0, .marker 0 true), (110, .marker 0 false)]
  have sorted : Assembly.sortedEvents route.line route.tables.train = events := by
    rw [Assembly.sortedEvents, collectEvents_longMarker]
    exact List.mergeSort_of_pairwise (by decide)
  let bare := Assembly.withTangents (Assembly.layElements route.tables.options.cantBehavior
    route.line.interval 0 .zero .forward route.line.blocks.toList).toArray
  have track : route.track = ⟨Assembly.placeEvents route.line.interval events
      (Assembly.placeEnd route.line.interval bare)⟩ := by
    rw [← sorted]
    rfl
  refine ⟨route, compileLines_longMarker, by decide +kernel, ?_, ?_⟩
  · rw [track]
    decide +kernel
  · rw [track]
    decide +kernel

/-- How far the longer steps go is no matter up to the end of the track. -/
theorem walk_compileLines_longMarker : ∃ route : CompiledRoute ℚ,
    (compileLines ℚ .initial Compile.quietJob.host "" longMarker).result = .ok route ∧
      ((initial frontAxle).walk route.track 25).crossings.toList.filter
          (fun x => decide (x.event.offset ≤ 25)) =
        ((initial frontAxle).walk route.track 40).crossings.toList.filter
          fun x => decide (x.event.offset ≤ 25) := by
  obtain ⟨route, compiled, interval, -⟩ := exists_longMarker
  obtain ⟨-, upToEnd, -⟩ := walk_compileLines compiled frontAxle
  rw [interval] at upToEnd
  exact ⟨route, compiled, (upToEnd 25).trans (upToEnd 40).symm⟩

/-- Two walks along one track report different events: only the longer steps come to the end of the
marker. -/
theorem walks_differ_of_longMarker : ∃ route : CompiledRoute ℚ,
    (compileLines ℚ .initial Compile.quietJob.host "" longMarker).result = .ok route ∧
      reports ((initial frontAxle).walk route.track 25) ≠
        reports ((initial frontAxle).walk route.track 40) := by
  obtain ⟨route, compiled, -, shorter, longer⟩ := exists_longMarker
  refine ⟨route, compiled, ?_⟩
  rw [shorter, longer]
  decide

end Follower

end RailRoute
