import Mathlib
import RailRoute.Proofs.Compile.Outcome
import RailRoute.Proofs.Track.Collection

/-!
# Events of a compiled route

A block names one station, so a station that is opened in the block of another takes away its
events. Limits and sections are chained in the order of the blocks, before their events are sorted
by position. Main statements: `positionsOf_stations`, which stations have their events, and where
these lie, and `chained_events`, when the chains hold along the track.
-/

namespace RailRoute.Compile

open Assembly

variable {R : Type} [ExactScalar R]

/-! ## Stations -/

section Stations

variable {settings : Settings} {host : Host} {path : String} {lines : List (List Char)}
  {route : CompiledRoute R} (h : (compileLines R settings host path lines).result = .ok route)
  {i : Nat} {st : Station R} (hst : route.line.stations[i]? = some st)

include h hst

/-- A compiled route with a station is built. -/
theorem exists_of_station : ∃ (s : Laying R) (t : Tables R), s.Placed ∧ s.InBounds ∧
    route.line = s.line ∧ route.track = Assembly.assemble s.line t := by
  obtain ⟨es, -, ⟨-, rfl⟩ | ⟨-, rfl⟩⟩ := exists_of_compileLines h
  · simp [previewed, Line.initial] at hst
  · exact ⟨_, _, placed_laid _ _, inBounds_laid _ es, rfl, rfl⟩

/-- A station has no events if another one is opened in its block later on. -/
theorem positionsOf_eq_nil {j : Nat} {st' : Station R} (hij : i < j)
    (hst' : route.line.stations[j]? = some st')
    (same : route.line.blockIndex st'.position = route.line.blockIndex st.position)
    {kind : EventKind R} (hkind : kind.station? = some i) : route.track.positionsOf kind = [] := by
  obtain ⟨s, t, placed, bounds, hline, htrack⟩ := exists_of_station h hst
  rw [hline] at hst hst' same
  rw [htrack, positionsOf_assemble bounds.covered.size_pos bounds.interval _ hkind,
    filter_station?_eq_nil placed hst _ hij hst' same]
  rfl

/-- A station has all its events if none is opened in its block later on. -/
theorem perm_positionsOf
    (last : ∀ j st', i < j → route.line.stations[j]? = some st' →
      route.line.blockIndex st'.position ≠ route.line.blockIndex st.position)
    {kind : EventKind R} (hkind : kind.station? = some i) : (route.track.positionsOf kind).Perm
      (((stationEvents i st).filter fun x => x.2 = kind).map (·.1)) := by
  obtain ⟨s, t, placed, bounds, hline, htrack⟩ := exists_of_station h hst
  rw [hline] at hst last
  rw [htrack, positionsOf_assemble bounds.covered.size_pos bounds.interval _ hkind]
  exact ((perm_stationEvents placed hst _ last).filter _).map _

/-- Each station of a compiled route has all its events, unless a later one is opened in its block:
then it has none. -/
theorem positionsOf_stations :
    let block (s : Station R) := route.line.blockIndex s.position
    let taken := ∃ j st', i < j ∧ route.line.stations[j]? = some st' ∧ block st' = block st
    let positions := route.track.positionsOf
    (¬ taken →
      positions (.stationStart i) = [st.position] ∧
        (∃ p, positions (.stationEnd i) = [p] ∧
          IsGreatest {q | q = st.position ∨ ∃ stop ∈ st.stops, q = stop.position} p) ∧
        positions (.stationPassAlarm i) =
          if st.passAlarm then [max (st.position - 50) 0] else []) ∧
      (taken → positions (.stationStart i) = [] ∧ positions (.stationEnd i) = [] ∧
        positions (.stationPassAlarm i) = []) := by
  intro block taken positions
  constructor
  · intro last
    have own (kind : EventKind R) (hkind : kind.station? = some i) :=
      perm_positionsOf h hst (fun j st' hij hst' same => last ⟨j, st', hij, hst', same⟩) hkind
    have start := own (.stationStart i) rfl
    have finish := own (.stationEnd i) rfl
    have alarm := own (.stationPassAlarm i) rfl
    rw [positions_stationStart, List.perm_singleton] at start
    rw [positions_stationEnd, List.perm_singleton] at finish
    rw [positions_stationPassAlarm] at alarm
    refine ⟨start, ⟨_, finish, isGreatest_stationEndPosition st⟩, ?_⟩
    split_ifs at alarm ⊢
    · exact List.perm_singleton.1 alarm
    · exact alarm.eq_nil
  · rintro ⟨j, st', hij, hst', same⟩
    have gone {kind : EventKind R} (hkind : kind.station? = some i) : positions kind = [] :=
      positionsOf_eq_nil h hst hij hst' same hkind
    exact ⟨gone rfl, gone rfl, gone rfl⟩

end Stations

/-- Two stations in one block. -/
def stationsInBlock : List (List Char) :=
  ["0", "Track.Sta A", "10", "Track.Sta B"].map String.toList

/-- The expressions of `stationsInBlock`. -/
def stationsInBlockExpressions : List Source.Expression :=
  [⟨⟨"", 1, 1⟩, "0"⟩, ⟨⟨"", 2, 1⟩, "Track.Sta A"⟩, ⟨⟨"", 3, 1⟩, "10"⟩, ⟨⟨"", 4, 1⟩, "Track.Sta B"⟩]

theorem exists_stationsInBlock : ∃ (route : CompiledRoute ℚ) (a b : Station ℚ),
    (compileLines ℚ .initial quietJob.host "" stationsInBlock).result = .ok route ∧
      route.line.stations[0]? = some a ∧ route.line.stations[1]? = some b ∧
      route.line.stations.size = 2 ∧ a.position = 0 ∧ b.position = 10 ∧
      b.stops.size = 0 ∧ b.passAlarm = false ∧
      route.line.blockIndex b.position = route.line.blockIndex a.position := by
  let job : Job := .ofPath .initial quietJob.host ""
  let es := stationsInBlockExpressions
  let options : Options ℚ := (Options.readAhead .csv es).options
  let route := builtRoute job (gathered job (startTables job.settings options) es)
  have expands : (expanded ℚ job "" stationsInBlock).result = .ok es :=
    expanded_of_plain (by decide) (by decide) (by decide)
  have factors : options.unitOfLength = [1] := by decide
  have sorts : Source.sortByPosition ([1] : List ℚ) .csv es = es := by cbv
  have compiled : (compileLines ℚ .initial quietJob.host "" stationsInBlock).result = .ok route :=
    run_eq_ok job rfl rfl expands factors sorts _
  have seen : route.line.stations.toList.map (fun s =>
      (s.position, route.line.blockIndex s.position, s.stops.size, s.passAlarm)) =
        [(0, 0, 0, false), (10, 0, 0, false)] := by decide +kernel
  obtain ⟨a, rest, all, ha, seen⟩ := List.map_eq_cons_iff.1 seen
  obtain ⟨b, rest, rfl, hb, seen⟩ := List.map_eq_cons_iff.1 seen
  obtain rfl := List.map_eq_nil_iff.1 seen
  simp only [Prod.mk.injEq] at ha hb
  have stations (i : Nat) : route.line.stations[i]? = [a, b][i]? := by
    rw [← all, Array.getElem?_toList]
  refine ⟨route, a, b, compiled, stations 0, stations 1, ?_, ha.1, hb.1, hb.2.2.1, hb.2.2.2, ?_⟩
  · rw [← Array.length_toList, all]
    rfl
  · exact hb.2.1.trans ha.2.1.symm

/-- Of the first one nothing is met, and the second one starts and ends where it stands. -/
theorem positionsOf_stations_stationsInBlock : ∃ route : CompiledRoute ℚ,
    (compileLines ℚ .initial quietJob.host "" stationsInBlock).result = .ok route ∧
      route.track.positionsOf (.stationStart 0) = [] ∧
      route.track.positionsOf (.stationStart 1) = [10] ∧
      route.track.positionsOf (.stationEnd 1) = [10] ∧
      route.track.positionsOf (.stationPassAlarm 1) = [] := by
  obtain ⟨route, a, b, compiled, ha, hb, size, -, here, stops, alarm, same⟩ := exists_stationsInBlock
  obtain ⟨-, gone⟩ := positionsOf_stations compiled ha
  obtain ⟨all, -⟩ := positionsOf_stations compiled hb
  obtain ⟨start, ⟨p, finish, greatest⟩, passAlarm⟩ := all (by
    rintro ⟨j, st, hj, hst, -⟩
    have := (Array.getElem?_eq_some_iff.1 hst).1
    omega)
  have stops : b.stops = #[] := Array.eq_empty_of_size_eq_zero stops
  obtain rfl : p = 10 := by simpa [stops, here] using greatest.1
  refine ⟨route, compiled, (gone ⟨1, b, Nat.one_pos, hb, same⟩).1, ?_, finish, ?_⟩
  · rw [start, here]
  · rw [passAlarm, if_neg (by simp [alarm])]

/-- A station of a compiled route can be without its start on the track. -/
theorem lost_of_stationsInBlock : ∃ route : CompiledRoute ℚ,
    (compileLines ℚ .initial quietJob.host "" stationsInBlock).result = .ok route ∧
      ∃ st, route.line.stations[0]? = some st ∧
        route.track.positionsOf (.stationStart 0) ≠ [st.position] := by
  obtain ⟨route, a, b, compiled, ha, hb, -, -, -, -, -, same⟩ := exists_stationsInBlock
  refine ⟨route, compiled, a, ha, ?_⟩
  rw [positionsOf_eq_nil compiled ha Nat.one_pos hb same rfl]
  exact (List.cons_ne_nil _ _).symm

/-! ## Chains -/

section Built

variable {job : Job} {g : Gathering R} (bounds : (laid job g).InBounds)

include bounds

theorem filterMap_kind_builtRoute {β : Type} {f : EventKind R → Option β} (hf : f .trackEnd = none) :
    ((builtRoute job g).track.events.map fun x => x.2.kind).filterMap f =
      (select f (sortedEvents (laid job g).line g.tables.train)).map (·.2) :=
  filterMap_kind_assemble bounds.covered.size_pos bounds.interval g.tables hf

/-- The limits of a built route are chained if they ascend in the order of the blocks. If all speeds
differ, they are chained only then. -/
theorem chained_builtRoute :
    let limits := (laid job g).line.blocks.toList.flatMap (·.limits.toList)
    let found := ((builtRoute job g).track.events.map fun x => x.2.kind).filterMap EventKind.limit?
    (limits.Pairwise (fun x y => x.position ≤ y.position) → Chained .unlimited found) ∧
      ((.unlimited :: limits.map (·.speed)).Nodup → Chained .unlimited found →
        limits.Pairwise fun x y => x.position ≤ y.position) := by
  have chained := chained_limits (laid job g).line g.tables.train
  rwa [← filterMap_kind_builtRoute bounds rfl] at chained

end Built

/-- Along the track of a compiled route, each speed limit has the speed of the one before it as its
previous speed if the limits of each block ascend; if all speeds differ, only then. The sections
are met in the order of their numbers, each with the one before it as its previous section, if they
ascend, and only then. Limits and sections do ascend if no accepted position goes back. -/
theorem chained_events {settings : Settings} {host : Host} {path : String}
    {lines : List (List Char)} {route : CompiledRoute R}
    (h : (compileLines R settings host path lines).result = .ok route) :
    let job := Job.ofPath settings host path
    let kinds := route.track.events.map fun x => x.2.kind
    let limits := kinds.filterMap EventKind.limit?
    let changes := kinds.filterMap EventKind.sectionChange?
    let speeds := (route.line.blocks.toList.flatMap (·.limits.toList)).map (·.speed)
    let limitsAscend := ∀ b ∈ route.line.blocks,
      b.limits.toList.Pairwise fun x y => x.position ≤ y.position
    let sectionsAscend := route.line.sections.toList.tail.Pairwise fun x y =>
      x.position ≤ y.position
    (limitsAscend → Chained .unlimited limits) ∧
      ((.unlimited :: speeds).Nodup → Chained .unlimited limits → limitsAscend) ∧
      (changes = (List.range (route.line.sections.size - 1)).map (fun i => (some i, i + 1)) ↔
        sectionsAscend) ∧
      ∀ es, (expanded R job path lines).result = .ok es →
        (Laying.positions (steps (R := R) job (firstPass job es))).Pairwise (· ≤ ·) →
          limitsAscend ∧ sectionsAscend := by
  intro job kinds limits changes speeds limitsAscend sectionsAscend
  obtain ⟨es, expands, ⟨-, rfl⟩ | ⟨-, rfl⟩⟩ := exists_of_compileLines h
  · have ascend : limitsAscend := fun b hb => by simp [previewed] at hb
    have ascend' : sectionsAscend := by simp [sectionsAscend, previewed, Line.initial]
    exact ⟨fun _ => trivial, fun _ _ => ascend, iff_of_true rfl ascend', fun _ _ _ =>
      ⟨ascend, ascend'⟩⟩
  let s : Laying R := laid job (firstPass job es)
  have bounds : s.InBounds := inBounds_laid job es
  have placed : s.Placed := placed_laid job _
  have intact : s.Intact (firstPass job es).tables := intact_laid job _
  have stands : s.line.Stands (0 ≤ ·) := bounds.stands.mono fun _ hx => hx.1
  have sectionsAscend_iff :
      sectionsAscend ↔ s.line.sectionPositions.toList.tail.Pairwise (· ≤ ·) := by
    rw [Line.sectionPositions, Array.toList_map, ← List.map_tail, List.pairwise_map]
    rfl
  obtain ⟨chained, only⟩ := chained_builtRoute bounds
  have limitsAscend_iff := placed.pairwise_limits_iff stands
  have inOrder := sectionChanges_iff placed intact.sectionMarks
    (Array.forall_mem_map.2 stands.sections) (firstPass job es).tables.train
  rw [← filterMap_kind_builtRoute bounds rfl, ← sectionsAscend_iff] at inOrder
  refine ⟨fun ascend => chained (limitsAscend_iff.2 ascend),
    fun ends found => limitsAscend_iff.1 (only ends found), inOrder, fun es' expands' asc => ?_⟩
  obtain rfl := Except.ok.inj (expands.symm.trans expands')
  have ordered : s.Ordered := ordered_laid asc
  refine ⟨fun b hb => ?_, ?_⟩
  · exact List.pairwise_map.1 (List.pairwise_append.1 (ordered.limits b hb)).1
  · exact sectionsAscend_iff.2 (List.pairwise_append.1 ordered.sections).1.tail

/-- Two limits and two sections, in the order of their positions. -/
def limitsAhead : List (List Char) :=
  ["0", "Track.Limit 60", "Track.Section 0", "40", "Track.Limit 30", "Track.Section 0"].map
    String.toList

/-- The expressions of `limitsAhead`. -/
def limitsAheadExpressions : List Source.Expression :=
  [⟨⟨"", 1, 1⟩, "0"⟩, ⟨⟨"", 2, 1⟩, "Track.Limit 60"⟩, ⟨⟨"", 3, 1⟩, "Track.Section 0"⟩,
    ⟨⟨"", 4, 1⟩, "40"⟩, ⟨⟨"", 5, 1⟩, "Track.Limit 30"⟩, ⟨⟨"", 6, 1⟩, "Track.Section 0"⟩]

/-- No position goes back, so limits and sections are met in order. -/
theorem chained_events_limitsAhead : ∃ route : CompiledRoute ℚ,
    (compileLines ℚ .initial quietJob.host "" limitsAhead).result = .ok route ∧
      Chained .unlimited ((route.track.events.map fun x => x.2.kind).filterMap
        EventKind.limit?) ∧
      (route.track.events.map fun x => x.2.kind).filterMap EventKind.sectionChange? =
        [(some 0, 1), (some 1, 2)] := by
  let job : Job := .ofPath .initial quietJob.host ""
  let es := limitsAheadExpressions
  let options : Options ℚ := (Options.readAhead .csv es).options
  let g := gathered job (startTables job.settings options) es
  let route := builtRoute job g
  have expands : (expanded ℚ job "" limitsAhead).result = .ok es :=
    expanded_of_plain (by decide) (by decide) (by decide)
  have factors : options.unitOfLength = [1] := by decide
  have sorts : Source.sortByPosition ([1] : List ℚ) .csv es = es := by cbv
  have compiled : (compileLines ℚ .initial quietJob.host "" limitsAhead).result = .ok route :=
    run_eq_ok job rfl rfl expands factors sorts _
  obtain ⟨limits, -, sections, ascends⟩ := chained_events compiled
  have first : firstPass job es = g := firstPass_eq factors sorts
  obtain ⟨limitsAscend, sectionsAscend⟩ := ascends es expands (by
    rw [first]
    decide +kernel)
  have size : route.line.sections.size = 3 := by decide +kernel
  refine ⟨route, compiled, limits limitsAscend, ?_⟩
  rw [sections.2 sectionsAscend, size]
  rfl

/-- A limit ahead of another one that is placed in its block before it. -/
def limitsBehind : List (List Char) :=
  ["[Track]", "20", "Limit 30", "[Track]", "10", "Limit 60"].map String.toList

/-- The expressions of `limitsBehind`. -/
def limitsBehindExpressions : List Source.Expression :=
  [⟨⟨"", 1, 1⟩, "[Track]"⟩, ⟨⟨"", 2, 1⟩, "20"⟩, ⟨⟨"", 3, 1⟩, "Limit 30"⟩,
    ⟨⟨"", 4, 1⟩, "[Track]"⟩, ⟨⟨"", 5, 1⟩, "10"⟩, ⟨⟨"", 6, 1⟩, "Limit 60"⟩]

/-- The limit that is met first has the speed of the one that is met last as its previous speed. -/
theorem not_chained_limitsBehind : ∃ route : CompiledRoute ℚ,
    (compileLines ℚ .initial quietJob.host "" limitsBehind).result = .ok route ∧
      ¬ Chained .unlimited ((route.track.events.map fun x => x.2.kind).filterMap
        EventKind.limit?) := by
  let job : Job := .ofPath .initial quietJob.host ""
  let es := limitsBehindExpressions
  let options : Options ℚ := (Options.readAhead .csv es).options
  let g := gathered job (startTables job.settings options) es
  have expands : (expanded ℚ job "" limitsBehind).result = .ok es :=
    expanded_of_plain (by decide) (by decide) (by decide)
  have factors : options.unitOfLength = [1] := by decide
  have sorts : Source.sortByPosition ([1] : List ℚ) .csv es = es := by cbv
  have first : firstPass job es = g := firstPass_eq factors sorts
  have bounds : (laid job g).InBounds := first ▸ inBounds_laid job es
  have positions : ((laid job g).line.blocks.toList.flatMap (·.limits.toList)).map (·.position) =
      [20, 10] := by decide +kernel
  have speeds : ((laid job g).line.blocks.toList.flatMap (·.limits.toList)).map (·.speed) =
      [.limited (25 / 3), .limited (50 / 3)] := by decide +kernel
  obtain ⟨-, only⟩ := chained_builtRoute bounds
  rw [speeds] at only
  refine ⟨builtRoute job g, run_eq_ok job rfl rfl expands factors sorts _, fun chained => ?_⟩
  have ascend := List.pairwise_map.2 (only (by decide +kernel) chained)
  rw [positions] at ascend
  revert ascend
  decide

end RailRoute.Compile
