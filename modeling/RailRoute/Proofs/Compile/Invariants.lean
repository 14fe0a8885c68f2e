import Mathlib
import RailRoute.Proofs.Block.Bounds
import RailRoute.Proofs.Block.Integrity
import RailRoute.Proofs.Block.Lining
import RailRoute.Proofs.Block.Rails
import RailRoute.Proofs.Compile.FirstPass
import RailRoute.Proofs.Compile.SecondPass

/-!
# What holds of every line

The second pass carries out what reading has let through, so what is kept by admitted steps holds of
every line that it lays. Main statements: `lay_intact`, that everything named by a number is there
when the track is assembled, `inBounds_lay`, that nothing stands off the blocks, `lay_railsJoin`,
that rails go on from block to block, and `lay_lined`, along which rails walls, dikes and poles run.
-/

namespace RailRoute

namespace Compile

open Laying

section Steps

variable {R : Type} [Scalar R] (job : Job) (t : Tables R)

/-- What reading makes sure of, it makes sure of for every command of a pass. -/
theorem forall_issues_deeds {P : Issue R → Prop}
    (read : ∀ (s : Laying R) (c : Command),
      Check.Ensures (fun a => P ⟨s, a⟩) (Site.read ⟨t, job.host.assets, job.folders, s⟩ c))
    (b : Building R) (es : List Source.Expression) :
    ∀ i ∈ b.laying.issues (deeds job t b es), P i := by
  induction es generalizing b with
  | nil => simp [deeds, issues]
  | cons e es ih =>
    rw [deeds, issues_append, ← layOne_laying]
    refine List.forall_mem_append.2 ⟨?_, ih _⟩
    unfold deed?
    split
    · rename_i value hasArguments _
      cases accepted? job t value hasArguments <;> simp [issues]
    · rename_i c _
      split_ifs
      · cases ha : (Site.read ⟨t, job.host.assets, job.folders, b.laying⟩ c).value? with
        | none => simp [issues]
        | some a => simpa [issues] using read b.laying c a ha
      · simp [issues]
    · simp [issues]

theorem admitted_deeds (b : Building R) (es : List Source.Expression) :
    ∀ i ∈ b.laying.issues (deeds job t b es), i.action.Admitted t i.laying :=
  forall_issues_deeds job t (fun s => Site.admitted_read ⟨t, job.host.assets, job.folders, s⟩) b es

theorem lines_deeds (b : Building R) (es : List Source.Expression) :
    ∀ i ∈ b.laying.issues (deeds job t b es),
      ∀ rail ∈ i.action.linedRail?, rail ∈ i.laying.currentBlock.rails :=
  forall_issues_deeds job t (fun s => Site.lines_read ⟨t, job.host.assets, job.folders, s⟩) b es

theorem laying_of_lay {job : Job} {t : Tables R} {es : List Source.Expression} {log : CallLog R}
    {b : Building R} (h : (lay job t es log).1 = some b) :
    b.laying = (start job t).laying.run (deeds job t (start job t) es) := layFrom_laying h

/-- Whatever the second pass has laid, and in whatever order of positions, everything named by a
number is there: when the track is assembled, every station and section is found. Only the host can
stop the pass. -/
theorem lay_intact (es : List Source.Expression) (log : CallLog R) :
    (job.host.cancelAt = none → (lay job t es log).1.isSome) ∧
      ∀ b : Building R, (lay job t es log).1 = some b → b.laying.Intact t ∧
        ∀ block ∈ b.laying.line.blocks,
          (∀ i ∈ block.station, ∃ st, b.laying.line.stations[i]? = some st ∧
            Assembly.blockStationEvents b.laying.line block = Assembly.stationEvents i st) ∧
          ∀ i ∈ block.sections, ∃ x, b.laying.line.sections[i]? = some x ∧
            Assembly.sectionEvent? b.laying.line i =
              some (x.position, .sectionChange (if 0 < i then some (i - 1) else none) i) := by
  refine ⟨fun h => layFrom_isSome h .., fun b hb => ?_⟩
  have intact : b.laying.Intact t := by
    rw [laying_of_lay hb]
    exact intact_run (intact_initial ..) (admitted_deeds job t _ es)
  refine ⟨intact, fun block hblock => ⟨fun i hi => ?_, fun i hi => ?_⟩⟩
  · have found := Array.getElem?_eq_getElem ((intact.blocks block hblock).station i hi)
    refine ⟨_, found, ?_⟩
    simp only [Assembly.blockStationEvents, Option.mem_def.1 hi, found]
  · have marked : i ∈ b.laying.line.sectionMarks :=
      List.mem_flatMap.2 ⟨block, Array.mem_toList_iff.2 hblock, Array.mem_toList_iff.2 hi⟩
    have found := Array.getElem?_eq_getElem ((intact.sectionMarks.mem_iff i).1 marked).2
    exact ⟨_, found, by rw [Assembly.sectionEvent?, found, Option.map_some]⟩

end Steps

/-- A station with two stops, the second of which lies before it, and two sections. -/
def stopsBehind : List Source.Expression :=
  ["100", "Track.Sta A;;;0;0;1", "Track.Stop 0", "25", "Track.Section 0;2;4", "Track.Stop 1",
    "Track.Signal 3"].map (⟨⟨"", 1, 1⟩, ·⟩)

theorem lay_intact_stopsBehind :
    let t : Tables ℚ := .initial
    positions (deeds quietJob t (start quietJob t) stopsBehind) = [100, 25] ∧
      ∃ b, (lay quietJob t stopsBehind .empty).1 = some b ∧
        b.laying.line.sectionMarks = [1, 2] ∧ b.laying.line.stopMarks = [(0, 1), (0, 0)] ∧
        (∀ x ∈ b.laying.line.sections, ∀ i ∈ x.departureStation,
          ∃ st, b.laying.line.stations[i]? = some st ∧ st.forcedRedSignal) ∧
        ∀ block, b.laying.line.blocks[4]? = some block → block.station = some 0 →
          ∃ st, b.laying.line.stations[0]? = some st ∧
            Assembly.blockStationEvents b.laying.line block = Assembly.stationEvents 0 st := by
  intro t
  obtain ⟨ends, law⟩ := lay_intact quietJob t stopsBehind .empty
  obtain ⟨b, hb⟩ := Option.isSome_iff_exists.1 (ends rfl)
  obtain ⟨intact, found⟩ := law b hb
  refine ⟨by decide +kernel, b, hb, ?_, ?_, intact.departures, fun block hblock hst => ?_⟩
  · rw [laying_of_lay hb]
    decide +kernel
  · rw [laying_of_lay hb]
    decide +kernel
  · exact (found block (Array.mem_of_getElem? hblock)).1 0 hst

/-! ## Rails -/

section Exact

variable {R : Type} [ExactScalar R] (job : Job) (t : Tables R)

theorem nonneg_of_accepted? {value p : R} {hasArguments : Bool}
    (h : accepted? job t value hasArguments = some p) : 0 ≤ p := by
  unfold accepted? at h
  split_ifs at h with _ hneg
  · obtain rfl := Option.some.inj h
    rw [intendedPosition, ExactScalar.ofNat_eq]
    exact Nat.cast_nonneg _
  · exact Option.some.inj h ▸ not_lt.1 hneg

theorem nonneg_positions (b : Building R) (es : List Source.Expression) :
    ∀ p ∈ positions (deeds job t b es), 0 ≤ p := by
  induction es generalizing b with
  | nil => simp [deeds, positions]
  | cons e es ih =>
    rw [deeds, positions_append]
    refine List.forall_mem_append.2 ⟨?_, ih _⟩
    unfold deed?
    split
    · rename_i value hasArguments _
      cases ha : accepted? job t value hasArguments with
      | none => simp [positions]
      | some p => simpa [positions] using nonneg_of_accepted? job t ha
    · split_ifs
      · cases (Site.read ⟨t, job.host.assets, job.folders, b.laying⟩ _).value? <;>
          simp [positions]
      · simp [positions]
    · simp [positions]

/-- Nothing stands off the blocks of a line that the second pass has laid. -/
theorem inBounds_lay {job : Job} {t : Tables R} {es : List Source.Expression} {log : CallLog R}
    {b : Building R} (hi : ¬ t.options.blockInterval ≤ 0) (h : (lay job t es log).1 = some b) :
    b.laying.InBounds := by
  rw [laying_of_lay h]
  exact inBounds_run (inBounds_initial (not_le.1 hi) _) (nonneg_positions job t _ es)
    (admitted_deeds job t _ es)

/-- After the second pass over expressions whose accepted positions do not go back, rails go on from
each block to the next: one that runs starts there where it came to, and one that did not run
before is started there. In whatever order positions are gone to, the main rail runs in
every block. Only the host can stop the pass. -/
theorem lay_railsJoin (es : List Source.Expression) (log : CallLog R) :
    (job.host.cancelAt = none → (lay job t es log).1.isSome) ∧
      ∀ b : Building R, (lay job t es log).1 = some b →
        ((positions (deeds job t (start job t) es)).Pairwise (· ≤ ·) → b.laying.line.Joined) ∧
          b.laying.MainRailRuns := by
  refine ⟨fun h => layFrom_isSome h .., fun b hb => ?_⟩
  rw [laying_of_lay hb]
  refine ⟨fun hpositions => ?_, ?_⟩
  · have asc : (start job t).laying.Ascends (deeds job t (start job t) es) :=
      ascends_of_blockIndex (fun _ _ => Nat.zero_le _) <|
        hpositions.imp_of_mem fun hp _ hpq =>
          Line.blockIndex_le_blockIndex _ (nonneg_positions job t _ es _ hp) hpq
    exact joined_run grown_initial asc (joined_initial _ _)
  · exact mainRail_run Nat.one_pos (mainRail_initial _ _) (admitted_deeds job t _ es)

end Exact

/-- A rail that moves, ends and starts again. -/
def movedRail : List Source.Expression :=
  ["Track.RailStart 1;4;2", "25", "Track.Rail 1;6;2", "50", "Track.RailEnd 1", "75",
    "Track.RailStart 1;3"].map (⟨⟨"", 1, 1⟩, ·⟩)

/-- The rail leads from the first block to where it is moved in the second one. -/
theorem lay_railsJoin_movedRail :
    let t : Tables ℚ := .initial
    positions (deeds quietJob t (start quietJob t) movedRail) = [25, 50, 75] ∧
      ∃ b, (lay quietJob t movedRail .empty).1 = some b ∧ b.laying.line.blocks.size = 4 ∧
        b.laying.MainRailRuns ∧
        ∀ here next, b.laying.line.blocks[0]? = some here → b.laying.line.blocks[1]? = some next →
          ∃ r r', here.rails[1]? = some r ∧ next.rails[1]? = some r' ∧ r'.start = r.finish ∧
            r.start.x = 4 ∧ r.finish.x = 6 := by
  intro t
  have gone : positions (deeds quietJob t (start quietJob t) movedRail) = [25, 50, 75] := by
    decide +kernel
  obtain ⟨ends, law⟩ := lay_railsJoin quietJob t movedRail .empty
  obtain ⟨b, hb⟩ := Option.isSome_iff_exists.1 (ends rfl)
  obtain ⟨joined, main⟩ := law b hb
  have joined : b.laying.line.Joined := joined (by
    rw [gone]
    decide)
  have moved : (b.laying.line.blocks[0]?.bind fun here => here.rails[1]?.map fun r =>
      (r.isRunning, r.start.x, r.finish.x)) = some (true, 4, 6) := by
    rw [laying_of_lay hb]
    decide +kernel
  refine ⟨gone, b, hb, ?_, main, fun here next hhere hnext => ?_⟩
  · rw [laying_of_lay hb]
    decide +kernel
  · rw [hhere, Option.bind_some] at moved
    obtain ⟨r, hr, values⟩ := Option.map_eq_some_iff.1 moved
    simp only [Prod.mk.injEq] at values
    obtain ⟨r', hr', hstart⟩ := (joined 0 here next hhere hnext).goesOn 1 r hr values.1
    exact ⟨r, r', hr, hr', hstart, values.2⟩

/-! ## What runs along rails -/

/-- At every stage of the second pass, a rail along which a wall, a dike or poles run in a block is
or was there, in that block or one before it. That it is there in that very block, at every stage,
comes to this: each time blocks are added, all rails along which something runs in the last block
go on behind it. Only the host can stop the pass. -/
theorem lay_lined {R : Type} [Scalar R] (job : Job) (t : Tables R) (es : List Source.Expression)
    (log : CallLog R) :
    (job.host.cancelAt = none → (lay job t es log).1.isSome) ∧
      ∀ b : Building R, (lay job t es log).1 = some b →
        let steps := deeds job t (start job t) es
        let stage := (start job t).laying.run
        b.laying = stage steps ∧ (∀ xs, xs <+: steps → (stage xs).line.Traced) ∧
          ((∀ xs, xs <+: steps → (stage xs).line.AlongRails) ↔
            ∀ xs position, xs ++ [.go position] <+: steps →
              (stage xs).line.blocks.size ≤ (stage xs).line.blockIndex position →
              (stage xs).line.LinedGoOn) := by
  refine ⟨fun h => layFrom_isSome h .., fun b hb => ?_⟩
  have along := alongRails_initial t.options.blockInterval (initialHeight job.settings.dialect)
  have lined := lines_deeds job t (start job t) es
  refine ⟨laying_of_lay hb, ?_, forall_alongRails_iff Nat.one_pos along lined⟩
  rintro xs ⟨ys, hys⟩
  refine traced_run Nat.one_pos (fun i hi => lined i ?_) (traced_of_alongRails along)
  rw [← hys, issues_append]
  exact List.mem_append_left _ hi

/-- A rail that ends with a wall along it, before the next block. -/
def endedRail : List Source.Expression :=
  ["Structure.WallL(0) w.csv", "0", "Track.RailStart 1;4", "Track.Wall 1;-1;0", "Track.RailEnd 1",
    "25"].map (⟨⟨"", 1, 1⟩, ·⟩)

/-- The wall runs on into the block behind the rail. -/
theorem exists_endedRail : ∃ (g : Gathering ℚ) (b : Building ℚ) (block : Block ℚ),
    (gather quietJob .initial endedRail .empty).1 = some g ∧
      (lay quietJob g.tables g.interpreted.toList .empty).1 = some b ∧
      b.laying.line.blocks[1]? = some block ∧ block.IsLined 1 ∧ 1 ∉ block.rails := by
  let g : Gathering ℚ := gathered quietJob .initial endedRail
  have hg : (gather quietJob .initial endedRail .empty).1 = some g := gather_eq_some rfl ..
  have ends : (lay quietJob g.tables g.interpreted.toList .empty).1.isSome := layFrom_isSome rfl ..
  obtain ⟨b, hb⟩ := Option.isSome_iff_exists.1 ends
  have second : b.laying.line.blocks[1]?.map (fun b => (b.walls.contains 1, b.rails.contains 1)) =
      some (true, false) := by
    rw [laying_of_lay hb]
    decide +kernel
  obtain ⟨block, hblock, walls⟩ := Option.map_eq_some_iff.1 second
  rw [Prod.mk.injEq] at walls
  refine ⟨g, b, block, hg, hb, hblock, Or.inl (Std.TreeMap.mem_iff_contains.2 walls.1), ?_⟩
  rw [Std.TreeMap.mem_iff_contains, walls.2]
  exact Bool.false_ne_true

/-- The rail that the wall is left from was there before, and ended when blocks were added. -/
theorem lay_lined_endedRail : ∃ (g : Gathering ℚ) (b : Building ℚ),
    (gather quietJob .initial endedRail .empty).1 = some g ∧
      (lay quietJob g.tables g.interpreted.toList .empty).1 = some b ∧
      (∃ j ≤ 1, b.laying.line.HasRail j 1) ∧
      ∃ xs position, xs ++ [.go position] <+:
          deeds quietJob g.tables (start quietJob g.tables) g.interpreted.toList ∧
        ¬ ((start quietJob g.tables).laying.run xs).line.LinedGoOn := by
  obtain ⟨g, b, block, hg, hb, hblock, lined, gone⟩ := exists_endedRail
  obtain ⟨laid, traced, iff⟩ := (lay_lined quietJob g.tables g.interpreted.toList .empty).2 b hb
  refine ⟨g, b, hg, hb, ?_, ?_⟩
  · have traced := traced _ List.prefix_rfl
    rw [← laid] at traced
    exact traced 1 block hblock 1 lined
  · by_contra none
    have along := iff.2 fun xs position hxs _ => by
      by_contra h
      exact none ⟨xs, position, hxs, h⟩
    have along := along _ List.prefix_rfl
    rw [← laid] at along
    exact gone (along 1 block hblock 1 lined)

/-- A wall can run along a rail that its block does not have. -/
theorem not_alongRails_endedRail : ∃ (g : Gathering ℚ) (b : Building ℚ),
    (gather quietJob .initial endedRail .empty).1 = some g ∧
      (lay quietJob g.tables g.interpreted.toList .empty).1 = some b ∧
      ¬ b.laying.line.AlongRails := by
  obtain ⟨g, b, block, hg, hb, hblock, lined, gone⟩ := exists_endedRail
  exact ⟨g, b, hg, hb, fun along => gone (along 1 block hblock 1 lined)⟩

end Compile

end RailRoute
