import Mathlib
import RailRoute.Proofs.Compile.SecondPass
import RailRoute.Proofs.Source.Separation
import RailRoute.Proofs.Source.Sorting

/-!
# The positions of a sorted route

Sorting is there for the second pass, which is to meet track positions in ascending order. In a CSV
route it does so between two headers as long as no length has an empty group behind it: such an
expression is no position when the route is sorted, and stays where it is written. Main statement:
`positions_of_sorted`.
-/

namespace RailRoute.Compile

open Laying Source

variable {R : Type} [Scalar R]

/-- The position that an expression of a CSV route leads to: it has no arguments and is not
negative. -/
def landing? (factors : List R) (e : Expression) : Option R :=
  if e.header?.isSome then none else (barePosition? factors e).filter fun v => !decide (v < 0)

section Csv

variable {job : Job} (csv : job.settings.dialect = .csv)
  (keeps : job.settings.fixesLineEndings = false) (t : Tables R)

include csv keeps

theorem positions_deed? (b : Building R) (e : Expression) :
    positions (deed? job t b e).toList = (landing? t.options.unitOfLength e).toList := by
  have unchanged : fixEnding job.settings.fixesLineEndings e = e := by simp [fixEnding, keeps]
  unfold deed?
  rw [unchanged, csv]
  cases he : e.header? with
  | some name => simp [landing?, he, interpret, positions]
  | none =>
    cases hb : barePosition? t.options.unitOfLength e with
    | some v =>
      rw [(interpret_eq_position he b.scope).2 hb]
      by_cases hv : v < 0 <;>
        simp [landing?, he, hb, accepted?, csv, hv, positions, Option.filter_some]
    | none =>
      have other : ∀ v, interpret .csv t.options.unitOfLength b.scope e ≠ .ok (.position v false) :=
        fun v h => by simp [(interpret_eq_position he b.scope).1 h] at hb
      have nowhere : landing? t.options.unitOfLength e = none := by simp [landing?, he, hb]
      rw [nowhere]
      revert other
      generalize interpret .csv t.options.unitOfLength b.scope e = meaning
      intro other
      rcases meaning with _ | _ | ⟨v, _ | _⟩ | c
      · rfl
      · rfl
      · exact absurd rfl (other v)
      · rfl
      · dsimp only
        split_ifs
        · cases (Site.read ⟨t, job.host.assets, job.folders, b.laying⟩ c).value? <;> rfl
        · rfl

/-- The second pass goes to the same positions whatever line and scope it comes with. -/
theorem positions_deeds (b : Building R) (es : List Expression) :
    positions (deeds job t b es) = es.filterMap (landing? t.options.unitOfLength) := by
  induction es generalizing b with
  | nil => rfl
  | cons e es ih =>
    rw [deeds, positions_append, ih, positions_deed? csv keeps, List.filterMap_cons]
    cases landing? t.options.unitOfLength e <;> rfl

end Csv

/-! ## Sorted routes -/

variable {factors : List R}

theorem barePosition?_of_landing? {e : Expression} {v : R} (h : landing? factors e = some v) :
    barePosition? factors e = some v := by
  unfold landing? at h
  split_ifs at h
  exact (Option.filter_eq_some_iff.1 h).1

/-- Where each expression has a position in force that does not sort behind those that follow, and
no length has an empty group behind it, the positions that are gone to ascend. -/
theorem pairwise_landing? {es : List Expression}
    (sorted : (keyed factors true es).Pairwise fun a b => positionBefore a.1 b.1)
    (groups : ∀ e ∈ es, ¬ IsLengthWithGroup factors e) :
    (es.filterMap (landing? factors)).Pairwise fun v w => Scalar.sortsBefore v w := by
  have keys : (keyed factors true es).map (·.2) = es := by
    rw [← withPositions_none, map_snd_withPositions]
  have own : ∀ x ∈ keyed factors true es, ∀ v, landing? factors x.2 = some v → x.1 = some v := by
    intro x hx v hv
    have hmem : x.2 ∈ es := by
      rw [← keys]
      exact List.mem_map_of_mem hx
    rw [← withPositions_none] at hx
    exact withPositions_fst_of_positionOf? hx
      (marker?_of_barePosition? (barePosition?_of_landing? hv) (groups _ hmem))
  rw [← keys, List.filterMap_map, List.pairwise_filterMap]
  refine sorted.imp_of_mem fun {x y} hx hy hxy v hv w hw => ?_
  rwa [own x hx v hv, own y hy w hw] at hxy

/-- Sorting and the passes agree about an expression of a CSV route unless it is a length with an
empty group behind it or with a blank inside. -/
theorem marker?_iff_interpret {e : Expression} (he : e.header? = none) (s : Scope) :
    (∀ v, marker? factors e = some v ↔ interpret .csv factors s e = .ok (.position v false)) ↔
      ¬ IsLengthWithGroup factors e ∧ ¬ IsLengthWithBlank factors e := by
  rw [← marker?_eq_barePosition?, Option.ext_iff]
  exact forall_congr' fun v => by rw [interpret_eq_position he s]

variable [OrderedScalar R]

theorem sorted_of_mem_sections {es run : List Expression}
    (h : run ∈ (sections (sortByPosition factors .csv es)).1 ::
      (sections (sortByPosition factors .csv es)).2.map (·.2)) :
    (keyed factors true run).Pairwise fun a b => positionBefore a.1 b.1 := by
  have sorts (before : List Expression) :
      (keyed factors true (sortRun factors true before)).Pairwise
        fun a b => positionBefore a.1 b.1 := (sortedRun_sortRun factors true before).sorted
  have numbered (e : Expression) : numberedBehind .csv e = true := by
    unfold numberedBehind numbersAllowed
    cases e.header? <;> simp
  rw [sections_sortByPosition] at h
  rcases List.mem_cons.1 h with rfl | h
  · exact sorts _
  · obtain ⟨s, hs, rfl⟩ := List.mem_map.1 h
    obtain ⟨s, -, rfl⟩ := List.mem_map.1 hs
    rw [numbered]
    exact sorts _

/-- A position in front of a length with an empty group behind it stays there when a route is
sorted. -/
theorem sortByPosition_pair {e e' : Expression} {v : R} (he : e.header? = none)
    (he' : e'.header? = none) (hm : marker? factors e = some v)
    (hgroup : IsLengthWithGroup factors e') :
    sortByPosition factors .csv [e, e'] = [e, e'] := by
  have keys : keyed factors true [e, e'] = [(some v, e), (some v, e')] := by
    rw [← withPositions_none]
    simp [withPositions, hm, marker?_of_isLengthWithGroup hgroup]
  have stays : sortRun factors true [e, e'] = [e, e'] := by
    rw [sortRun_eq, keys, List.mergeSort_of_pairwise (by simpa using positionBefore_refl (some v))]
    rfl
  rw [sortByPosition_eq]
  simpa [sections, he, he', sortedSections, joined] using stays

/-- Sorting and the passes agree about the track positions of a CSV route but for lengths with an
empty group behind them or a blank inside. The second pass over a sorted route goes to ascending
positions between two headers, whatever line and scope it comes with, if no length there has an
empty group behind it; a position in front of a lesser one with such a group stays there. -/
theorem positions_of_sorted (job : Job) (csv : job.settings.dialect = .csv)
    (keeps : job.settings.fixesLineEndings = false) (t : Tables R) (b : Building R) :
    let factors := t.options.unitOfLength
    (∀ (e : Expression) (s : Scope), e.header? = none →
      ((∀ v, marker? factors e = some v ↔ interpret .csv factors s e = .ok (.position v false)) ↔
        ¬ IsLengthWithGroup factors e ∧ ¬ IsLengthWithBlank factors e)) ∧
    (∀ es run : List Expression,
      run ∈ (sections (sortByPosition factors .csv es)).1 ::
        (sections (sortByPosition factors .csv es)).2.map (·.2) →
      (∀ e ∈ run, ¬ IsLengthWithGroup factors e) →
      (positions (deeds job t b run)).Pairwise fun v w => Scalar.sortsBefore v w) ∧
    ∀ (e e' : Expression) (v w : R), e.header? = none → e'.header? = none →
      barePosition? factors e = some v → ¬ v < 0 → ¬ IsLengthWithGroup factors e →
      barePosition? factors e' = some w → ¬ w < 0 → IsLengthWithGroup factors e' →
      positions (deeds job t b (sortByPosition factors .csv [e, e'])) = [v, w] := by
  intro factors
  refine ⟨fun e s he => marker?_iff_interpret he s, fun es run hrun groups => ?_, ?_⟩
  · rw [positions_deeds csv keeps]
    exact pairwise_landing? (sorted_of_mem_sections hrun) groups
  · intro e e' v w he he' hv hv0 hgroup hw hw0 hgroup'
    have stays := sortByPosition_pair he he' (marker?_of_barePosition? hv hgroup) hgroup'
    have first : landing? factors e = some v := by
      simp [landing?, he, hv, Option.filter_some, hv0]
    have second : landing? factors e' = some w := by
      simp [landing?, he', hw, Option.filter_some, hw0]
    rw [positions_deeds csv keeps, stays]
    simp [factors, first, second]

/-! ## Two routes -/

/-- Expressions of a CSV route, by their texts. -/
def csvExpressions (texts : List String) : List Expression := texts.map (⟨⟨"", 1, 1⟩, ·⟩)

/-- Two positions out of order are gone to in ascending order. -/
theorem positions_of_sorted_unsorted :
    let t : Tables ℚ := .initial
    let run := csvExpressions ["25", "50", "Track.Pitch 4"]
    quietJob.settings.dialect = .csv ∧ quietJob.settings.fixesLineEndings = false ∧
      sortByPosition t.options.unitOfLength .csv
        (csvExpressions ["50", "Track.Pitch 4", "25"]) = run ∧
      positions (deeds quietJob t (start quietJob t) run) = [25, 50] ∧
      ([25, 50] : List ℚ).Pairwise fun v w => Scalar.sortsBefore v w := by
  intro t run
  have sorts : sortByPosition t.options.unitOfLength .csv
      (csvExpressions ["50", "Track.Pitch 4", "25"]) = run := by cbv
  have gone : positions (deeds quietJob t (start quietJob t) run) = [25, 50] := by
    with_unfolding_all decide
  have plain : ∀ e ∈ run, ¬ IsLengthWithGroup t.options.unitOfLength e := by
    have agree : ∀ e ∈ run,
        marker? t.options.unitOfLength e = barePosition? t.options.unitOfLength e := by
      with_unfolding_all decide
    exact fun e he => (marker?_eq_barePosition?.1 (agree e he)).1
  obtain ⟨-, ascending, -⟩ := positions_of_sorted quietJob rfl rfl t (start quietJob t)
  refine ⟨rfl, rfl, sorts, gone, ?_⟩
  rw [← gone]
  refine ascending (csvExpressions ["50", "Track.Pitch 4", "25"]) run ?_ plain
  rw [sorts]
  decide

/-- A position written with an empty group is gone to after a greater one. -/
theorem descends_of_emptyGroup :
    let t : Tables ℚ := .initial
    let group : Expression := ⟨⟨"", 1, 1⟩, "100()"⟩
    interpret .csv t.options.unitOfLength .initial group = .ok (.position 100 false) ∧
      marker? t.options.unitOfLength group = none ∧
      ¬ (positions (deeds quietJob t (start quietJob t)
        (sortByPosition t.options.unitOfLength .csv (csvExpressions ["200", "100()"])))).Pairwise
          fun v w => Scalar.sortsBefore v w := by
  intro t group
  have sorts : sortByPosition t.options.unitOfLength .csv (csvExpressions ["200", "100()"]) =
      csvExpressions ["200", "100()"] := by cbv
  have bare : barePosition? t.options.unitOfLength group = some 100 := by
    with_unfolding_all decide
  have header : group.header? = none := by decide
  refine ⟨(interpret_eq_position header .initial).2 bare, by decide, ?_⟩
  rw [sorts]
  with_unfolding_all decide

end RailRoute.Compile
