import Mathlib
import RailRoute.Proofs.Compile.Division

/-!
# Routes in another unit of length

A route may be written in another unit of length: all positions and all lengths among the arguments
are divided by the unit, and the unit is set in front. It is compiled to the same route, as long as
no length is left to a default that counts in the unit. These are the length of a block and the
tolerances of a stop; all other defaults are the same distance in every unit. Main statement:
`compileLines_withUnit`.
-/

namespace RailRoute

open Source Command

/-- The compiled route with another unit of length. -/
def CompiledRoute.withUnit {R : Type} (u : R) (route : CompiledRoute R) : CompiledRoute R :=
  { route with tables := route.tables.withUnit u }

namespace Compile

/-! ## What the passes hand on -/

section Passes

variable {R : Type} [Scalar R] {job : Job}

theorem interpreted_gathered (csv : job.settings.dialect = .csv) (t : Tables R)
    (es : List Expression) : (gathered job t es).interpreted.toList = es := by
  have key (g : Gathering R) : (es.foldl (fun g e => (gatherOne job g e).1) g).interpreted.toList =
      g.interpreted.toList ++ es := by
    induction es generalizing g with
    | nil => simp
    | cons e es ih =>
      rw [List.foldl_cons, ih, interpreted_gatherOne, csv, Expression.normalized_csv]
      simp
  exact (key _).trans (List.nil_append es)

theorem laying_foldl_layOne (t : Tables R) (b : Building R) (es : List Expression) :
    (es.foldl (fun b e => (layOne job t b e).1) b).laying = b.laying.run (deeds job t b es) := by
  induction es generalizing b with
  | nil => rfl
  | cons e es ih =>
    rw [List.foldl_cons, ih, layOne_laying, deeds]
    exact (List.foldl_append ..).symm

end Passes

/-! ## Division -/

variable {R : Type} [ExactScalar R] {u : R} {job : Job}

/-- The expressions of a CSV route as both passes go through them, if its lengths are in meters. -/
def sorted (R : Type) [Scalar R] (es : List Expression) : List Expression :=
  sortByPosition ([1] : List R) .csv es

/-- Whether some expressions come of others by division of all track positions and of all lengths
among the arguments of commands. What an expression means is told by the scopes in force, which are
those of the file when the options are read ahead and those of the sorted expressions in both
passes. -/
structure IsDivision (job : Job) (u : R) (f : Expression → Expression) (es : List Expression) :
    Prop where
  header : ∀ e ∈ es, (f e).header? = e.header?
  position : ∀ e ∈ es, marker? ([1] : List R) (f e) = (marker? [1] e).map (· / u)
  ahead : List.Forall₂ (Matches u Interpretation.IdleAhead) (readings .initial es)
    (readings .initial (es.map f))
  gathered : List.Forall₂ (Matches u (IdleGathering job)) (readings .initial (sorted R es))
    (readings .initial ((sorted R es).map f))
  laid : List.Forall₂ (Matches u IdleLaying)
    (readings .initial ((sorted R es).map (fixEnding job.settings.fixesLineEndings)))
    (readings .initial (((sorted R es).map f).map (fixEnding job.settings.fixesLineEndings)))

/-- The commands among expressions of a CSV route that are read one after the other. -/
def commands (R : Type) [Scalar R] (es : List Expression) : List Command :=
  (readings (R := R) .initial es).filterMap command?

/-- Whether no option sets the unit of length. -/
def IsUnitless (R : Type) [Scalar R] (es : List Expression) : Prop :=
  ∀ c ∈ commands R es, c.root = "options" → c.name ≠ "unitoflength"

/-- Whether no block length and no tolerance of a stop is left out. -/
structure StatesDefaults (R : Type) [Scalar R] (job : Job) (es : List Expression) : Prop where
  ahead : ∀ c ∈ commands R es, c.root = "options" → ∀ i ∈ c.defaultedPlaces, c.States R i
  laid : ∀ c ∈ commands R ((sorted R es).map (fixEnding job.settings.fixesLineEndings)),
    c.root = "track" → ∀ i ∈ c.defaultedPlaces, c.States R i

/-! ## The whole -/

section Whole

variable {unit : Expression} {number : String} (sets : SetsUnit u unit number)

include sets

theorem readOne_unit (pos : 0 < u) :
    Options.readOne .csv ⟨Options.initial, Scope.initial, #[]⟩ unit =
      ⟨Options.initial.withUnit u, Scope.initial, #[]⟩ := by
  have value : parseLenient number.toList = some u := parseLenient_of_parseNumber sets.number.value
  unfold Options.readOne
  rw [Expression.normalized_csv]
  dsimp only
  rw [sets.interpret_eq]
  dsimp only
  rw [if_pos rfl, Options.update_unitOfLength_singleton pos value]
  rfl

variable (csv : job.settings.dialect = .csv)

include csv

theorem gatherOne_unit (g : Gathering R) (start : g.scope = Scope.initial) :
    (gatherOne job g unit).1 = { g with interpreted := g.interpreted.push unit } := by
  have target (preview : Bool) (arguments : List String) (raw : String) :
      targetPart? preview ⟨"options", "unitoflength", [], arguments, raw⟩ = none := by
    cases preview <;> rfl
  unfold gatherOne
  rw [csv, Expression.normalized_csv]
  dsimp only
  rw [start, sets.interpret_eq]
  dsimp only
  rw [target]
  simp only [Scope.after]

theorem layOne_unit (t : Tables R) (l : Laying R) :
    (layOne job t ⟨l, Scope.initial⟩ unit).1 = ⟨l, Scope.initial⟩ := by
  unfold layOne
  rw [csv, sets.fixEnding_eq]
  dsimp only
  rw [sets.interpret_eq]
  rfl

variable {f : Expression → Expression} {es : List Expression}
  (pos : 0 < u) (divides : IsDivision job u f es)

include pos divides

theorem inUnits_readAhead (unitless : IsUnitless R es) (states : StatesDefaults R job es) :
    (Options.readAhead job.settings.dialect es).InUnits u
      (Options.readAhead job.settings.dialect (unit :: es.map f)) := by
  have alike : List.Forall₂ (AheadInUnits u) (readings .initial es)
      (readings .initial (es.map f)) := by
    refine (List.forall₂_and_left ..).2 ⟨?_, divides.ahead⟩
    rintro _ hm c rfl root
    have mem : c ∈ commands R es := List.mem_filterMap.2 ⟨_, hm, rfl⟩
    exact ⟨unitless c mem root, states.ahead c mem root⟩
  have start : (⟨Options.initial, Scope.initial, #[]⟩ : Options.Reading R).InUnits u
      ⟨Options.initial.withUnit u, Scope.initial, #[]⟩ := ⟨Options.initial, rfl, rfl⟩
  unfold Options.readAhead
  rw [csv, List.foldl_cons, readOne_unit sets pos]
  exact Options.inUnits_foldl_readOne pos.ne' start rfl alike

theorem sortByPosition_unit : sortByPosition [u] job.settings.dialect (unit :: es.map f) =
    unit :: (sorted R es).map f := by
  have positions : ∀ e ∈ es, marker? [u] (f e) = marker? ([1] : List R) e := by
    intro e he
    rw [marker?_singleton, divides.position e he]
    cases marker? ([1] : List R) e with
    | none => rfl
    | some x => exact congrArg some (div_mul_cancel₀ x pos.ne')
  rw [csv, sortByPosition_cons sets.header?_eq_none (sets.marker?_eq_none _),
    sortByPosition_map divides.header positions, sorted]

theorem inUnits_firstPass (unitless : IsUnitless R es) (states : StatesDefaults R job es) :
    (firstPass job es).InUnits u (firstPass job (unit :: es.map f)) ∧
      (firstPass (R := R) job es).interpreted.toList = sorted R es ∧
      (firstPass (R := R) job (unit :: es.map f)).interpreted.toList =
        unit :: (sorted R es).map f := by
  obtain ⟨o, meters, units⟩ := inUnits_readAhead sets csv pos divides unitless states
  have sorts : sortByPosition ([1] : List R) job.settings.dialect es = sorted R es := by
    rw [csv, sorted]
  have sorts' := sortByPosition_unit sets csv pos divides
  have start : Gathering.InUnits u (gatherStart job (startTables job.settings (o.withUnit 1)))
      (gatherOne job (gatherStart job (startTables job.settings (o.withUnit u))) unit).1 := by
    rw [gatherOne_unit sets csv _ rfl]
    exact ⟨(gatherStart job (startTables job.settings (o.withUnit 1))).tables, rfl, rfl⟩
  have same : (gatherOne job (gatherStart job (startTables job.settings (o.withUnit u)))
      unit).1.scope = Scope.initial := by
    rw [gatherOne_unit sets csv _ rfl]
    rfl
  rw [firstPass_eq (congrArg Options.unitOfLength meters) sorts,
    firstPass_eq (congrArg Options.unitOfLength units) sorts', meters, units]
  exact ⟨inUnits_foldl_gatherOne csv pos.ne' start same divides.gathered,
    interpreted_gathered csv .., interpreted_gathered csv ..⟩

/-- Both passes come to the same but for the unit of length. -/
theorem outcome_withUnit (unitless : IsUnitless R es) (states : StatesDefaults R job es) :
    (outcome (R := R) job es).tables.options.unitOfLength = [1] ∧
      outcome job (unit :: es.map f) = (outcome (R := R) job es).withUnit u := by
  obtain ⟨⟨t, meters, units⟩, expressions, expressions'⟩ :=
    inUnits_firstPass sets csv pos divides unitless states
  have alike : List.Forall₂ (LaidInUnits u)
      (readings .initial ((sorted R es).map (fixEnding job.settings.fixesLineEndings)))
      (readings .initial
        (((sorted R es).map f).map (fixEnding job.settings.fixesLineEndings))) := by
    refine (List.forall₂_and_left ..).2 ⟨?_, divides.laid⟩
    rintro _ hm c rfl root
    exact states.laid c (List.mem_filterMap.2 ⟨_, hm, rfl⟩) root
  have lines : laid job (firstPass job (unit :: es.map f)) =
      laid (R := R) job (firstPass job es) := by
    have first : (layOne job (t.withUnit u) (start job (t.withUnit u)) unit).1 =
        start job (t.withUnit 1) := layOne_unit sets csv (t.withUnit u) _
    unfold laid steps
    rw [← laying_foldl_layOne, ← laying_foldl_layOne, expressions, expressions', List.foldl_cons,
      meters, units, first]
    exact foldl_layOne_withUnit csv pos.ne' t (start job (t.withUnit 1)) alike
  rw [outcome_eq, outcome_eq]
  split_ifs
  · rw [meters, units]
    exact ⟨rfl, rfl⟩
  · unfold builtRoute
    rw [lines, meters, units]
    exact ⟨rfl, rfl⟩

end Whole

/-- A CSV route that is written in another unit of length is compiled to the same, but for the unit
itself, as long as it states the block lengths and the tolerances of its stops. Whatever else is
left out is the same distance in every unit. -/
theorem compileLines_withUnit {settings : Settings} (csv : settings.dialect = .csv) {host : Host}
    {path : String} {lines lines' : List (List Char)} {u : R} (pos : 0 < u)
    {unit : Expression} {number : String} (sets : SetsUnit u unit number) {es : List Expression}
    {f : Expression → Expression} :
    let job := Job.ofPath settings host path
    let compiled (lines : List (List Char)) := (compileLines R settings host path lines).result
    (expanded R job path lines).result = .ok es →
    (expanded R job path lines').result = .ok (unit :: es.map f) →
    IsUnitless R es → IsDivision job u f es → StatesDefaults R job es →
      (host.cancelAt = none →
        (∃ route, compiled lines = .ok route) ∧ ∃ route', compiled lines' = .ok route') ∧
      ∀ route route', compiled lines = .ok route → compiled lines' = .ok route' →
        route.tables.options.unitOfLength = [1] ∧ route' = route.withUnit u := by
  intro job compiled expands expands' unitless divides states
  refine ⟨fun goesOn => ⟨exists_compileLines_eq_ok goesOn expands,
    exists_compileLines_eq_ok goesOn expands'⟩, fun route route' compiles compiles' => ?_⟩
  obtain ⟨es₁, expands₁, rfl⟩ := exists_of_run_eq_ok compiles
  obtain rfl : es₁ = es := Except.ok.inj (expands₁.symm.trans expands)
  obtain ⟨es₂, expands₂, rfl⟩ := exists_of_run_eq_ok compiles'
  obtain rfl : es₂ = unit :: es₁.map f := Except.ok.inj (expands₂.symm.trans expands')
  exact outcome_withUnit sets csv pos divides unitless states

/-! ## Short routes -/

/-- Sorted expressions without underscores at their ends are read alike in all three readings. -/
theorem isDivision_of_sorted {job : Job} (plain : job.settings.fixesLineEndings = false)
    {f : Expression → Expression} {es : List Expression} (sorts : sorted R es = es)
    (header : ∀ e ∈ es, (f e).header? = e.header?)
    (position : ∀ e ∈ es, marker? ([1] : List R) (f e) = (marker? [1] e).map (· / u))
    (divides : List.Forall₂ (Divides u) (readings .initial es) (readings .initial (es.map f))) :
    IsDivision job u f es := by
  have whole (es : List Expression) : es.map (fixEnding job.settings.fixesLineEndings) = es := by
    rw [plain]
    exact List.map_id es
  have alike (idle : Interpretation R → Prop) : List.Forall₂ (Matches u idle)
      (readings .initial es) (readings .initial (es.map f)) := divides.imp fun _ _ => Or.inl
  exact ⟨header, position, alike _, by rw [sorts]; exact alike _,
    by rw [sorts, whole, whole]; exact alike _⟩

/-- An expression as it is spelled in another route, one line further down. -/
def respelled (spellings : List (String × String)) (e : Expression) : Expression :=
  ⟨{ e.location with line := e.location.line + 1 }, (spellings.lookup e.text).getD e.text⟩

/-- A route in meters. One offset of the rail is left out. -/
def inMeters : List (List Char) :=
  ["Options.BlockLength 40", "100", "Track.RailStart 1;8", "Track.Sta A", "Track.Stop 0;4;6"].map
    String.toList

/-- The route in units of two meters. -/
def inUnits : List (List Char) :=
  ["Options.UnitOfLength 2", "Options.BlockLength 20", "50", "Track.RailStart 1;4", "Track.Sta A",
    "Track.Stop 0;2;3"].map String.toList

theorem compileLines_withUnit_inMeters :
    let compiled (lines : List (List Char)) :=
      (compileLines ℚ .initial quietJob.host "" lines).result
    ∃ route, compiled inMeters = .ok route ∧ compiled inUnits = .ok (route.withUnit 2) := by
  intro compiled
  let job : Job := .ofPath .initial quietJob.host ""
  let es : List Expression := [⟨⟨"", 1, 1⟩, "Options.BlockLength 40"⟩, ⟨⟨"", 2, 1⟩, "100"⟩,
    ⟨⟨"", 3, 1⟩, "Track.RailStart 1;8"⟩, ⟨⟨"", 4, 1⟩, "Track.Sta A"⟩,
    ⟨⟨"", 5, 1⟩, "Track.Stop 0;4;6"⟩]
  let unit : Expression := ⟨⟨"", 1, 1⟩, "Options.UnitOfLength 2"⟩
  let f : Expression → Expression := respelled
    [("Options.BlockLength 40", "Options.BlockLength 20"), ("100", "50"),
      ("Track.RailStart 1;8", "Track.RailStart 1;4"), ("Track.Stop 0;4;6", "Track.Stop 0;2;3")]
  have expands : (expanded ℚ job "" inMeters).result = .ok es :=
    expanded_of_plain (by decide) (by decide) (by decide)
  have expands' : (expanded ℚ job "" inUnits).result = .ok (unit :: es.map f) :=
    expanded_of_plain (by decide) (by decide) (by decide)
  have sets : SetsUnit (2 : ℚ) unit "2" := ⟨by decide, by decide +kernel, by decide +kernel⟩
  have sorts : sorted ℚ es = es := by cbv
  have unitless : IsUnitless ℚ es := by
    unfold IsUnitless
    decide
  have divides : IsDivision job (2 : ℚ) f es :=
    isDivision_of_sorted rfl sorts (by decide +kernel) (by decide +kernel) (by decide +kernel)
  have states : StatesDefaults ℚ job es := by
    refine ⟨by decide, ?_⟩
    rw [sorts]
    decide
  have law := compileLines_withUnit rfl (by norm_num) sets expands expands' unitless divides states
  obtain ⟨⟨route, compiles⟩, route', compiles'⟩ := law.1 rfl
  obtain ⟨-, rfl⟩ := law.2 route route' compiles compiles'
  exact ⟨route, compiles, compiles'⟩

/-- A route with a stop that leaves its tolerances out. -/
def tolerantStop : List (List Char) := ["0", "Track.Sta A", "Track.Stop 1"].map String.toList

/-- The route in units of two meters. -/
def tolerantStopInUnits : List (List Char) :=
  ["Options.UnitOfLength 2", "0", "Track.Sta A", "Track.Stop 1"].map String.toList

/-- The tolerances of the stops of a route. -/
def tolerances (route : CompiledRoute R) : List (R × R) :=
  route.line.stations.toList.flatMap fun station =>
    station.stops.toList.map fun stop => (stop.backwardTolerance, stop.forwardTolerance)

/-- Five units are twice as far. -/
theorem tolerances_of_tolerantStop :
    let job : Job := .ofPath .initial quietJob.host ""
    let compiled (lines : List (List Char)) :=
      (compileLines ℚ .initial quietJob.host "" lines).result
    ∃ es f unit route route', SetsUnit (2 : ℚ) unit "2" ∧
      (expanded ℚ job "" tolerantStop).result = .ok es ∧
      (expanded ℚ job "" tolerantStopInUnits).result = .ok (unit :: es.map f) ∧
      IsUnitless ℚ es ∧ IsDivision job (2 : ℚ) f es ∧
      compiled tolerantStop = .ok route ∧ compiled tolerantStopInUnits = .ok route' ∧
      tolerances route = [(5, 5)] ∧ tolerances route' = [(10, 10)] := by
  intro job compiled
  let es : List Expression :=
    [⟨⟨"", 1, 1⟩, "0"⟩, ⟨⟨"", 2, 1⟩, "Track.Sta A"⟩, ⟨⟨"", 3, 1⟩, "Track.Stop 1"⟩]
  let unit : Expression := ⟨⟨"", 1, 1⟩, "Options.UnitOfLength 2"⟩
  let f : Expression → Expression := respelled []
  let options (es : List Expression) : Options ℚ :=
    (Options.readAhead job.settings.dialect es).options
  have sets : SetsUnit (2 : ℚ) unit "2" := ⟨by decide, by decide +kernel, by decide +kernel⟩
  have expands : (expanded ℚ job "" tolerantStop).result = .ok es :=
    expanded_of_plain (by decide) (by decide) (by decide)
  have expands' : (expanded ℚ job "" tolerantStopInUnits).result = .ok (unit :: es.map f) :=
    expanded_of_plain (by decide) (by decide) (by decide)
  have unitless : IsUnitless ℚ es := by
    unfold IsUnitless
    decide
  have sorts : sortByPosition ([1] : List ℚ) job.settings.dialect es = es := by cbv
  have sorts' : sortByPosition ([2] : List ℚ) job.settings.dialect (unit :: es.map f) =
      unit :: es.map f := by cbv
  have divides : IsDivision job (2 : ℚ) f es :=
    isDivision_of_sorted rfl sorts (by decide +kernel) (by decide +kernel) (by decide +kernel)
  have factors : (options es).unitOfLength = [1] := by decide
  have factors' : (options (unit :: es.map f)).unitOfLength = [2] := by decide +kernel
  exact ⟨es, f, unit, _, _, sets, expands, expands', unitless, divides,
    run_eq_ok job rfl rfl expands factors sorts _, run_eq_ok job rfl rfl expands' factors' sorts' _,
    by decide +kernel, by decide +kernel⟩

end Compile

end RailRoute
