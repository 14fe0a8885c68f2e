import Mathlib
import RailRoute.Proofs.Block.Placement
import RailRoute.Proofs.Compile.FirstPass
import RailRoute.Proofs.Compile.Invariants
import RailRoute.Proofs.Compile.SecondPass
import RailRoute.Proofs.Source.Verbatim

/-!
# What a compilation comes to

A compilation is told from its expanded expressions: whatever it returns is what both passes make of
them, and unless the host stops it, it does return that and has said what the passes have to say.
So what holds of every line holds of the line of every route. Main statements:
`exists_of_run_eq_ok`, `run_eq` and `said_run`.
-/

namespace RailRoute

open Laying

variable {R : Type}

/-! ## Messages -/

namespace CallLog

/-- The messages among the calls so far. -/
def said (l : CallLog R) : List Message :=
  l.calls.toList.filterMap fun
    | .message m => some m
    | _ => none

@[simp] theorem said_empty : (empty : CallLog R).said = [] := rfl

@[simp] theorem said_loading (l : CallLog R) (on : Bool) : (l.loading on).said = l.said := by
  simp [said, loading]

@[simp] theorem said_progress (l : CallLog R) (fraction : R) :
    (l.progress fraction).said = l.said := by
  simp [said, progress]

@[simp] theorem said_messages (l : CallLog R) (ms : List Message) :
    (l.messages ms).said = l.said ++ ms := by
  simp [said, messages, List.filterMap_map]

@[simp] theorem said_problems (l : CallLog R) (e : Source.Expression) (ps : List Problem) :
    (l.problems e ps).said = l.said ++ e.location.messages ps := said_messages l _

end CallLog

namespace Compile

variable [Scalar R]

/-! ## The first pass -/

/-- Where the first pass starts. -/
def gatherStart (job : Job) (tables : Tables R) : Gathering R :=
  let structures := if job.settings.preview then tables.structures
    else tables.structures.withDefaultPoles job.host.assets job.folders
  ⟨{ tables with structures }, Scope.initial, #[]⟩

/-- What the first pass has to say. -/
def gatherMessages (job : Job) : Gathering R → List Source.Expression → List Message
  | _, [] => []
  | g, e :: es =>
    e.location.messages (gatherOne job g e).2 ++ gatherMessages job (gatherOne job g e).1 es

/-- The first pass has said it all once it comes to its end. -/
theorem said_gatherFrom {job : Job} {count j : Nat} {es : List Source.Expression}
    {g g' : Gathering R} {log : CallLog R} (h : (gatherFrom job count j es g log).1 = some g') :
    (gatherFrom job count j es g log).2.said = log.said ++ gatherMessages job g es := by
  induction es generalizing j g log with
  | nil => simp [gatherFrom, gatherMessages]
  | cons e es ih =>
    unfold gatherFrom at h ⊢
    dsimp only at h ⊢
    split_ifs at h with hstop
    rw [if_neg hstop, ih h]
    simp [gatherMessages]

theorem said_gather {job : Job} {tables : Tables R} {es : List Source.Expression} {g : Gathering R}
    {log log' : CallLog R} (h : gather job tables es log = (some g, log')) :
    log'.said = log.said ++ gatherMessages job (gatherStart job tables) es := by
  obtain rfl : (gather job tables es log).2 = log' := congrArg Prod.snd h
  exact said_gatherFrom (congrArg Prod.fst h)

/-! ## The second pass -/

/-- What the second pass has to say. -/
def layMessages (job : Job) (t : Tables R) : Building R → List Source.Expression → List Message
  | _, [] => []
  | b, e :: es =>
    e.location.messages (layOne job t b e).2 ++ layMessages job t (layOne job t b e).1 es

/-- The second pass has said it all once it comes to its end. -/
theorem said_layFrom {job : Job} {t : Tables R} {count j : Nat} {es : List Source.Expression}
    {b b' : Building R} {log : CallLog R} (h : (layFrom job t count j es b log).1 = some b') :
    (layFrom job t count j es b log).2.said = log.said ++ layMessages job t b es := by
  induction es generalizing j b log with
  | nil => simp [layFrom, layMessages]
  | cons e es ih =>
    unfold layFrom at h ⊢
    dsimp only at h ⊢
    split_ifs at h with hstop
    rw [if_neg hstop, ih h]
    simp [layMessages]

theorem said_lay {job : Job} {t : Tables R} {es : List Source.Expression} {b : Building R}
    {log log' : CallLog R} (h : lay job t es log = (some b, log')) :
    log'.said = log.said ++ layMessages job t (start job t) es := by
  obtain rfl : (lay job t es log).2 = log' := congrArg Prod.snd h
  exact said_layFrom (congrArg Prod.fst h)

theorem said_assemble (t : Tables R) (l : Line R) (log : CallLog R) :
    (assemble t l log).2.said = log.said := by
  have key (fs : List R) : (fs.foldl (fun log f =>
      log.progress (Scalar.two / Scalar.ofNat 3 + f / Scalar.ofNat 3)) log).said = log.said := by
    induction fs generalizing log with
    | nil => rfl
    | cons f fs ih => simp [ih]
  exact key _

/-! ## Both passes -/

/-- What the first pass makes of expanded expressions. -/
def firstPass (job : Job) (es : List Source.Expression) : Gathering R :=
  let options := (Options.readAhead (R := R) job.settings.dialect es).options
  gathered job (startTables job.settings options)
    (Source.sortByPosition options.unitOfLength job.settings.dialect es)

/-- The steps that the second pass takes for what the first pass has gathered. -/
def steps (job : Job) (g : Gathering R) : List (Deed R) :=
  deeds job g.tables (start job g.tables) g.interpreted.toList

/-- What the second pass has laid in the end, if the host does not stop it. -/
def laid (job : Job) (g : Gathering R) : Laying R := (start job g.tables).laying.run (steps job g)

/-- What both passes make of what the first pass has gathered, if the host does not stop them. -/
def builtRoute (job : Job) (g : Gathering R) : CompiledRoute R :=
  let line := (laid job g).line
  ⟨g.tables, line, Assembly.assemble line g.tables⟩

/-- What both passes make of sorted expressions under options that were read ahead. -/
def passed (job : Job) (options : Options R) (sorted : List Source.Expression) : CompiledRoute R :=
  let g := gathered job (startTables job.settings options) sorted
  if job.settings.preview then previewed g.tables else builtRoute job g

/-- What reading ahead and both passes over sorted expressions have to say. -/
def passMessages (job : Job) (reading : Options.Reading R) (sorted : List Source.Expression) :
    List Message :=
  let tables := startTables job.settings reading.options
  let g := gathered job tables sorted
  reading.messages.toList ++ gatherMessages job (gatherStart job tables) sorted ++
    if job.settings.preview then []
    else layMessages job g.tables (start job g.tables) g.interpreted.toList

/-- What both passes make of expanded expressions. -/
def outcome (job : Job) (es : List Source.Expression) : CompiledRoute R :=
  let options := (Options.readAhead (R := R) job.settings.dialect es).options
  passed job options (Source.sortByPosition options.unitOfLength job.settings.dialect es)

/-- What reading ahead and both passes have to say about expanded expressions. -/
def outcomeMessages (R : Type) [Scalar R] (job : Job) (es : List Source.Expression) :
    List Message :=
  let reading := Options.readAhead (R := R) job.settings.dialect es
  passMessages job reading
    (Source.sortByPosition reading.options.unitOfLength job.settings.dialect es)

theorem outcome_eq (job : Job) (es : List Source.Expression) : outcome (R := R) job es =
    if job.settings.preview then previewed (firstPass job es).tables
    else builtRoute job (firstPass job es) := rfl

section Whole

variable {job : Job} {path : String} {lines : List (List Char)} {log : CallLog R}

/-- The expanded expressions of a route, or why there are none, with the messages. -/
def expanded (R : Type) [Scalar R] (job : Job) (path : String) (lines : List (List Char)) :
    Source.Expanded :=
  Source.expand R ⟨job.settings.dialect, job.settings.encoding, job.host.files⟩ job.settings.seed
    (Source.splitLines path job.settings.dialect lines)

/-- Lines without dollar signs are expanded to the expressions that they are cut into. -/
theorem expanded_of_plain {es : List Source.Expression}
    (split : Source.splitLines path job.settings.dialect lines = es)
    (plain : ∀ e ∈ es, '$' ∉ e.text.toList)
    (whole : ∀ e ∈ es, Text.trim e.text.toList = e.text.toList ∧ e.text ≠ "") :
    (expanded R job path lines).result = .ok es := by
  have verbatim : ∀ e ∈ es, e.IsVerbatim := fun e he =>
    ⟨fun head => plain e he (List.mem_of_head? head), Source.scanInline_of_plain (plain e he),
      (whole e he).1, (whole e he).2⟩
  rw [expanded, split, Source.expand_of_isVerbatim R verbatim]

theorem eq_of_runPasses {es : List Source.Expression} {route : CompiledRoute R}
    (h : (runPasses job es log).1 = .ok route) : route = outcome job es ∧
      (runPasses job es log).2.said = log.said ++ outcomeMessages R job es := by
  unfold runPasses at h ⊢
  dsimp only at h ⊢
  split at h
  · cases h
  · rename_i g log₁ hg
    obtain rfl : g = firstPass job es := eq_of_gather (congrArg Prod.fst hg)
    have said₁ := said_gather hg
    rw [CallLog.said_messages, List.append_assoc] at said₁
    rw [outcome_eq]
    split_ifs at h ⊢ with preview
    · refine ⟨(Except.ok.inj h).symm, ?_⟩
      rw [said₁, outcomeMessages, passMessages, if_pos preview, List.append_nil]
    · split at h
      · cases h
      · rename_i b log₂ hb
        obtain rfl := Except.ok.inj h
        have lays : b.laying = laid job (firstPass job es) := layFrom_laying (congrArg Prod.fst hb)
        refine ⟨by simp only [builtRoute, assemble, lays], ?_⟩
        dsimp only
        rw [said_assemble, said_lay hb, said₁, List.append_assoc, outcomeMessages, passMessages,
          if_neg preview]
        rfl

/-- Whatever a compilation returns is what both passes make of the expanded expressions. -/
theorem exists_of_run_eq_ok {route : CompiledRoute R} (h : (run job path lines log).1 = .ok route) :
    ∃ es, (expanded R job path lines).result = .ok es ∧ route = outcome job es := by
  unfold run at h
  dsimp only at h
  split at h
  · cases h
  · rename_i es hes
    exact ⟨es, hes, (eq_of_runPasses h).1⟩

/-- What has been said in the end by a compilation that returns a route. -/
theorem said_run {route : CompiledRoute R} (h : (run job path lines log).1 = .ok route)
    {es : List Source.Expression} (expands : (expanded R job path lines).result = .ok es) :
    (run job path lines log).2.said =
      log.said ++ ((expanded R job path lines).messages ++ outcomeMessages R job es) := by
  unfold run at h ⊢
  dsimp only at h ⊢
  rw [← expanded, expands] at h ⊢
  rw [(eq_of_runPasses h).2, CallLog.said_messages, List.append_assoc]

/-- A compiled route is a preview, without a line and a track, or it is built from what the first
pass has gathered. -/
theorem exists_of_compileLines {settings : Settings} {host : Host}
    {route : CompiledRoute R}
    (h : (compileLines R settings host path lines).result = .ok route) :
    let job := Job.ofPath settings host path
    ∃ es, (expanded R job path lines).result = .ok es ∧
      (settings.preview = true ∧ route = previewed (firstPass job es).tables ∨
        settings.preview = false ∧ route = builtRoute job (firstPass job es)) := by
  intro job
  obtain ⟨es, expands, rfl⟩ := exists_of_run_eq_ok h
  refine ⟨es, expands, ?_⟩
  rw [outcome_eq]
  cases builds : settings.preview with
  | true => exact Or.inl ⟨rfl, if_pos builds⟩
  | false => exact Or.inr ⟨rfl, if_neg (by simp [Job.ofPath, builds])⟩

theorem exists_runPasses_eq_ok (goesOn : job.host.cancelAt = none) (es : List Source.Expression)
    (log : CallLog R) : ∃ route, (runPasses job es log).1 = .ok route := by
  unfold runPasses
  dsimp only
  split
  · rename_i hg
    have := (congrArg Prod.fst hg).symm.trans (gather_eq_some goesOn ..)
    cases this
  · rename_i g log₁ hg
    split_ifs
    · exact ⟨_, rfl⟩
    · split
      · rename_i hb
        have ends : (lay job g.tables g.interpreted.toList log₁).1.isSome := layFrom_isSome goesOn ..
        rw [hb] at ends
        cases ends
      · exact ⟨_, rfl⟩

variable (job) in
/-- Unless the host stops it, a compilation with a sound structure comes to what both passes make of
the expanded expressions, and any other one fails. -/
theorem run_eq (goesOn : job.host.cancelAt = none) (path : String) (lines : List (List Char))
    (log : CallLog R) : (run job path lines log).1 =
      match (expanded R job path lines).result with
      | .error e => .error (.broken e)
      | .ok es => .ok (outcome job es) := by
  unfold run
  dsimp only
  rw [← expanded]
  cases (expanded R job path lines).result with
  | error e => rfl
  | ok es =>
    obtain ⟨route, h⟩ := exists_runPasses_eq_ok goesOn es
      (log.messages (expanded R job path lines).messages)
    exact h.trans (congrArg Except.ok (eq_of_runPasses h).1)

theorem firstPass_eq {es sorted : List Source.Expression} {factors : List R}
    (reads : (Options.readAhead job.settings.dialect es).options.unitOfLength = factors)
    (sorts : Source.sortByPosition factors job.settings.dialect es = sorted) :
    firstPass (R := R) job es = gathered job
      (startTables job.settings (Options.readAhead job.settings.dialect es).options) sorted := by
  subst reads sorts
  rfl

variable (job) in
/-- The route that is compiled from expressions that are known when they are expanded and sorted. -/
theorem run_eq_ok (goesOn : job.host.cancelAt = none) (builds : job.settings.preview = false)
    {es sorted : List Source.Expression} (expands : (expanded R job path lines).result = .ok es)
    {factors : List R}
    (reads : (Options.readAhead job.settings.dialect es).options.unitOfLength = factors)
    (sorts : Source.sortByPosition factors job.settings.dialect es = sorted) (log : CallLog R) :
    (run job path lines log).1 = .ok (builtRoute job (gathered job
      (startTables job.settings (Options.readAhead job.settings.dialect es).options) sorted)) := by
  rw [run_eq job goesOn, expands, ← firstPass_eq reads sorts]
  dsimp only
  rw [outcome_eq]
  exact congrArg Except.ok (if_neg (by simp [builds]))

/-- Compilations differ only if the expansions do. -/
theorem compileLines_congr {settings : Settings} {host : Host} {lines' : List (List Char)}
    (same : expanded R (.ofPath settings host path) path lines =
      expanded R (.ofPath settings host path) path lines') :
    compileLines R settings host path lines = compileLines R settings host path lines' := by
  unfold compileLines run
  dsimp only
  rw [← expanded, ← expanded, same]

theorem compileLines_of_expanded {settings : Settings} {host : Host} {route : CompiledRoute R}
    (h : (compileLines R settings host path lines).result = .ok route)
    {ms : List Message} {es : List Source.Expression}
    (expands : expanded R (.ofPath settings host path) path lines = ⟨ms, .ok es⟩) :
    route = outcome (.ofPath settings host path) es ∧
      (compileLines R settings host path lines).messages =
        ms ++ outcomeMessages R (.ofPath settings host path) es := by
  have result := congrArg Source.Expanded.result expands
  obtain ⟨es', result', rfl⟩ := exists_of_run_eq_ok h
  obtain rfl := Except.ok.inj (result'.symm.trans result)
  refine ⟨rfl, (CallLog.said_loading _ false).trans ((said_run h result).trans ?_)⟩
  rw [expands]
  rfl

/-- Only the host keeps expanded expressions from a result. -/
theorem exists_compileLines_eq_ok {settings : Settings} {host : Host}
    (goesOn : host.cancelAt = none) {es : List Source.Expression}
    (expands : (expanded R (.ofPath settings host path) path lines).result = .ok es) :
    ∃ route, (compileLines R settings host path lines).result = .ok route := by
  refine ⟨outcome (.ofPath settings host path) es, (run_eq _ goesOn path lines _).trans ?_⟩
  rw [expands]

end Whole

/-! ## The line -/

section Line

variable (job : Job) (g : Gathering R)

theorem admitted_steps : ∀ i ∈ (start job g.tables).laying.issues (steps job g),
    i.action.Admitted g.tables i.laying := admitted_deeds job _ _ _

theorem intact_laid : (laid job g).Intact g.tables :=
  intact_run (intact_initial ..) (admitted_steps job g)

end Line

section Exact

variable {R : Type} [ExactScalar R] (job : Job) (g : Gathering R)

theorem nonneg_steps : ∀ p ∈ positions (steps job g), 0 ≤ p := nonneg_positions job _ _ _

theorem placed_laid : (laid job g).Placed :=
  placed_run (placed_initial ..) (admitted_steps job g)

variable {job g} in
theorem ordered_laid (asc : (positions (steps job g)).Pairwise (· ≤ ·)) : (laid job g).Ordered :=
  ordered_run Nat.one_pos (ordered_initial ..) (List.pairwise_cons.2 ⟨nonneg_steps job g, asc⟩)
    (admitted_steps job g)

theorem inBounds_laid (es : List Source.Expression) :
    (laid (R := R) job (firstPass job es)).InBounds :=
  inBounds_run (inBounds_initial (not_le.1 (blockInterval_gathered job _ _ _)) _)
    (nonneg_steps job _) (admitted_steps job _)

end Exact

end Compile

end RailRoute
