import Mathlib
import RailRoute.Proofs.Compile.Outcome
import RailRoute.Proofs.Compile.Scopes

/-!
# Previews

The metadata of a route depends on its options, on the sections its commands stand in and on the
commands of the namespace `route`, and no other command changes any of that. So a preview, which
leaves the other parts of the tables as they are, reads the same metadata as a whole compilation.
Main statement: `preview_agrees`.
-/

namespace RailRoute

open Check Source

variable {R : Type} [Scalar R]

/-- Only commands of the namespace `route` change the metadata. -/
theorem Tables.update_info {part : Part} (other : part ≠ .info) (assets : Assets)
    (folders : Folders) (c : Command) (t : Tables R) :
    Ensures (fun t' => t'.info = t.info) (t.update assets folders part c) := by
  unfold update
  cases part with
  | info => exact absurd rfl other
  | train | structures | signals | cycles => exact ensures_bind fun _ => ensures_pure rfl

theorem Tables.getD_update_info (assets : Assets) (folders : Folders) (c : Command)
    (t : Tables R) : ((t.update assets folders .info c).value?.getD t).info =
      (RouteInfo.update t.options folders c t.info).value?.getD t.info := by
  change (Option.getD (Check.bind _ _).value? t).info = _
  unfold Check.bind
  cases (RouteInfo.update t.options folders c t.info).value? <;> rfl

/-- The part of the tables that a command changes is the metadata for the namespace `route` only,
in a preview as well as else. -/
theorem Compile.targetPart?_eq_info_iff (preview : Bool) (c : Command) :
    targetPart? preview c = some .info ↔ c.root = "route" := by
  rw [← Tables.Part.ofRoot?_eq_info_iff]
  refine ⟨ofRoot?_of_targetPart?, fun root => ?_⟩
  simp [targetPart?, root]

namespace Compile

/-- The metadata behind an expression that stands under a scope. -/
def infoAfter (dialect : Dialect) (folders : Folders) (o : Options R) (s : Scope)
    (info : RouteInfo R) (e : Expression) : RouteInfo R :=
  match interpret dialect o.unitOfLength s (e.normalized R dialect s) with
  | .ok (.command c) =>
    if c.root = "route" then (RouteInfo.update o folders c info).value?.getD info else info
  | _ => info

theorem gatherOne_info (job : Job) (g : Gathering R) (e : Expression) :
    (gatherOne job g e).1.tables.info =
      infoAfter job.settings.dialect job.folders g.tables.options g.scope g.tables.info e := by
  unfold gatherOne infoAfter
  dsimp only
  cases interpret job.settings.dialect g.tables.options.unitOfLength g.scope _ with
  | error p => rfl
  | ok meaning =>
    cases meaning with
    | scope new => rfl
    | position value hasArguments => rfl
    | command c =>
      have target := targetPart?_eq_info_iff job.settings.preview c
      dsimp only
      split
      · rename_i hpart
        rw [if_neg (by simp [← target, hpart])]
      · rename_i part hpart
        by_cases hinfo : part = .info
        · subst hinfo
          rw [if_pos (target.1 hpart)]
          exact Tables.getD_update_info ..
        · rw [if_neg (by simp [← target, hpart, hinfo])]
          cases hu : (g.tables.update job.host.assets job.folders part c).value? with
          | none => rfl
          | some t => exact Tables.update_info hinfo _ _ _ _ t hu

/-- Whether two runs of the first pass know the same of a route, apart from what a preview does
without. -/
structure Gathering.Agrees (g g' : Gathering R) : Prop where
  options : g.tables.options = g'.tables.options
  info : g.tables.info = g'.tables.info
  scope : g.scope = g'.scope

section Pass

variable {job job' : Job} (dialect : job.settings.dialect = job'.settings.dialect)
  (folders : job.folders = job'.folders)

include dialect folders

theorem agrees_gatherOne {g g' : Gathering R} (h : g.Agrees g') (e : Expression) :
    (gatherOne job g e).1.Agrees (gatherOne job' g' e).1 where
  options := by rw [gatherOne_options, gatherOne_options, h.options]
  info := by rw [gatherOne_info, gatherOne_info, dialect, folders, h.options, h.info, h.scope]
  scope := by rw [scope_gatherOne, scope_gatherOne, dialect, h.scope]

theorem agrees_foldl_gatherOne {g g' : Gathering R} (h : g.Agrees g') (es : List Expression) :
    (es.foldl (fun g e => (gatherOne job g e).1) g).Agrees
      (es.foldl (fun g e => (gatherOne job' g e).1) g') := by
  induction es generalizing g g' with
  | nil => exact h
  | cons e es ih => exact ih (agrees_gatherOne dialect folders h e)

theorem agrees_gathered {t t' : Tables R} (options : t.options = t'.options)
    (info : t.info = t'.info) (es : List Expression) :
    (gathered job t es).Agrees (gathered job' t' es) := by
  have start : (gatherStart job t).Agrees (gatherStart job' t') := ⟨options, info, rfl⟩
  exact agrees_foldl_gatherOne dialect folders start es

end Pass

theorem agrees_firstPass (settings : Settings) (host : Host) (path : String)
    (es : List Expression) :
    (firstPass (R := R) (.ofPath { settings with preview := true } host path) es).Agrees
      (firstPass (.ofPath { settings with preview := false } host path) es) := by
  apply agrees_gathered <;> rfl

/-- A preview of a route has the options and the metadata of the whole route, and neither blocks nor
track. -/
theorem preview_agrees (settings : Settings) {host : Host} {path : String}
    {lines : List (List Char)} {preview whole : CompiledRoute R}
    (previews : (compileLines R { settings with preview := true } host path lines).result =
      .ok preview)
    (compiles : (compileLines R { settings with preview := false } host path lines).result =
      .ok whole) :
    preview.tables.options = whole.tables.options ∧ preview.tables.info = whole.tables.info ∧
      preview.line.blocks = #[] ∧ preview.track.elements = #[] := by
  obtain ⟨es, expands, ⟨-, rfl⟩ | ⟨builds, -⟩⟩ := exists_of_compileLines previews
  · obtain ⟨es', expands', ⟨previews', -⟩ | ⟨-, rfl⟩⟩ := exists_of_compileLines compiles
    · cases previews'
    · obtain rfl : es = es' := Except.ok.inj (expands.symm.trans expands')
      have agrees := agrees_firstPass (R := R) settings host path es
      exact ⟨agrees.options, agrees.info, rfl, rfl⟩
  · cases builds

/-- A short route with an option, metadata, a train and a track. -/
def describedRoute : List (List Char) :=
  ["Options.BlockLength 20", "With Route", ".Comment Coast", "Train.Folder none", "30",
    "Track.Pitch 5"].map String.toList

theorem preview_agrees_describedRoute :
    let compiled (preview : Bool) :=
      compileLines ℚ { Settings.initial with preview } quietJob.host "" describedRoute
    ∃ preview whole, (compiled true).result = .ok preview ∧ (compiled false).result = .ok whole ∧
      (preview.tables.options = whole.tables.options ∧ preview.tables.info = whole.tables.info ∧
        preview.line.blocks = #[] ∧ preview.track.elements = #[]) ∧
      whole.tables.info.comment = "Coast" ∧ whole.line.blocks.size = 2 := by
  intro compiled
  let es : List Expression := [⟨⟨"", 1, 1⟩, "Options.BlockLength 20"⟩, ⟨⟨"", 2, 1⟩, "With Route"⟩,
    ⟨⟨"", 3, 1⟩, ".Comment Coast"⟩, ⟨⟨"", 4, 1⟩, "Train.Folder none"⟩, ⟨⟨"", 5, 1⟩, "30"⟩,
    ⟨⟨"", 6, 1⟩, "Track.Pitch 5"⟩]
  have split : splitLines "" .csv describedRoute = es := by decide
  have expands (preview : Bool) : (expanded ℚ (.ofPath { Settings.initial with preview }
      quietJob.host "") "" describedRoute).result = .ok es :=
    expanded_of_plain split (by decide) (by decide)
  let job : Job := .ofPath { Settings.initial with preview := false } quietJob.host ""
  let options : Options ℚ := (Options.readAhead job.settings.dialect es).options
  have factors : options.unitOfLength = [1] := by decide +kernel
  have sorts : sortByPosition ([1] : List ℚ) job.settings.dialect es = es := by cbv
  let whole : CompiledRoute ℚ := builtRoute job
    (gathered job (startTables job.settings options) es)
  obtain ⟨preview, previews⟩ := exists_compileLines_eq_ok rfl (expands true)
  have compiles : (compiled false).result = .ok whole :=
    run_eq_ok job rfl rfl (expands false) factors sorts _
  have agrees := preview_agrees .initial previews compiles
  have comment : whole.tables.info.comment = "Coast" := by decide +kernel
  have size : whole.line.blocks.size = 2 := by decide +kernel
  exact ⟨preview, whole, previews, compiles, agrees, comment, size⟩

end Compile

end RailRoute
