import Mathlib
import RailRoute.Proofs.Command.Idle
import RailRoute.Proofs.Compile.Passes
import RailRoute.Proofs.Compile.Units
import RailRoute.Proofs.Source.Verbatim

/-!
# Expressions that wait for the second pass

Track positions and commands of the track open no scope, set no options and fill no tables. So a
route of these is compiled to what the second pass lays, in the order that sorting leaves, with the
tables that both passes start from. Main statements: `outcome_of_isQuiet` and
`result_of_isVerbatim`.
-/

namespace RailRoute

open Text Source

variable {R : Type}

/-! ## What is quiet ahead of the second pass -/

/-- Whether an expression opens no scope, and is no command that is dealt with ahead of the second
pass. -/
structure Source.Expression.IsQuiet (R : Type) [Scalar R] (e : Expression) : Prop where
  opens : openedBy? e = none
  idle : ∀ c, interpret .csv ([1] : List R) .initial e = .ok (.command c) → c.IsIdle

section Quiet

variable [Scalar R] {e : Expression}

theorem Source.Expression.IsQuiet.header?_eq_none (h : e.IsQuiet R) :
    e.header? = none := by
  have opens := h.opens
  unfold openedBy? at opens
  split at opens
  · cases opens
  · assumption

theorem exists_readCommand_of_interpret {factors : List R} {s : Scope} {c : Command}
    (h : interpret .csv factors s e = .ok (.command c)) :
    readCommand R s (separate e.text.toList).1 (separate e.text.toList).2 = .ok c := by
  unfold interpret at h
  dsimp only at h
  split at h
  · cases h
  · split at h
    · cases h
    · split_ifs at h
      · cases h
      · cases hread : readCommand R s (separate e.text.toList).1 (separate e.text.toList).2 with
        | error p => simp [hread, Except.map] at h
        | ok c' =>
          rw [hread] at h
          cases h
          rfl

theorem prefix_trimEnd {w x : List Char} {d : Char} (hd : ¬ isBlank d)
    (h : w ++ [d] <+: x) : w ++ [d] <+: trimEnd x := by
  obtain ⟨r, rfl⟩ := h
  rw [List.append_assoc, List.singleton_append, trimEnd_append_cons hd]
  exact ⟨trimEnd r, by simp⟩

/-- A command keeps its namespace when it is separated from its arguments. -/
theorem trackHead_separate {cs : List Char} (head : "track.".toList <+: lower cs)
    (trimmed : trim cs = cs) : "track.".toList <+: lower (separate cs).1 := by
  obtain ⟨y, hy⟩ := head
  obtain ⟨w, r, rfl, hw, -⟩ := List.map_eq_append_iff.1 hy.symm
  have name : IsName w := by
    unfold IsName
    rw [lower, hw]
    decide
  obtain ⟨w, d, rfl⟩ : ∃ w' d, w = w' ++ [d] := by
    rcases List.eq_nil_or_concat' w with rfl | h
    · cases hw
    · exact h
  have solid : ¬ isBlank d := name.solid d (by simp)
  have kept : w ++ [d] <+: (separate (w ++ [d] ++ r)).1 := by
    unfold separate
    dsimp only
    rw [trimmed, cutOutside?_append name.isPlain name.solid]
    cases hcut : cutOutside? isBlank 0 r with
    | some x => exact prefix_trimEnd solid (List.prefix_append ..)
    | none =>
      dsimp only [Option.map_none]
      split
      · rename_i c command inside hgroup
        have whole : w ++ [d] <+: c :: command ++ '(' :: (inside ++ [')']) :=
          ⟨r, by simpa using trailingGroup?_eq_some hgroup⟩
        exact prefix_trimEnd solid
          (prefix_of_append_cons whole fun h => (name.isPlain _ h).1 rfl)
      · exact List.prefix_append ..
  obtain ⟨x, hx⟩ := kept
  rw [← hx, lower, List.map_append, hw]
  exact List.prefix_append ..

/-- Commands of the track are quiet, whatever follows the namespace. -/
theorem isQuiet_of_trackHead (head : "track.".toList <+: lower e.text.toList)
    (trimmed : trim e.text.toList = e.text.toList) : e.IsQuiet R where
  opens := by
    by_contra h
    obtain ⟨c, r, htrim, hc⟩ := exists_of_openedBy? (Option.isSome_iff_ne_none.2 h)
    rw [← trimmed, htrim] at head
    have first : c.toLower = 't' := (List.cons_prefix_cons.1 head).1.symm
    rcases hc with rfl | rfl | rfl <;> exact absurd first (by decide)
  idle c hc :=
    isIdle_of_trackHead (trackHead_separate head trimmed) (exists_readCommand_of_interpret hc)

/-- Track positions are quiet. -/
theorem isQuiet_of_isNumber {x : R} (h : IsNumber e x) : e.IsQuiet R where
  opens := by
    by_contra opens
    obtain ⟨s, hs⟩ := Option.ne_none_iff_exists'.1 opens
    have scope := (interpret_eq_scope_iff .csv ([1] : List R) .initial e s).2 hs
    rw [h.interpret_csv (f := 1) rfl] at scope
    cases scope
  idle c hc := by
    rw [h.interpret_csv (f := 1) rfl] at hc
    cases hc

end Quiet

/-! ## Quiet expressions in the passes -/

namespace Compile

section Quiet

variable [Scalar R] {job : Job} {es : List Expression}

/-- Quiet expressions set no options. -/
theorem options_readAhead_of_isQuiet (quiet : ∀ e ∈ es, e.IsQuiet R) :
    (Options.readAhead .csv es).options = (Options.initial : Options R) := by
  let start : Options.Reading R := ⟨Options.initial, Scope.initial, #[]⟩
  have stays (e : Expression) (h : e.IsQuiet R) : Options.readOne .csv start e = start := by
    unfold Options.readOne
    rw [Expression.normalized_csv]
    dsimp only
    split
    · rename_i c hc
      exact if_neg fun root => (h.idle c hc).root (by simp [root, settledRoots])
    · rw [Scope.after_interpret, h.opens]
      rfl
  have whole : es.foldl (Options.readOne .csv) start = start := by
    induction es with
    | nil => rfl
    | cons e es ih =>
      obtain ⟨here, behind⟩ := List.forall_mem_cons.1 quiet
      rw [List.foldl_cons, stays e here, ih behind]
  exact congrArg Options.Reading.options whole

theorem tables_gatherOne_of_isQuiet (csv : job.settings.dialect = .csv) {e : Expression}
    (quiet : e.IsQuiet R) {g : Gathering R} (meters : g.tables.options.unitOfLength = [1])
    (start : g.scope = .initial) : (gatherOne job g e).1.tables = g.tables := by
  unfold gatherOne
  rw [csv, Expression.normalized_csv, meters, start]
  dsimp only
  split
  · rfl
  · rename_i c hc
    split
    · rfl
    · rename_i part target
      dsimp only
      rw [(quiet.idle c hc).value?_update target]
      rfl
  · rfl

/-- Quiet expressions leave the tables as they are. -/
theorem tables_foldl_gatherOne_of_isQuiet (csv : job.settings.dialect = .csv)
    (quiet : ∀ e ∈ es, e.IsQuiet R) {g : Gathering R}
    (meters : g.tables.options.unitOfLength = [1]) (start : g.scope = .initial) :
    (es.foldl (fun g e => (gatherOne job g e).1) g).tables = g.tables := by
  induction es generalizing g with
  | nil => rfl
  | cons e es ih =>
    obtain ⟨here, behind⟩ := List.forall_mem_cons.1 quiet
    have tables := tables_gatherOne_of_isQuiet csv here meters start
    have scope : (gatherOne job g e).1.scope = .initial := by
      rw [scope_gatherOne, csv, opened?, Expression.normalized_csv, here.opens, start]
      rfl
    rw [List.foldl_cons, ih behind (by rw [tables, meters]) scope, tables]

/-- What both passes make of quiet expressions in the order that they are laid in. -/
def laidInOrder (R : Type) [Scalar R] (job : Job) (es : List Expression) : CompiledRoute R :=
  let t : Tables R := (gatherStart job (startTables job.settings .initial)).tables
  if job.settings.preview then previewed t
  else
    let line := (es.foldl (fun b e => (layOne job t b e).1) (start job t)).laying.line
    ⟨t, line, Assembly.assemble line t⟩

theorem outcome_of_isQuiet (csv : job.settings.dialect = .csv) (quiet : ∀ e ∈ es, e.IsQuiet R) :
    outcome job es = laidInOrder R job (sortByPosition ([1] : List R) .csv es) := by
  have quiet' : ∀ e ∈ sortByPosition ([1] : List R) .csv es, e.IsQuiet R := fun e he =>
    quiet e ((sortByPosition_perm ..).mem_iff.1 he)
  have tables : (firstPass job es).tables =
      (gatherStart job (startTables job.settings (Options.initial : Options R))).tables := by
    unfold firstPass
    rw [csv, options_readAhead_of_isQuiet quiet]
    exact tables_foldl_gatherOne_of_isQuiet csv quiet' rfl rfl
  have interpreted : (firstPass (R := R) job es).interpreted.toList =
      sortByPosition ([1] : List R) .csv es := by
    unfold firstPass
    rw [interpreted_gathered csv, csv, options_readAhead_of_isQuiet quiet]
    rfl
  rw [outcome_eq, laidInOrder, tables]
  simp only [builtRoute, laid, steps, tables, interpreted, laying_foldl_layOne]

end Quiet

/-! ## Routes without directives -/

/-- A route without directives is compiled as it is written. -/
theorem result_of_isVerbatim [Scalar R] (settings : Settings) (csv : settings.dialect = .csv)
    (host : Host) {path : String} {lines : List (List Char)}
    (h : ∀ e ∈ splitLines path .csv lines, e.IsVerbatim) :
    (compileLines R settings host path lines).result =
      (runPasses (.ofPath settings host path) (splitLines path .csv lines)
        ((CallLog.empty.loading true).messages [])).1 := by
  have expands : expanded R (.ofPath settings host path) path lines =
      ⟨[], .ok (splitLines path .csv lines)⟩ := by
    rw [expanded, Job.ofPath, csv, expand_of_isVerbatim R h]
  unfold compileLines run
  dsimp only
  rw [← expanded, expands]

end Compile

end RailRoute
