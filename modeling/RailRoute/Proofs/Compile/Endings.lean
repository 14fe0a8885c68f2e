import Mathlib
import RailRoute.Proofs.Compile.Quiet
import RailRoute.Proofs.Source.Template

/-!
# Underscores at the ends

With line endings fixed, an underscore at the end of an expression is dropped in the second pass.
The sorting ahead of both passes still reads it, and a number with an underscore is no position
there. So a route of track positions and commands of the track that has an underscore behind every
expression is laid in the order that it is written in. If that is the order of the positions, it is
compiled like the route without underscores. Main statement: `compileLines_fixed`.
-/

namespace RailRoute

open Text Source

variable {R : Type}

/-! ## Expressions with an underscore -/

namespace Source

/-- Whether an expression is a number or begins like a command of the track, and has no directive in
it. -/
structure Expression.IsOfTrack (R : Type) [Scalar R] (e : Expression) : Prop where
  kind : (parseNumber e.text.toList : Option R).isSome ∨ "track.".toList <+: lower e.text.toList
  undirected : scanInline e.text.toList = .absent

instance (R : Type) [Scalar R] (e : Expression) : Decidable (e.IsOfTrack R) :=
  decidable_of_iff (((parseNumber e.text.toList : Option R).isSome ∨
      "track.".toList <+: lower e.text.toList) ∧ scanInline e.text.toList = .absent)
    ⟨fun h => ⟨h.1, h.2⟩, fun h => ⟨h.kind, h.undirected⟩⟩

/-- Whether one expression is written like another with an underscore behind it. -/
def IsUnderscored (e e' : Expression) : Prop := e'.text.toList = e.text.toList ++ ['_']

theorem forall_mem_of_isUnderscored {es es' : List Expression} {p : Expression → Prop}
    (under : List.Forall₂ IsUnderscored es es')
    (h : ∀ e ∈ es, ∀ e', IsUnderscored e e' → p e') : ∀ e' ∈ es', p e' := by
  induction under with
  | nil => simp
  | cons here _ ih =>
    obtain ⟨first, rest⟩ := List.forall_mem_cons.1 h
    exact List.forall_mem_cons.2 ⟨first _ here, ih rest⟩

theorem directiveHead?_eq_none_of_suffix {cs s : List Char} (h : findInline? cs = none)
    (hs : s <:+ cs) : directiveHead? ["chr", "rnd", "sub"] s = none := by
  induction cs with
  | nil =>
    obtain rfl := List.suffix_nil.1 hs
    rfl
  | cons c cs ih =>
    unfold findInline? at h
    split at h
    · cases h
    · rename_i here
      rcases List.suffix_cons_iff.1 hs with rfl | hs
      · exact here
      · exact ih (Option.map_eq_none_iff.1 h) hs

/-- No directive ends in an underscore. -/
theorem findInline?_append_underscore {cs : List Char} (h : findInline? cs = none) :
    findInline? (cs ++ ['_']) = none := by
  by_contra some
  obtain ⟨⟨before, name, inside⟩, hfind⟩ := Option.ne_none_iff_exists'.1 some
  obtain ⟨head, heq, hhead⟩ := findInline?_eq_some hfind
  obtain ⟨w, hw, spelled, gap, rfl, blank⟩ := directiveHead?_eq_some hhead
  -- The underscore belongs to what follows the opening parenthesis.
  obtain ⟨inside, rfl⟩ : ∃ r, inside = r ++ ['_'] := by
    rcases List.eq_nil_or_concat' inside with rfl | ⟨r, d, rfl⟩
    · have whole : cs ++ ['_'] = (before ++ '$' :: (name ++ gap)) ++ ['('] := by simp [heq]
      exact absurd (List.append_inj' whole rfl).2 (by decide)
    · have whole : cs ++ ['_'] = (before ++ '$' :: (name ++ (gap ++ '(' :: r))) ++ [d] := by
        simp [heq]
      exact ⟨r, by rw [(List.append_inj' whole rfl).2]⟩
  have whole : cs ++ ['_'] = (before ++ '$' :: (name ++ (gap ++ '(' :: inside))) ++ ['_'] := by
    simp [heq]
  have hcs := (List.append_inj' whole rfl).1
  have none := directiveHead?_eq_none_of_suffix h (hcs ▸ List.suffix_append before _)
  have spelled : ∃ directive : InlineName, directive.IsSpelled name := by
    simp only [List.mem_cons, List.not_mem_nil, or_false] at hw
    rcases hw with rfl | rfl | rfl
    · exact ⟨.character, spelled⟩
    · exact ⟨.random, spelled⟩
    · exact ⟨.substitution, spelled⟩
  obtain ⟨directive, spelled⟩ := spelled
  rw [spelled.directiveHead?_eq blank] at none
  cases none

theorem scanInline_append_underscore {cs : List Char} (h : scanInline cs = .absent) :
    scanInline (cs ++ ['_']) = .absent := by
  have none : findInline? cs = none := by
    unfold scanInline at h
    split at h
    · assumption
    · split at h <;> cases h
  rw [scanInline, findInline?_append_underscore none]

end Source

/-! ## Rows of the track -/

theorem isMark_toLower {c : Char} (h : ¬ IsForeign c) : isMark c.toLower := by
  by_cases digit : isDigit c
  · have same : c.toLower = c := by
      have bounds : 48 ≤ c.toNat ∧ c.toNat ≤ 57 := by
        simpa [isDigit, Char.le_def, UInt32.le_iff_toNat_le] using digit
      unfold Char.toLower
      split
      · rename_i upper
        have : 65 ≤ c.toNat ∧ c.toNat ≤ 90 := by simpa [UInt32.le_iff_toNat_le] using upper
        omega
      · rfl
    simp [isMark, same, digit]
  · have known : c ∈ ['-', '+', '.', 'e', 'E'] := by
      by_contra other
      exact h ⟨digit, other⟩
    simp only [List.mem_cons, List.not_mem_nil, or_false] at known
    rcases known with rfl | rfl | rfl | rfl | rfl <;> decide

section Rows

variable [Scalar R] {e e' : Expression} {x : R}

theorem mem_of_isUnderscored (h : IsNumber e x) (under : IsUnderscored e e') {c : Char}
    (hc : c ∈ e'.text.toList) : ¬ IsForeign c ∨ c = '_' := by
  rw [under, List.mem_append, List.mem_singleton] at hc
  exact hc.imp_left fun hmem foreign => h.not_mem foreign hmem

/-- A number with an underscore is a command that nobody heeds. -/
theorem isQuiet_of_isUnderscored (h : IsNumber e x) (under : IsUnderscored e e') :
    e'.IsQuiet R where
  opens := by
    by_contra opens
    obtain ⟨c, r, htrim, hc⟩ := exists_of_openedBy? (Option.isSome_iff_ne_none.2 opens)
    have hmem := (trim_isInfix _).subset (htrim ▸ List.mem_cons_self ..)
    rcases mem_of_isUnderscored h under hmem with known | rfl
    · rcases hc with rfl | rfl | rfl <;> exact known ⟨by decide, by decide⟩
    · simp at hc
  idle c hc := by
    refine isIdle_of_marks (fun d hd => ?_) (exists_readCommand_of_interpret hc)
    obtain ⟨b, hb, rfl⟩ := List.mem_map.1 hd
    have command := separate_prefix e'.text.toList
    have hmem := (trim_isInfix _).subset (command.subset hb)
    rcases mem_of_isUnderscored h under hmem with known | rfl
    · exact isMark_toLower known
    · decide

theorem trim_of_isUnderscored (trimmed : trim e.text.toList = e.text.toList)
    (under : IsUnderscored e e') : trim e'.text.toList = e'.text.toList := by
  have start : trimStart e.text.toList = e.text.toList := by
    cases htext : e.text.toList with
    | nil => rfl
    | cons c r =>
      exact List.dropWhile_cons_of_neg (not_isBlank_of_trim_eq_cons (trimmed.trans htext))
  rw [under, trim_append_cons (by decide), start]
  rfl

theorem fixEnding_of_isUnderscored (trimmed : trim e.text.toList = e.text.toList)
    (under : IsUnderscored e e') : (Compile.fixEnding true e').text = e.text := by
  have tail : beforeTail? ['_'] e'.text.toList = some e.text.toList := by
    rw [under, beforeTail?, if_pos (by simp [List.isSuffixOf_iff_suffix])]
    simp
  simp [Compile.fixEnding, tail, trimmed]

theorem marker?_of_isUnderscored (under : IsUnderscored e e') (factors : List R) :
    marker? factors e' = none := by
  cases h : marker? factors e' with
  | none => rfl
  | some v =>
    have there : '_' ∈ trim e'.text.toList :=
      mem_trim (under ▸ List.mem_append_right _ (List.mem_singleton_self _)) (by decide)
    exact absurd there
      (not_mem_of_parseLength ⟨by decide, by decide⟩ (by decide) (by decide) h)

end Rows

/-! ## Directives -/

namespace Source

theorem Expression.IsOfTrack.isVerbatim {R : Type} [Scalar R] {e : Expression}
    (h : e.IsOfTrack R) (trimmed : trim e.text.toList = e.text.toList) : e.IsVerbatim := by
  rcases h.kind with number | track
  · obtain ⟨x, hx⟩ := Option.isSome_iff_exists.1 number
    have number : IsNumber e x := ⟨hx, trimmed⟩
    exact ⟨fun head => number.not_mem (c := '$') ⟨by decide, by decide⟩ (List.mem_of_head? head),
      h.undirected, trimmed, number.text_ne⟩
  · refine ⟨fun head => ?_, h.undirected, trimmed, fun none => ?_⟩
    · obtain ⟨r, hr⟩ := List.head?_eq_some_iff.1 head
      rw [hr] at track
      exact absurd (List.cons_prefix_cons.1 track).1 (by decide)
    · rw [none] at track
      exact absurd track (by decide)

theorem IsUnderscored.isVerbatim {e e' : Expression} (under : IsUnderscored e e')
    (h : e.IsVerbatim) : e'.IsVerbatim where
  head := by
    cases htext : e.text.toList with
    | nil => exact absurd (String.toList_eq_nil_iff.1 htext) h.ne
    | cons c r =>
      have head := h.head
      rw [htext] at head
      rw [under, htext]
      exact head
  undirected := under ▸ scanInline_append_underscore h.undirected
  trimmed := trim_of_isUnderscored h.trimmed under
  ne none := by
    unfold IsUnderscored at under
    simp [none] at under

end Source

/-! ## Underscores in the second pass -/

namespace Compile

section Endings

variable [Scalar R] {job : Job} {es es' : List Expression}

/-- The job with line endings fixed or not. -/
def Job.withEndings (fixes : Bool) (job : Job) : Job :=
  { job with settings := { job.settings with fixesLineEndings := fixes } }

/-- The second pass reads the text of an expression and nothing else. -/
theorem layOne_withEndings (fixes fixes' : Bool) {e e' : Expression}
    (same : (fixEnding fixes' e').text = (fixEnding fixes e).text) (t : Tables R) (b : Building R) :
    (layOne (job.withEndings fixes') t b e').1 = (layOne (job.withEndings fixes) t b e).1 := by
  have reads : interpret job.settings.dialect t.options.unitOfLength b.scope (fixEnding fixes' e') =
      interpret job.settings.dialect t.options.unitOfLength b.scope (fixEnding fixes e) := by
    unfold interpret Expression.header?
    rw [same]
  unfold layOne
  simp only [Job.withEndings, reads]
  split <;> rfl

theorem foldl_layOne_withEndings (trimmed : ∀ e ∈ es, trim e.text.toList = e.text.toList)
    (under : List.Forall₂ IsUnderscored es es') (t : Tables R) (b : Building R) :
    es'.foldl (fun b e => (layOne (job.withEndings true) t b e).1) b =
      es.foldl (fun b e => (layOne (job.withEndings false) t b e).1) b := by
  induction under generalizing b with
  | nil => rw [List.foldl_nil, List.foldl_nil]
  | cons under _ ih =>
    obtain ⟨here, behind⟩ := List.forall_mem_cons.1 trimmed
    rw [List.foldl_cons, List.foldl_cons,
      layOne_withEndings false true (fixEnding_of_isUnderscored here under), ih behind]

theorem laidInOrder_withEndings (trimmed : ∀ e ∈ es, trim e.text.toList = e.text.toList)
    (under : List.Forall₂ IsUnderscored es es') :
    laidInOrder R (job.withEndings true) es' = laidInOrder R (job.withEndings false) es := by
  unfold laidInOrder
  simp only [foldl_layOne_withEndings trimmed under]
  rfl

end Endings

end Compile

/-! ## The whole -/

section Whole

variable [Scalar R] {e e' : Expression}

theorem Source.Expression.IsOfTrack.isQuiet (h : e.IsOfTrack R)
    (trimmed : trim e.text.toList = e.text.toList) : e.IsQuiet R := by
  rcases h.kind with number | track
  · obtain ⟨x, hx⟩ := Option.isSome_iff_exists.1 number
    exact isQuiet_of_isNumber ⟨hx, trimmed⟩
  · exact isQuiet_of_trackHead track trimmed

theorem Source.Expression.IsOfTrack.isQuiet_underscored (h : e.IsOfTrack R)
    (trimmed : trim e.text.toList = e.text.toList) (under : IsUnderscored e e') :
    e'.IsQuiet R := by
  rcases h.kind with number | track
  · obtain ⟨x, hx⟩ := Option.isSome_iff_exists.1 number
    exact isQuiet_of_isUnderscored ⟨hx, trimmed⟩ under
  · refine isQuiet_of_trackHead ?_ (trim_of_isUnderscored trimmed under)
    rw [under, lower, List.map_append]
    exact track.trans (List.prefix_append ..)

/-- Sorting leaves positions that stand in order where they are, and sees no position among
expressions with an underscore. So the same is laid. -/
theorem Compile.outcome_of_isUnderscored [ComparableScalar R] {job : Compile.Job}
    {es es' : List Expression} (csv : job.settings.dialect = .csv)
    (ofTrack : ∀ e ∈ es, e.IsOfTrack R) (trimmed : ∀ e ∈ es, trim e.text.toList = e.text.toList)
    (ascending : (es.filterMap (marker? ([1] : List R))).Pairwise (· ≤ ·))
    (under : List.Forall₂ IsUnderscored es es') :
    Compile.outcome (R := R) (job.withEndings true) es' =
      Compile.outcome (job.withEndings false) es := by
  have quiet : ∀ e ∈ es, e.IsQuiet R := fun e he => (ofTrack e he).isQuiet (trimmed e he)
  have quiet' : ∀ e ∈ es', e.IsQuiet R :=
    forall_mem_of_isUnderscored under fun e he e' under =>
      (ofTrack e he).isQuiet_underscored (trimmed e he) under
  have unmarked : es'.filterMap (marker? ([1] : List R)) = [] :=
    List.filterMap_eq_nil_iff.2
      (forall_mem_of_isUnderscored under fun e _ e' under => marker?_of_isUnderscored under _)
  have sorted : sortByPosition ([1] : List R) .csv es = es :=
    sortByPosition_eq_self (fun e he => (quiet e he).header?_eq_none) ascending
  have sorted' : sortByPosition ([1] : List R) .csv es' = es' :=
    sortByPosition_eq_self (fun e he => (quiet' e he).header?_eq_none) (by simp [unmarked])
  have csv (fixes : Bool) : (job.withEndings fixes).settings.dialect = .csv := csv
  rw [Compile.outcome_of_isQuiet (csv true) quiet', Compile.outcome_of_isQuiet (csv false) quiet,
    sorted, sorted', Compile.laidInOrder_withEndings trimmed under]

/-- A route of track positions that do not go back and of commands of the track is compiled to the
same with an underscore behind each expression, if line endings are fixed. -/
theorem compileLines_fixed [ComparableScalar R] {settings : Settings}
    (csv : settings.dialect = .csv) (host : Host) {path : String} {lines lines' : List (List Char)}
    (ofTrack : ∀ e ∈ splitLines path .csv lines, e.IsOfTrack R)
    (ascending : ((splitLines path .csv lines).filterMap (marker? ([1] : List R))).Pairwise (· ≤ ·))
    (under : List.Forall₂ IsUnderscored (splitLines path .csv lines)
      (splitLines path .csv lines')) :
    (compileLines R { settings with fixesLineEndings := true } host path lines').result =
      (compileLines R { settings with fixesLineEndings := false } host path lines).result := by
  let job := Compile.Job.ofPath settings host path
  let es := splitLines path .csv lines
  let es' := splitLines path .csv lines'
  have trimmed : ∀ e ∈ es, trim e.text.toList = e.text.toList := fun e he =>
    trimmed_of_mem_splitFrom he
  have verbatim : ∀ e ∈ es, e.IsVerbatim := fun e he => (ofTrack e he).isVerbatim (trimmed e he)
  have verbatim' : ∀ e ∈ es', e.IsVerbatim :=
    forall_mem_of_isUnderscored under fun e he e' under => under.isVerbatim (verbatim e he)
  have same : Compile.outcome (R := R) (job.withEndings true) es' =
      Compile.outcome (job.withEndings false) es :=
    Compile.outcome_of_isUnderscored csv ofTrack trimmed ascending under
  let log : CallLog R := (CallLog.empty.loading true).messages []
  calc (compileLines R { settings with fixesLineEndings := true } host path lines').result
    _ = (Compile.runPasses (job.withEndings true) es' log).1 :=
      Compile.result_of_isVerbatim { settings with fixesLineEndings := true } csv host verbatim'
    _ = (Compile.runPasses (job.withEndings false) es log).1 :=
      Compile.result_runPasses_congr (job.withEndings false) (job.withEndings true) rfl rfl
        under.length_eq.symm same rfl rfl
    _ = _ :=
      (Compile.result_of_isVerbatim { settings with fixesLineEndings := false } csv host
        verbatim).symm

end Whole

/-! ## Short routes -/

instance : DecidableRel IsUnderscored := fun e e' =>
  inferInstanceAs (Decidable (e'.text.toList = e.text.toList ++ ['_']))

/-- A route with buffers at two positions. -/
def buffered : List (List Char) :=
  ["10", "Track.Buffer", "50", "Track.Buffer"].map String.toList

/-- The lines of a route, each an expression, with an underscore behind each. -/
def underscored (lines : List (List Char)) : List (List Char) := lines.map (· ++ ['_'])

theorem compileLines_fixed_buffered :
    let es := splitLines "" .csv buffered
    (∀ e ∈ es, e.IsOfTrack Float) ∧ (es.filterMap (marker? ([1] : List Float))).Pairwise (· ≤ ·) ∧
      List.Forall₂ IsUnderscored es (splitLines "" .csv (underscored buffered)) ∧
      (compileLines Float { Settings.initial with fixesLineEndings := true }
        Compile.quietJob.host "" (underscored buffered)).result =
          (compileLines Float .initial Compile.quietJob.host "" buffered).result := by
  intro es
  have ofTrack : ∀ e ∈ es, e.IsOfTrack Float := by decide
  have ascending : (es.filterMap (marker? ([1] : List Float))).Pairwise (· ≤ ·) := by decide
  have under : List.Forall₂ IsUnderscored es (splitLines "" .csv (underscored buffered)) := by
    decide
  exact ⟨ofTrack, ascending, under, compileLines_fixed rfl _ ofTrack ascending under⟩

/-- A route whose positions go back. -/
def bufferedBack : List (List Char) :=
  ["100", "Track.Buffer", "50", "Track.Buffer"].map String.toList

/-- With underscores, the position that is written last is gone to last. -/
theorem buffers_of_bufferedBack :
    let es := splitLines "" .csv bufferedBack
    ∃ route route', (∀ e ∈ es, e.IsOfTrack ℚ) ∧ (∀ e ∈ es, e.text.toList.getLast? ≠ some '_') ∧
      List.Forall₂ IsUnderscored es (splitLines "" .csv (underscored bufferedBack)) ∧
      (compileLines ℚ .initial Compile.quietJob.host "" bufferedBack).result = .ok route ∧
      (compileLines ℚ { Settings.initial with fixesLineEndings := true } Compile.quietJob.host ""
        (underscored bufferedBack)).result = .ok route' ∧
      route.line.buffers = #[50, 100] ∧ route'.line.buffers = #[100, 50] := by
  intro es
  let es' := splitLines "" .csv (underscored bufferedBack)
  let job : Compile.Job := .ofPath .initial Compile.quietJob.host ""
  let job' : Compile.Job :=
    .ofPath { Settings.initial with fixesLineEndings := true } Compile.quietJob.host ""
  have ofTrack : ∀ e ∈ es, e.IsOfTrack ℚ := by decide
  have clean : ∀ e ∈ es, e.text.toList.getLast? ≠ some '_' := by decide
  have under : List.Forall₂ IsUnderscored es es' := by decide
  have expands : (Compile.expanded ℚ job "" bufferedBack).result = .ok es :=
    Compile.expanded_of_plain rfl (by decide) (by decide)
  have expands' : (Compile.expanded ℚ job' "" (underscored bufferedBack)).result = .ok es' :=
    Compile.expanded_of_plain rfl (by decide) (by decide)
  have factors : (Options.readAhead (R := ℚ) job.settings.dialect es).options.unitOfLength =
      [1] := by decide
  have factors' : (Options.readAhead (R := ℚ) job'.settings.dialect es').options.unitOfLength =
      [1] := by decide
  have sorts : sortByPosition ([1] : List ℚ) job.settings.dialect es =
      [⟨⟨"", 3, 1⟩, "50"⟩, ⟨⟨"", 4, 1⟩, "Track.Buffer"⟩, ⟨⟨"", 1, 1⟩, "100"⟩,
        ⟨⟨"", 2, 1⟩, "Track.Buffer"⟩] := by cbv
  have sorts' : sortByPosition ([1] : List ℚ) job'.settings.dialect es' = es' :=
    sortByPosition_eq_self (by decide) (by decide)
  have compiles := Compile.run_eq_ok job rfl rfl expands factors sorts (CallLog.empty.loading true)
  have compiles' :=
    Compile.run_eq_ok job' rfl rfl expands' factors' sorts' (CallLog.empty.loading true)
  exact ⟨_, _, ofTrack, clean, under, compiles, compiles', by decide +kernel, by decide +kernel⟩

end RailRoute
