import Mathlib
import RailRoute.Compile
import RailRoute.Proofs.Arithmetic
import RailRoute.Proofs.Command.Spelling
import RailRoute.Proofs.Source.Insertion
import RailRoute.Proofs.Source.Numeral

/-!
# Another unit of length

Under one factor, a length is a number times the factor. So an expression means the same under
another factor but for the track position it may be, and if all positions are written in the other
unit, they sort the expressions alike. An option in front sets the unit. Main statements:
`interpret_singleton`, `sortByPosition_map` and `SetsUnit.interpret_eq`.
-/

namespace RailRoute

open Source

/-! ## Reading -/

section Reading

variable {R : Type} [ExactScalar R]

theorem Source.parseLength_singleton (u : R) (cs : List Char) :
    parseLength [u] cs = (parseLength [1] cs).map (· * u) := by
  unfold parseLength
  dsimp only [List.length_singleton]
  split_ifs with many
  · rfl
  · cases h : Text.parts (· = ':') cs with
    | nil => simp [weightedSum]
    | cons part rest =>
      obtain rfl : rest = [] := by
        rw [h, List.length_cons] at many
        exact List.length_eq_zero_iff.1 (by omega)
      cases hp : (parseNumber part : Option R) with
      | none => simp [weightedSum, hp]
      | some x => simp [weightedSum, hp]

theorem Source.marker?_singleton (u : R) (e : Expression) :
    marker? [u] e = (marker? [1] e).map (· * u) := parseLength_singleton u _

/-- What an expression means if its position is multiplied. -/
def Interpretation.scale (u : R) : Interpretation R → Interpretation R
  | .position value hasArguments => .position (value * u) hasArguments
  | other => other

/-- The unit of length has no part in the meaning of an expression but for its position. -/
theorem interpret_singleton (dialect : Dialect) (u : R) (s : Scope) (e : Expression) :
    interpret dialect [u] s e = (interpret dialect [1] s e).map (·.scale u) := by
  unfold interpret
  cases e.header? with
  | some name => rfl
  | none =>
    dsimp only
    generalize separate e.text.toList = parts
    have scales : (if dialect = .csv || s.isTrack then parseLength [u] parts.1 else none) =
        (if dialect = .csv || s.isTrack then parseLength [1] parts.1 else none).map (· * u) := by
      split_ifs
      · exact parseLength_singleton u _
      · rfl
    rw [scales]
    cases (if dialect = .csv || s.isTrack then parseLength [1] parts.1 else none : Option R) with
    | some x => rfl
    | none =>
      dsimp only [Option.map_none]
      by_cases opens : Text.sameWord parts.1 "with".toList
      · rw [if_pos opens]
        rfl
      · rw [if_neg opens]
        cases readCommand R s parts.1 parts.2 <;> rfl

end Reading

/-! ## Sorting -/

namespace Source

variable {R : Type} [Scalar R] {factors factors' : List R} {f : Expression → Expression}

section Map

variable {numbered : Bool} {es : List Expression}
  (position : ∀ e ∈ es, marker? factors' (f e) = marker? factors e)

include position

theorem withPositions_map (p : Option R) : withPositions factors' numbered p (es.map f) =
    (withPositions factors numbered p es).map (Prod.map id f) := by
  induction es generalizing p with
  | nil => rfl
  | cons e es ih =>
    obtain ⟨he, position⟩ := List.forall_mem_cons.1 position
    rw [List.map_cons, withPositions, withPositions, he, ih position]
    rfl

theorem sortRun_map :
    sortRun factors' numbered (es.map f) = (sortRun factors numbered es).map f := by
  have sorts := List.map_mergeSort (f := Prod.map (id : Option R → Option R) f)
    (r := fun a b => positionBefore a.1 b.1) (s := fun a b => positionBefore a.1 b.1)
    (l := withPositions factors numbered none es) fun _ _ _ _ => rfl
  rw [sortRun, withPositions_map position, ← sorts, sortRun, List.map_map, List.map_map]
  rfl

end Map

/-- Expressions are sorted as others are that have the same headers and positions. -/
theorem sortByPosition_map {dialect : Dialect} {es : List Expression}
    (header : ∀ e ∈ es, (f e).header? = e.header?)
    (position : ∀ e ∈ es, marker? factors' (f e) = marker? factors e) :
    sortByPosition factors' dialect (es.map f) = (sortByPosition factors dialect es).map f := by
  have key (numbered : Bool) (run : List Expression)
      (hrun : ∀ e ∈ run, marker? factors' (f e) = marker? factors e) :
      sortFrom factors' dialect numbered (run.map f) (es.map f) =
        (sortFrom factors dialect numbered run es).map f := by
    have reversed (run : List Expression)
        (hrun : ∀ e ∈ run, marker? factors' (f e) = marker? factors e) (numbered : Bool) :
        sortRun factors' numbered (run.map f).reverse =
          (sortRun factors numbered run.reverse).map f := by
      rw [← List.map_reverse]
      exact sortRun_map fun e he => hrun e (List.mem_reverse.1 he)
    induction es generalizing numbered run with
    | nil => exact reversed run hrun numbered
    | cons e es ih =>
      obtain ⟨he, header⟩ := List.forall_mem_cons.1 header
      obtain ⟨hm, position⟩ := List.forall_mem_cons.1 position
      rw [List.map_cons, sortFrom, sortFrom, he]
      cases e.header? with
      | some name =>
        have rest := ih header position (numbersAllowed dialect name) [] (by simp)
        dsimp only
        rw [reversed run hrun, List.map_append, List.map_cons, ← rest]
        rfl
      | none => exact ih header position numbered (e :: run) (List.forall_mem_cons.2 ⟨hm, hrun⟩)
  exact key _ [] (by simp)

/-- An expression in front of all others stays there if it is neither a header nor a position. -/
theorem sortByPosition_cons [OrderedScalar R] {dialect : Dialect} {first : Expression}
    (header : first.header? = none) (position : marker? factors first = none)
    (es : List Expression) :
    sortByPosition factors dialect (first :: es) = first :: sortByPosition factors dialect es := by
  have ahead (numbered : Bool) (run : List Expression) :
      sortRun factors numbered (first :: run) = first :: sortRun factors numbered run := by
    have here : positionOf? factors numbered first = none := by
      unfold positionOf?
      split_ifs
      · exact position
      · rfl
    have sorts := mergeSort_append_of_le keyBefore_trans keyBefore_total
      (List.pairwise_singleton _ ((none : Option R), first)) (fun x hx y _ => by
        rw [List.mem_singleton.1 hx]
        rfl : ∀ x ∈ [((none : Option R), first)], ∀ y ∈ withPositions factors numbered none run,
          positionBefore x.1 y.1)
    rw [sortRun, withPositions_cons, here, Option.none_or]
    exact congrArg (List.map Prod.snd) sorts
  have key (numbered : Bool) (run : List Expression) :
      sortFrom factors dialect numbered (run ++ [first]) es =
        first :: sortFrom factors dialect numbered run es := by
    induction es generalizing numbered run with
    | nil => simp [sortFrom, ahead]
    | cons e es ih =>
      rw [sortFrom, sortFrom]
      cases e.header? with
      | some name => simp [ahead]
      | none => exact ih numbered (e :: run)
  have start : sortByPosition factors dialect (first :: es) =
      sortFrom factors dialect (dialect = .csv) [first] es := by
    simp [sortByPosition, sortFrom, header]
  exact start.trans (key _ [])

end Source

/-! ## Setting the unit -/

section Setting

open Text

variable {R : Type} [ExactScalar R] {u : R}

/-- Whether an expression sets the unit of length to a number. -/
structure SetsUnit (u : R) (e : Expression) (number : String) : Prop where
  text : e.text = "Options.UnitOfLength " ++ number
  number : IsNumber ⟨e.location, number⟩ u

namespace SetsUnit

variable {e : Expression} {number : String} (h : SetsUnit u e number)

include h

theorem toList_eq : e.text.toList = "Options.UnitOfLength".toList ++ ' ' :: number.toList := by
  rw [h.text, String.toList_append]
  rfl

/-- Its text has no blanks around it. -/
theorem exists_eq : ∃ inner d, e.text.toList = 'O' :: (inner ++ [d]) ∧ d ≠ '_' ∧ ¬ isBlank d := by
  have some : number.toList ≠ [] := fun none => h.number.text_ne (String.toList_eq_nil_iff.1 none)
  have last : number.toList.getLast some ∈ number.toList := List.getLast_mem some
  refine ⟨"ptions.UnitOfLength ".toList ++ number.toList.dropLast, number.toList.getLast some, ?_,
    ?_, h.number.solid _ last⟩
  · rw [h.toList_eq, List.append_assoc, List.dropLast_append_getLast some]
    rfl
  · intro underscore
    exact h.number.not_mem (c := '_') ⟨by decide, by decide⟩ (underscore ▸ last)

theorem trim_eq : trim e.text.toList = e.text.toList := by
  obtain ⟨inner, d, text, -, solid⟩ := h.exists_eq
  rw [text, trim_eq_self (by decide) solid]

theorem header?_eq_none : e.header? = none := by
  obtain ⟨inner, d, text, -, -⟩ := h.exists_eq
  unfold Expression.header? headerName?
  rw [h.trim_eq, text]
  rfl

theorem marker?_eq_none (factors : List R) : marker? factors e = none := by
  obtain ⟨inner, d, text, -, -⟩ := h.exists_eq
  unfold marker?
  rw [h.trim_eq, text]
  cases parses : parseLength factors ('O' :: (inner ++ [d])) with
  | none => rfl
  | some v =>
    exact absurd (List.mem_cons_self ..)
      (not_mem_of_parseLength (x := 'O') ⟨by decide, by decide⟩ (by decide) (by decide) parses)

theorem fixEnding_eq (fixes : Bool) : Compile.fixEnding fixes e = e := by
  obtain ⟨inner, d, text, other, -⟩ := h.exists_eq
  have ends : beforeTail? ['_'] e.text.toList = none := if_neg fun htail => by
    obtain ⟨front, hfront⟩ := List.isSuffixOf_iff_suffix.1 htail
    rw [text, ← List.cons_append] at hfront
    exact other (by simpa using (List.append_inj_right' hfront rfl).symm)
  simp [Compile.fixEnding, ends]

theorem separate_eq :
    separate e.text.toList = ("Options.UnitOfLength".toList, number.toList) := by
  have name : IsName "Options.UnitOfLength".toList := by decide
  have cut : cutOutside? isBlank 0 ("Options.UnitOfLength".toList ++ ' ' :: number.toList) =
      some ("Options.UnitOfLength".toList, ' ' :: number.toList) := by
    rw [cutOutside?_append name.isPlain name.solid]
    rfl
  have ungrouped : trailingGroup? number.toList = none :=
    trailingGroup?_eq_none (h.number.not_mem ⟨by decide, by decide⟩)
  have arguments : trim (' ' :: number.toList) = number.toList := by
    have blank : isBlank ' ' := rfl
    rw [← List.singleton_append, trim_append_of_isBlank (by simpa using blank)]
    exact h.number.trimmed
  have command : trimEnd "Options.UnitOfLength".toList = "Options.UnitOfLength".toList :=
    trimEnd_eq_self name.solid
  unfold separate
  rw [h.trim_eq, h.toList_eq]
  simp only [cut, command, arguments, stripGroup, ungrouped]

theorem interpret_eq (factors : List R) : interpret .csv factors Scope.initial e =
    .ok (.command ⟨"options", "unitoflength", [], [number], number⟩) := by
  have noLength : parseLength factors "Options.UnitOfLength".toList = none := by
    cases parses : parseLength factors "Options.UnitOfLength".toList with
    | none => rfl
    | some v =>
      exact absurd (by decide) (not_mem_of_parseLength (x := 'O') ⟨by decide, by decide⟩
        (by decide) (by decide) parses)
  have noWith : sameWord "Options.UnitOfLength".toList "with".toList = false := by decide
  have spelled : Alias.canonical (prefixed Scope.initial "Options.UnitOfLength".toList) =
      "options.unitoflength".toList := by decide
  have whole : parts (fun c => c = ';' || c = ',') number.toList = [number.toList] :=
    parts_eq_of_not_mem fun c hc hsep => by
      rcases (by simpa using hsep : c = ';' ∨ c = ',') with rfl | rfl <;>
        exact h.number.not_mem ⟨by decide, by decide⟩ hc
  have trimmed : trim number.toList = number.toList := h.number.trimmed
  have arguments : splitArguments number.toList = [number.toList] := by
    have some : number.toList ≠ [] := fun none =>
      h.number.text_ne (String.toList_eq_nil_iff.1 none)
    simp [splitArguments, trimmed, some, whole]
  have indices : takeIndices R "options.unitoflength".toList =
      .ok ([], "options.unitoflength".toList) := rfl
  have named : cutAt? (· = '.') "options.unitoflength".toList =
      some ("options".toList, ".unitoflength".toList) := by decide
  have read : readCommand R Scope.initial "Options.UnitOfLength".toList number.toList =
      .ok ⟨"options", "unitoflength", [], [number], number⟩ := by
    simp only [readCommand, spelled, indices, Except.map, named, arguments, List.map_cons,
      List.map_nil, String.ofList_toList]
    rfl
  unfold interpret
  rw [h.header?_eq_none]
  dsimp only
  rw [h.separate_eq, noLength, ite_self]
  dsimp only
  rw [noWith, if_neg Bool.false_ne_true, read]
  rfl

end SetsUnit

end Setting

end RailRoute
