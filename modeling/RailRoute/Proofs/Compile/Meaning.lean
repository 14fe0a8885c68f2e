import Mathlib
import RailRoute.Proofs.Compile.Scopes
import RailRoute.Proofs.Source.Sorting

/-!
# What sorting does to the meaning of expressions

What an expression means depends on the scope that is in force at it, which is the one that the last
opening ahead of it opens. Headers stay at their places, but a `With` is sorted like any other
expression, and sorting may put another one ahead of an expression than was there before. Nothing
changes where no `With` stands behind a track position of its section. Main statement:
`meaning_sortByPosition`.
-/

namespace RailRoute

namespace Source

open Text

/-! ## Where sorting puts an expression -/

/-- A sorted list falls into what sorts strictly before something, what ties with it, and what sorts
strictly behind it. -/
theorem eq_append_of_sorted {α : Type} {le : α → α → Bool}
    (trans : ∀ a b c, le a b → le b c → le a c) (total : ∀ a b, le a b || le b a) {l : List α}
    (sorted : l.Pairwise fun a b => le a b) (x : α) :
    l = l.filter (fun y => !le x y) ++ (l.filter (fun y => le x y && le y x) ++
      l.filter fun y => !le y x) := by
  induction l with
  | nil => rfl
  | cons y l ih =>
    obtain ⟨behind, sorted⟩ := List.pairwise_cons.1 sorted
    have ih := ih sorted
    by_cases hxy : le x y
    · -- Nothing behind it sorts strictly before `x`.
      have before : l.filter (fun z => !le x z) = [] := List.filter_eq_nil_iff.2 fun z hz => by
        simp [trans x y z hxy (behind z hz)]
      rw [before, List.nil_append] at ih
      by_cases hyx : le y x
      · simpa [hxy, hyx, before] using ih
      · have none : l.filter (fun z => le x z && le z x) = [] :=
          List.filter_eq_nil_iff.2 fun z hz => by
            have hzx : ¬ le z x := fun hzx => hyx (trans y z x (behind z hz) hzx)
            simp [hzx]
        rw [none, List.nil_append] at ih
        simpa [hxy, hyx, before, none] using ih
    · have hyx : le y x := by simpa [hxy] using total x y
      simpa [hxy, hyx] using ih

/-- Ahead of an element of a sorted list stand all that sort strictly before it and, of those that
tie with it, the ones that were ahead of it. -/
theorem StablySorted.exists_eq_append {α : Type} {le : α → α → Bool}
    (trans : ∀ a b c, le a b → le b c → le a c) (total : ∀ a b, le a b || le b a)
    {before after : List α} (h : StablySorted le before after) {ahead behind : List α} {x : α}
    (split : before = ahead ++ x :: behind) :
    ∃ behind', after = (after.filter (fun y => !le x y) ++
      ahead.filter fun y => le x y && le y x) ++ x :: behind' := by
  have self : le x x := by simpa using total x x
  have ties := h.stable x
  rw [split, List.filter_append, List.filter_cons_of_pos (by simp [self])] at ties
  have parts := eq_append_of_sorted trans total h.sorted x
  rw [ties, List.append_assoc, List.cons_append, ← List.append_assoc] at parts
  exact ⟨_, parts⟩

variable {R : Type} [Scalar R]

/-! ## Where there are no positions yet -/

section Keyed

variable {factors : List R} {numbered : Bool}

theorem ne_none_of_mem_withPositions {p : Option R} (hp : p ≠ none) (es : List Expression) :
    ∀ y ∈ withPositions factors numbered p es, y.1 ≠ none := by
  induction es generalizing p with
  | nil => simp [withPositions]
  | cons e es ih =>
    rw [withPositions_cons]
    have next : (positionOf? factors numbered e).or p ≠ none := by
      cases positionOf? factors numbered e with
      | none => exact hp
      | some x => simp
    exact List.forall_mem_cons.2 ⟨next, ih next⟩

/-- Once there is a position in force, there always is one. -/
theorem pairwise_keyed (es : List Expression) :
    (keyed factors numbered es).Pairwise fun a b => a.1 ≠ none → b.1 ≠ none := by
  have general (p : Option R) :
      (withPositions factors numbered p es).Pairwise fun a b => a.1 ≠ none → b.1 ≠ none := by
    induction es generalizing p with
    | nil => simp [withPositions]
    | cons e es ih =>
      rw [withPositions_cons]
      exact List.pairwise_cons.2
        ⟨fun b hb ha => ne_none_of_mem_withPositions ha es b hb, ih _⟩
  rw [← withPositions_none]
  exact general none

theorem positionBefore_none (a : Option R) : positionBefore a none = a.isNone := by
  cases a <;> rfl

theorem none_positionBefore (a : Option R) : positionBefore none a = true := rfl

/-- What stands ahead of an expression with a position in force when it is sorted: what sorts
strictly before it and, of what ties with it, what was ahead of it. -/
def sortedAhead (sorted ahead : List (Option R × Expression)) (k : Option R) :
    List (Option R × Expression) :=
  sorted.filter (fun y => !positionBefore k y.1) ++
    ahead.filter fun y => positionBefore k y.1 && positionBefore y.1 k

variable {before after : List Expression} {U V : List (Option R × Expression)}
  {k : Option R} {e : Expression}

/-- Of the expressions without a position in force, sorting leaves ahead of each one what was ahead
of it. -/
theorem filter_sortedAhead (h : SortedRun factors numbered before after)
    (split : keyed factors numbered before = U ++ (k, e) :: V) :
    (sortedAhead (keyed factors numbered after) U k).filter (fun y => y.1.isNone) =
      U.filter fun y => y.1.isNone := by
  rw [sortedAhead, List.filter_append, List.filter_filter, List.filter_filter]
  cases k with
  | none => simp [none_positionBefore, positionBefore_none]
  | some x =>
    -- What has no position in force sorts strictly before `x`, and all of it was ahead.
    have strictly (y : Option R × Expression) :
        (y.1.isNone && !positionBefore (some x) y.1) = y.1.isNone := by
      cases y.1 <;> simp [positionBefore]
    have ties (y : Option R × Expression) :
        (y.1.isNone && (positionBefore (some x) y.1 && positionBefore y.1 (some x))) = false := by
      cases y.1 <;> simp [positionBefore]
    have kept := h.stable (none, e)
    simp only [positionBefore_none, none_positionBefore, Bool.true_and] at kept
    have behind : V.filter (fun y => y.1.isNone) = [] := by
      have ordered : (keyed factors numbered before).Pairwise _ := pairwise_keyed before
      rw [split] at ordered
      have there := (List.pairwise_cons.1 (List.pairwise_append.1 ordered).2.1).1
      exact List.filter_eq_nil_iff.2 fun y hy => by simpa using there y hy (by simp)
    rw [split, List.filter_append, List.filter_cons_of_neg (by simp), behind, List.append_nil]
      at kept
    simp only [strictly, ties, List.filter_false, List.append_nil]
    exact kept

/-- Whether nothing that opens a scope stands behind a position. -/
def OpensFirst (R : Type) [Scalar R] (dialect : Dialect)
    (l : List (Option R × Expression)) : Prop :=
  ∀ y ∈ l, (opened? R dialect y.2).isSome → y.1 = none

theorem filterMap_opened?_filter {dialect : Dialect} {l : List (Option R × Expression)}
    (h : OpensFirst R dialect l) :
    (l.filter fun y => y.1.isNone).filterMap (fun y => opened? R dialect y.2) =
      l.filterMap fun y => opened? R dialect y.2 := by
  rw [List.filterMap_filter]
  refine List.filterMap_congr fun y hy => ?_
  cases hopen : opened? R dialect y.2 with
  | none => simp
  | some s => simp [h y hy (by simp [hopen])]

/-- Then each expression keeps what opens scopes ahead of it. -/
theorem filterMap_opened?_sortedAhead {dialect : Dialect}
    (h : SortedRun factors numbered before after)
    (split : keyed factors numbered before = U ++ (k, e) :: V)
    (first : OpensFirst R dialect (keyed factors numbered before)) :
    (sortedAhead (keyed factors numbered after) U k).filterMap
        (fun y => opened? R dialect y.2) = U.filterMap fun y => opened? R dialect y.2 := by
  have firstAhead : OpensFirst R dialect U := fun y hy => first y (by simp [split, hy])
  have firstSorted : OpensFirst R dialect (sortedAhead (keyed factors numbered after) U k) := by
    intro y hy
    rcases List.mem_append.1 hy with hy | hy
    · exact first y (h.perm.mem_iff.1 (List.mem_filter.1 hy).1)
    · exact firstAhead y (List.mem_filter.1 hy).1
  rw [← filterMap_opened?_filter firstSorted, filter_sortedAhead h split,
    filterMap_opened?_filter firstAhead]

end Keyed

end Source

/-! ## Meanings in two readings -/

namespace Compile

open Source Text

variable {R : Type} [Scalar R]

/-- The meaning of an expression that is read behind others, from the beginning of a route. -/
def meaningBehind (dialect : Dialect) (factors : List R) (es : List Expression) (e : Expression) :
    Except Problem (Interpretation R) :=
  let s := Scope.behind dialect factors Scope.initial es
  interpret dialect factors s (e.normalized R dialect s)

/-- The scope that the last opening among some expressions opens. -/
def lastOpened (R : Type) [Scalar R] (dialect : Dialect) (es : List Expression) : Option Scope :=
  (es.filterMap (opened? R dialect)).getLast?

/-- A scope makes no difference to positions in a CSV route. -/
theorem interpret_csv_of_position {factors : List R} {s : Scope} {e : Expression} {v : R}
    {b : Bool} (h : interpret .csv factors s e = .ok (.position v b)) (s' : Scope) :
    interpret .csv factors s' e = .ok (.position v b) := by
  unfold interpret at h ⊢
  cases hheader : e.header? with
  | some name => simp [hheader] at h
  | none =>
    rw [hheader] at h
    simp only [decide_true, Bool.true_or, if_true] at h ⊢
    cases hp : parseLength factors (separate e.text.toList).1 with
    | some w => rwa [hp] at h
    | none =>
      rw [hp] at h
      dsimp only at h
      split_ifs at h
      · cases h
      · cases hc : readCommand R s (separate e.text.toList).1 (separate e.text.toList).2 <;>
          simp [hc, Except.map] at h

theorem prefixed_eq_of_absolute {s : Scope} {command : List Char}
    (dot : (lower command).head? ≠ some '.') (bare : s.alwaysPrefixed = false) :
    prefixed s command = erase ".void".toList (lower command) := by
  unfold prefixed
  simp only [dot, bare, Bool.false_and, if_false, Bool.false_eq_true]

/-- What the meanings of an expression in two readings have in common. They are the same if the
same scope was opened last, and if the expression opens a scope itself. In a CSV route they are also
the same if it is a position, or a command that is not to be completed by a scope. -/
structure Agrees (dialect : Dialect) (factors : List R) (front front' : List Expression)
    (e : Expression) : Prop where
  scope : lastOpened R dialect front = lastOpened R dialect front' →
    meaningBehind dialect factors front e = meaningBehind dialect factors front' e
  opening : (opened? R dialect e).isSome →
    meaningBehind dialect factors front e = meaningBehind dialect factors front' e
  position : dialect = .csv → (∃ v b, meaningBehind dialect factors front e = .ok (.position v b)) →
    meaningBehind dialect factors front e = meaningBehind dialect factors front' e
  absolute : dialect = .csv → (lower (separate e.text.toList).1).head? ≠ some '.' →
    (Scope.behind dialect factors Scope.initial front).alwaysPrefixed = false →
    (Scope.behind dialect factors Scope.initial front').alwaysPrefixed = false →
    meaningBehind dialect factors front e = meaningBehind dialect factors front' e

theorem agrees (dialect : Dialect) (factors : List R) (front front' : List Expression)
    (e : Expression) : Agrees dialect factors front front' e where
  scope h := by
    have same : Scope.behind dialect factors Scope.initial front =
        Scope.behind dialect factors Scope.initial front' := by
      rw [Scope.behind_eq, Scope.behind_eq]
      exact congrArg (·.getD Scope.initial) h
    rw [meaningBehind, meaningBehind, same]
  opening h := by
    obtain ⟨new, hnew⟩ := Option.isSome_iff_exists.1 h
    have opens (es : List Expression) :
        meaningBehind dialect factors es e = .ok (.scope new) :=
      (interpret_eq_scope_iff ..).2 ((openedBy?_normalized ..).trans hnew)
    rw [opens, opens]
  position := by
    rintro rfl ⟨v, b, h⟩
    exact h.trans (interpret_csv_of_position h _).symm
  absolute := by
    rintro rfl dot bare bare'
    simp only [meaningBehind, interpret, readCommand, Expression.normalized, reduceCtorEq,
      false_and, if_false, decide_true, Bool.true_or, if_true, prefixed_eq_of_absolute dot bare,
      prefixed_eq_of_absolute dot bare']

/-- What sorting makes of the meanings between two headers, where the readings of the expressions as
they were and as they are sorted have gone through `front` and `front'` before. Each expression is
found again at the place where sorting puts it. Its two meanings agree, and they are the same if
nothing that opens a scope stands behind a position. -/
def Keeps (dialect : Dialect) (factors : List R) (numbered : Bool)
    (front front' before after : List Expression) : Prop :=
  ∀ U k e V, keyed factors numbered before = U ++ (k, e) :: V →
    let U' := sortedAhead (keyed factors numbered after) U k
    let read := front ++ U.map (·.2)
    let read' := front' ++ U'.map (·.2)
    (∃ V', keyed factors numbered after = U' ++ (k, e) :: V') ∧
      Agrees dialect factors read read' e ∧
      (OpensFirst R dialect (keyed factors numbered before) →
        meaningBehind dialect factors read e = meaningBehind dialect factors read' e)

theorem lastOpened_append (dialect : Dialect) (xs ys : List Expression) :
    lastOpened R dialect (xs ++ ys) = (lastOpened R dialect ys).or (lastOpened R dialect xs) := by
  rw [lastOpened, List.filterMap_append, List.getLast?_append]
  rfl

variable [OrderedScalar R]

theorem keeps_of_sortedRun {dialect : Dialect} {factors : List R} {numbered : Bool}
    {front front' before after : List Expression} (h : SortedRun factors numbered before after)
    (fronts : lastOpened R dialect front = lastOpened R dialect front') :
    Keeps dialect factors numbered front front' before after := by
  intro U k e V split U' read read'
  have agree := agrees dialect factors read read' e
  refine ⟨h.exists_eq_append (fun a b c => positionBefore_trans a.1 b.1 c.1)
    (fun a b => positionBefore_total a.1 b.1) split, agree, fun first => agree.scope ?_⟩
  have kept : lastOpened R dialect (U.map (·.2)) = lastOpened R dialect (U'.map (·.2)) := by
    rw [lastOpened, lastOpened, List.filterMap_map, List.filterMap_map]
    exact congrArg List.getLast? (filterMap_opened?_sortedAhead h split first).symm
  rw [lastOpened_append, lastOpened_append, kept, fronts]

/-- The meanings of expressions before and after sorting. Headers mean the same wherever they stand,
and behind each header, as in front of the first one, each other expression keeps its meaning if the
same scope was opened last. This is so for all of them where nothing that opens a scope stands
behind a track position. -/
theorem meaning_sortByPosition (dialect : Dialect) (factors : List R) (es : List Expression) :
    let out := sortByPosition factors dialect es
    Keeps dialect factors (dialect = .csv) [] [] (sections es).1 (sections out).1 ∧
      List.Forall₂ (fun s s' => s'.1 = s.1 ∧ ∀ front front',
        meaningBehind dialect factors front s.1 = meaningBehind dialect factors front' s.1 ∧
        Keeps dialect factors (numberedBehind dialect s.1) (front ++ [s.1]) (front' ++ [s.1])
          s.2 s'.2) (sections es).2 (sections out).2 := by
  intro out
  have hsections : sections out = sortedSections factors dialect (sections es) :=
    sections_sortByPosition ..
  rw [hsections]
  refine ⟨keeps_of_sortedRun (sortedRun_sortRun ..) rfl, ?_⟩
  refine List.forall₂_map_right_iff.2 (List.forall₂_same.2 fun s hs => ?_)
  refine ⟨rfl, fun front front' => ?_⟩
  obtain ⟨name, hname⟩ := Option.isSome_iff_exists.1 ((areSections es).header s hs)
  have opens := opened?_of_header hname R dialect
  refine ⟨(agrees dialect factors front front' s.1).opening (by simp [opens]), ?_⟩
  refine keeps_of_sortedRun (sortedRun_sortRun ..) ?_
  simp [lastOpened, opens]

/-! ## Two lists -/

omit [OrderedScalar R] in
/-- The command that an expression means, if it is one. -/
def command? (meaning : Except Problem (Interpretation R)) : Option Command :=
  match meaning with
  | .ok (.command c) => some c
  | _ => none

/-- The expression in a line. -/
def onLine (line : Nat) (text : String) : Expression := ⟨⟨"", line, 1⟩, text⟩

/-- Positions out of order behind a `With`. -/
def withFirst : List Expression :=
  [onLine 1 "With Track", onLine 2 "100", onLine 3 ".Buffer", onLine 4 "50", onLine 5 ".Limit 60"]

/-- Sorting puts a position and a command ahead of the `.Buffer`, which stays a command of the
track. -/
theorem meaning_sortByPosition_withFirst :
    let read := [onLine 1 "With Track", onLine 2 "100"]
    let read' := [onLine 1 "With Track", onLine 4 "50", onLine 5 ".Limit 60", onLine 2 "100"]
    let buffer := onLine 3 ".Buffer"
    sortByPosition ([1] : List ℚ) .csv withFirst = read' ++ [buffer] ∧
      meaningBehind .csv ([1] : List ℚ) read buffer =
        meaningBehind .csv ([1] : List ℚ) read' buffer ∧
      command? (meaningBehind .csv ([1] : List ℚ) read' buffer) =
        some ⟨"track", "buffer", [], [], ""⟩ := by
  intro read read' buffer
  have sorts : sortByPosition ([1] : List ℚ) .csv withFirst = read' ++ [buffer] := by cbv
  obtain ⟨keeps, -⟩ := meaning_sortByPosition .csv ([1] : List ℚ) withFirst
  have whole : sections withFirst = (withFirst, []) := by decide
  have whole' : sections (read' ++ [buffer]) = (read' ++ [buffer], []) := by decide
  rw [sorts, whole, whole'] at keeps
  have split : keyed ([1] : List ℚ) true withFirst =
      [(none, onLine 1 "With Track"), (some 100, onLine 2 "100")] ++ (some 100, buffer) ::
        [(some 50, onLine 4 "50"), (some 50, onLine 5 ".Limit 60")] := by decide_cbv
  have ahead :
      (sortedAhead (keyed ([1] : List ℚ) true (read' ++ [buffer]))
        [(none, onLine 1 "With Track"), (some 100, onLine 2 "100")] (some 100)).map (·.2) =
        read' := by decide_cbv
  have first : OpensFirst ℚ .csv (keyed ([1] : List ℚ) true withFirst) := by
    unfold OpensFirst
    decide
  obtain ⟨-, -, same⟩ := keeps _ _ _ _ split
  have same := same first
  simp only [decide_true, ahead] at same
  exact ⟨sorts, same, by decide⟩

/-- A `With` behind a position. -/
def withBehind : List Expression :=
  [onLine 1 "100", onLine 2 "With Track", onLine 3 ".Buffer", onLine 4 "50", onLine 5 ".Buffer"]

/-- Sorting puts the second `.Buffer` ahead of the `With`. Read as it stands it is a command of the
track, and sorted it is one without a namespace. -/
theorem meanings_differ_of_withBehind :
    let read := [onLine 1 "100", onLine 2 "With Track", onLine 3 ".Buffer", onLine 4 "50"]
    let read' := [onLine 4 "50"]
    let buffer := onLine 5 ".Buffer"
    withBehind = read ++ [buffer] ∧
      sortByPosition ([1] : List ℚ) .csv withBehind = read' ++ buffer ::
        [onLine 1 "100", onLine 2 "With Track", onLine 3 ".Buffer"] ∧
      command? (meaningBehind .csv ([1] : List ℚ) read buffer) =
        some ⟨"track", "buffer", [], [], ""⟩ ∧
      command? (meaningBehind .csv ([1] : List ℚ) read' buffer) =
        some ⟨"", "buffer", [], [], ""⟩ := by
  refine ⟨rfl, by cbv, by decide, by decide⟩

end Compile

end RailRoute
