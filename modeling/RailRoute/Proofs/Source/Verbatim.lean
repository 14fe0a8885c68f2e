import Mathlib
import RailRoute.Proofs.Comparison
import RailRoute.Proofs.Source.Expansion
import RailRoute.Proofs.Source.Insertion

/-!
# Expressions that stay as they are

Expressions without directives are there in the result of the expansion as they are written, and
expressions whose positions do not go back are sorted already. Main statements:
`expand_of_isVerbatim` and `sortByPosition_eq_self`.
-/

namespace RailRoute.Source

open Text

/-! ## Expansion -/

/-- Whether an expression has no directive in it and none at its head. -/
structure Expression.IsVerbatim (e : Expression) : Prop where
  head : e.text.toList.head? ≠ some '$'
  undirected : scanInline e.text.toList = .absent
  trimmed : trim e.text.toList = e.text.toList
  ne : e.text ≠ ""

theorem expandList_of_isVerbatim (R : Type) [Scalar R] {es : List Expression}
    (h : ∀ e ∈ es, e.IsVerbatim)
    (includeFile : Expression → List Char → Expansion (List Expression)) :
    expandList R includeFile es = pure es := by
  have laid (output : Array Expression) : es.foldlM (expandOne R includeFile) ⟨[], output⟩ =
      pure ⟨[], output ++ es.toArray⟩ := by
    induction es generalizing output with
    | nil => simp
    | cons e es ih =>
      obtain ⟨here, behind⟩ := List.forall_mem_cons.1 h
      rw [List.foldlM_cons, expandOne_of_absent R here.trimmed here.ne _ _ here.head
        here.undirected, pure_bind]
      simpa [isActive] using ih behind (output.push e)
  simp [expandList, laid]

theorem expand_of_isVerbatim (R : Type) [Scalar R] {es : List Expression}
    (h : ∀ e ∈ es, e.IsVerbatim) (settings : ExpansionSettings) (seed : UInt64) :
    expand R settings seed es = ⟨[], .ok es⟩ := by
  unfold expand
  dsimp only
  rw [expandList_of_isVerbatim R h]
  rfl

/-! ## Sorting -/

section Sorting

variable {R : Type} [Scalar R] [ComparableScalar R] {factors : List R} {numbered : Bool}

theorem positionBefore_self (p : Option R) : positionBefore p p := by
  cases p with
  | none => rfl
  | some x =>
    by_cases number : x == x
    · have le : x ≤ x := by simpa using ComparableScalar.le_total number number
      simp [positionBefore, Scalar.sortsBefore, le]
    · simp [positionBefore, Scalar.sortsBefore, number]

/-- Where positions do not go back, the positions in force do not. -/
theorem pairwise_withPositions {p : Option R} {es : List Expression}
    (ascending : (p.toList ++ es.filterMap (positionOf? factors numbered)).Pairwise (· ≤ ·)) :
    (withPositions factors numbered p es).Pairwise fun a b => positionBefore a.1 b.1 := by
  induction es generalizing p with
  | nil => exact List.Pairwise.nil
  | cons e es ih =>
    have next : (((positionOf? factors numbered e).or p).toList ++
        es.filterMap (positionOf? factors numbered)).Pairwise (· ≤ ·) := by
      cases he : positionOf? factors numbered e with
      | none => simpa [he] using ascending
      | some x => simpa [he] using (List.pairwise_append.1 ascending).2.1
    rw [withPositions_cons]
    refine List.pairwise_cons.2 ⟨fun y hy => ?_, ih next⟩
    dsimp only
    rcases eq_or_of_mem_withPositions hy with h | ⟨e', he', w, hw, h⟩
    · rw [h]
      exact positionBefore_self _
    · rw [h]
      cases here : (positionOf? factors numbered e).or p with
      | none => rfl
      | some v =>
        rw [here] at next
        have ahead : v ≤ w :=
          (List.pairwise_append.1 next).2.2 v (by simp) w (List.mem_filterMap.2 ⟨e', he', hw⟩)
        simp [positionBefore, Scalar.sortsBefore, ahead]

theorem sortRun_eq_self {es : List Expression}
    (ascending : (es.filterMap (positionOf? factors numbered)).Pairwise (· ≤ ·)) :
    sortRun factors numbered es = es := by
  rw [sortRun, List.mergeSort_of_pairwise (pairwise_withPositions ascending),
    map_snd_withPositions]

/-- Expressions whose positions do not go back are sorted as they are. -/
theorem sortByPosition_eq_self {es : List Expression} (headless : ∀ e ∈ es, e.header? = none)
    (ascending : (es.filterMap (marker? factors)).Pairwise (· ≤ ·)) :
    sortByPosition factors .csv es = es := by
  have run : sortRun factors true es = es := sortRun_eq_self ascending
  have alone : sections es = (es, []) := by simpa [sections] using sections_append headless []
  rw [sortByPosition_eq, alone]
  simp [joined, sortedSections, run]

end Sorting

end RailRoute.Source
