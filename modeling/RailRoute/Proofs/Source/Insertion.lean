import Mathlib
import RailRoute.Proofs.Source.Sorting

/-!
# Sorting with one expression more

A stable sort keeps the order of the others if one thing more is sorted. But a track position is
also what the expressions behind it are sorted by, and without it these may have another one in
force. Main statements: `keepsOrder_of_next` and `keepsOrder_of_first`, two cases in which that makes
no difference.
-/

namespace RailRoute.Source

/-! ## Stable sorting -/

section Stable

variable {α : Type} {le : α → α → Bool} (trans : ∀ a b c, le a b → le b c → le a c)
  (total : ∀ a b, le a b || le b a)

include trans total

/-- What is sorted besides comes behind all that sorts strictly before it. -/
theorem mergeSort_cons_eq (a : α) (l : List α) : (a :: l).mergeSort le =
    (l.mergeSort le).filter (fun b => !le a b) ++ a :: (l.mergeSort le).filter (le a ·) := by
  obtain ⟨front, back, longer, shorter, before⟩ := List.mergeSort_cons trans total a l
  have sorted := List.pairwise_mergeSort trans total (a :: l)
  rw [longer] at sorted ⊢
  have behind := (List.pairwise_cons.1 (List.pairwise_append.1 sorted).2.1).1
  have inFront : ∀ b ∈ front, le a b = false := by simpa using before
  rw [shorter, List.filter_append, List.filter_append,
    List.filter_eq_self.2 fun b hb => by simp [inFront b hb],
    List.filter_eq_nil_iff.2 fun b hb => by simp [behind b hb],
    List.filter_eq_nil_iff.2 fun b hb => by simp [inFront b hb],
    List.filter_eq_self.2 behind, List.append_nil, List.nil_append]

/-- One thing more does not change the order of the others. -/
theorem mergeSort_insert (xs : List α) (a : α) (ys : List α) :
    ∃ front back, (xs ++ a :: ys).mergeSort le = front ++ a :: back ∧
      (xs ++ ys).mergeSort le = front ++ back := by
  induction xs with
  | nil =>
    obtain ⟨front, back, longer, shorter, -⟩ := List.mergeSort_cons trans total a ys
    exact ⟨front, back, longer, shorter⟩
  | cons x xs ih =>
    obtain ⟨front, back, longer, shorter⟩ := ih
    rw [List.cons_append, List.cons_append, mergeSort_cons_eq trans total, longer,
      mergeSort_cons_eq trans total x (xs ++ ys), shorter]
    simp only [List.filter_append]
    by_cases hx : le x a
    · refine ⟨front.filter (fun b => !le x b) ++ back.filter (fun b => !le x b) ++
        x :: front.filter (le x ·), back.filter (le x ·), ?_, ?_⟩ <;> simp [hx]
    · refine ⟨front.filter (fun b => !le x b), back.filter (fun b => !le x b) ++
        x :: (front.filter (le x ·) ++ back.filter (le x ·)), ?_, ?_⟩ <;> simp [hx]

/-- What is sorted in front of all others already stays there. -/
theorem mergeSort_append_of_le {xs ys : List α} (sorted : xs.Pairwise fun a b => le a b)
    (before : ∀ x ∈ xs, ∀ y ∈ ys, le x y) : (xs ++ ys).mergeSort le = xs ++ ys.mergeSort le := by
  induction xs with
  | nil => rfl
  | cons x xs ih =>
    obtain ⟨here, sorted⟩ := List.pairwise_cons.1 sorted
    obtain ⟨hx, before⟩ := List.forall_mem_cons.1 before
    have all : ∀ b ∈ xs ++ ys.mergeSort le, le x b := by
      intro b hb
      rcases List.mem_append.1 hb with hb | hb
      · exact here b hb
      · exact hx b (List.mem_mergeSort.1 hb)
    rw [List.cons_append, mergeSort_cons_eq trans total, ih sorted before,
      List.filter_eq_nil_iff.2 fun b hb => by simp [all b hb], List.filter_eq_self.2 all]
    rfl

end Stable

/-! ## Between two headers -/

section Run

variable {R : Type} [Scalar R] {factors : List R} {numbered : Bool}

variable (factors numbered) in
theorem exists_withPositions_append (p : Option R) (xs : List Expression) :
    ∃ q, ∀ ys, withPositions factors numbered p (xs ++ ys) =
      withPositions factors numbered p xs ++ withPositions factors numbered q ys := by
  induction xs generalizing p with
  | nil => exact ⟨p, fun _ => rfl⟩
  | cons x xs ih =>
    obtain ⟨q, hq⟩ := ih ((positionOf? factors numbered x).or p)
    refine ⟨q, fun ys => ?_⟩
    rw [List.cons_append, withPositions_cons, withPositions_cons, hq, List.cons_append]

/-- The position in force stays the same as long as no expression is a position. -/
theorem withPositions_append_of_none {xs : List Expression}
    (h : ∀ e ∈ xs, positionOf? factors numbered e = none) (p : Option R) (ys : List Expression) :
    withPositions factors numbered p (xs ++ ys) =
      xs.map (p, ·) ++ withPositions factors numbered p ys := by
  induction xs with
  | nil => rfl
  | cons x xs ih =>
    obtain ⟨hx, h⟩ := List.forall_mem_cons.1 h
    rw [List.cons_append, withPositions_cons, hx, Option.none_or, ih h]
    rfl

/-- A position in front makes the one in force there irrelevant. -/
theorem withPositions_congr {es : List Expression}
    (h : ∀ e ∈ es.head?, (positionOf? factors numbered e).isSome) (p q : Option R) :
    withPositions factors numbered p es = withPositions factors numbered q es := by
  cases es with
  | nil => rfl
  | cons e es =>
    obtain ⟨v, hv⟩ := Option.isSome_iff_exists.1 (h e rfl)
    rw [withPositions_cons, withPositions_cons, hv, Option.some_or, Option.some_or]

theorem eq_or_of_mem_withPositions {p : Option R} {es : List Expression}
    {x : Option R × Expression} (hx : x ∈ withPositions factors numbered p es) :
    x.1 = p ∨ ∃ e ∈ es, ∃ w, positionOf? factors numbered e = some w ∧ x.1 = some w := by
  induction es generalizing p with
  | nil => simp [withPositions] at hx
  | cons e es ih =>
    have here : (positionOf? factors numbered e).or p = p ∨
        ∃ w, positionOf? factors numbered e = some w ∧
          (positionOf? factors numbered e).or p = some w := by
      cases positionOf? factors numbered e <;> simp
    have first {k : Option R} (hk : k = (positionOf? factors numbered e).or p) :
        k = p ∨ ∃ e' ∈ e :: es, ∃ w, positionOf? factors numbered e' = some w ∧ k = some w := by
      subst hk
      refine here.imp_right fun hw => ?_
      obtain ⟨w, hw⟩ := hw
      exact ⟨e, List.mem_cons_self .., w, hw⟩
    rw [withPositions_cons] at hx
    rcases List.mem_cons.1 hx with rfl | hx
    · exact first rfl
    · rcases ih hx with h | ⟨e', he', h⟩
      · exact first h
      · exact Or.inr ⟨e', List.mem_cons_of_mem _ he', h⟩

variable [OrderedScalar R]

theorem keyBefore_trans (a b c : Option R × Expression) :
    positionBefore a.1 b.1 → positionBefore b.1 c.1 → positionBefore a.1 c.1 :=
  positionBefore_trans a.1 b.1 c.1

theorem keyBefore_total (a b : Option R × Expression) :
    positionBefore a.1 b.1 || positionBefore b.1 a.1 := positionBefore_total a.1 b.1

/-- If a position comes next, or nothing, an expression more does not change the order of the
others. -/
theorem sortRun_insert_of_next (front : List Expression) (e : Expression) {back : List Expression}
    (next : ∀ e' ∈ back.head?, (positionOf? factors numbered e').isSome) :
    ∃ xs ys, sortRun factors numbered (front ++ e :: back) = xs ++ e :: ys ∧
      sortRun factors numbered (front ++ back) = xs ++ ys := by
  obtain ⟨q, hq⟩ := exists_withPositions_append factors numbered none front
  obtain ⟨xs, ys, longer, shorter⟩ := mergeSort_insert keyBefore_trans keyBefore_total
    (withPositions factors numbered none front)
    ((positionOf? factors numbered e).or q, e)
    (withPositions factors numbered ((positionOf? factors numbered e).or q) back)
  refine ⟨xs.map (·.2), ys.map (·.2), ?_, ?_⟩
  · rw [sortRun, hq, withPositions_cons, longer, List.map_append, List.map_cons]
  · rw [sortRun, hq, withPositions_congr next q ((positionOf? factors numbered e).or q), shorter,
      List.map_append]

/-- If a position is the first one of all, and none of those behind it is less, it does not change
the order of the others. -/
theorem sortRun_insert_of_first {front back : List Expression} {e : Expression} {v : R}
    (he : positionOf? factors numbered e = some v)
    (first : ∀ e' ∈ front, positionOf? factors numbered e' = none)
    (least : ∀ e' ∈ back, ∀ w, positionOf? factors numbered e' = some w →
      Scalar.sortsBefore v w) :
    ∃ xs ys, sortRun factors numbered (front ++ e :: back) = xs ++ e :: ys ∧
      sortRun factors numbered (front ++ back) = xs ++ ys := by
  -- What follows up to the next position stays in front as well, with either position in force.
  obtain ⟨near, far, rfl, hnear, hfar⟩ : ∃ near far, back = near ++ far ∧
      (∀ e' ∈ near, positionOf? factors numbered e' = none) ∧
      ∀ e' ∈ far.head?, (positionOf? factors numbered e').isSome := by
    refine ⟨back.takeWhile fun e' => (positionOf? factors numbered e').isNone,
      back.dropWhile fun e' => (positionOf? factors numbered e').isNone,
      List.takeWhile_append_dropWhile.symm, fun e' he' => ?_, fun e' he' => ?_⟩
    · simpa using List.mem_takeWhile_imp he'
    · have := List.head?_dropWhile_not (fun e' => (positionOf? factors numbered e').isNone) back
      rw [Option.mem_def.1 he'] at this
      simpa [Option.isSome_iff_ne_none] using this
  let rest := withPositions factors numbered (some v) far
  have alike (k : Option R) (es : List Expression) :
      (es.map (k, ·)).Pairwise fun a b => positionBefore a.1 b.1 :=
    List.pairwise_map.2 (List.pairwise_of_forall fun _ _ => positionBefore_refl k)
  have behind : ∀ y ∈ rest, positionBefore (some v) y.1 := by
    intro y hy
    rcases eq_or_of_mem_withPositions hy with h | ⟨e', he', w, hw, h⟩
    · rw [h]
      exact positionBefore_refl _
    · rw [h]
      exact least e' (List.mem_append_right _ he') w hw
  have longer : withPositions factors numbered none (front ++ e :: (near ++ far)) =
      front.map (none, ·) ++ ((e :: near).map (some v, ·) ++ rest) := by
    rw [withPositions_append_of_none first, withPositions_cons, he, Option.some_or,
      withPositions_append_of_none hnear]
    rfl
  have shorter : withPositions factors numbered none (front ++ (near ++ far)) =
      (front ++ near).map (none, ·) ++ rest := by
    rw [withPositions_append_of_none first, withPositions_append_of_none hnear,
      withPositions_congr hfar none (some v), List.map_append, List.append_assoc]
  have ahead (es : List Expression) (ys : List (Option R × Expression)) :
      ∀ x ∈ es.map ((none : Option R), ·), ∀ y ∈ ys, positionBefore x.1 y.1 :=
    List.forall_mem_map.2 fun _ _ _ _ => rfl
  refine ⟨front, near ++ (rest.mergeSort fun a b => positionBefore a.1 b.1).map (·.2), ?_, ?_⟩
  · rw [sortRun, longer, mergeSort_append_of_le keyBefore_trans keyBefore_total (alike none front)
        (ahead front _),
      mergeSort_append_of_le keyBefore_trans keyBefore_total (alike (some v) (e :: near))
        (List.forall_mem_map.2 fun _ _ => behind)]
    simp
  · rw [sortRun, shorter, mergeSort_append_of_le keyBefore_trans keyBefore_total (alike none _)
        (ahead _ rest)]
    simp

end Run

/-! ## In a CSV route -/

section Route

variable {R : Type} [Scalar R] {factors : List R}

/-- What stands behind a header is sorted by itself. -/
theorem sortByPosition_append_header (xs : List Expression) {e : Expression}
    (he : e.header?.isSome) (ys : List Expression) :
    sortByPosition factors .csv (xs ++ e :: ys) =
      sortByPosition factors .csv xs ++ e :: sortByPosition factors .csv ys := by
  obtain ⟨name, hname⟩ := Option.isSome_iff_exists.1 he
  have key (run : List Expression) : sortFrom factors .csv true run (xs ++ e :: ys) =
      sortFrom factors .csv true run xs ++ e :: sortFrom factors .csv true [] ys := by
    induction xs generalizing run with
    | nil =>
      simp only [List.nil_append, sortFrom, hname]
      rfl
    | cons x xs ih =>
      rw [List.cons_append, sortFrom, sortFrom]
      cases x.header? with
      | none => exact ih (x :: run)
      | some other =>
        have behind : numbersAllowed .csv other = true := rfl
        simp only [behind, ih, List.append_assoc, List.cons_append]
  exact key []

variable (factors) in
/-- What stands in front of the first header is sorted by itself. -/
theorem sortByPosition_append_of_headless {xs : List Expression}
    (h : ∀ e ∈ xs, e.header? = none) {ys : List Expression} (hys : (sections ys).1 = []) :
    sortByPosition factors .csv (xs ++ ys) =
      sortRun factors true xs ++ sortByPosition factors .csv ys := by
  rw [sortByPosition_eq, sortByPosition_eq, sections_append h]
  simp [joined, sortedSections, hys, sortRun, withPositions]

variable (factors) in
/-- Expressions without a header among them are sorted with those around them up to the next
header on both sides. -/
theorem sortByPosition_around (before xs : List Expression) (h : ∀ e ∈ xs, e.header? = none)
    (after : List Expression) :
    sortByPosition factors .csv (before ++ (xs ++ after)) =
      sortByPosition factors .csv (before.rdropWhile (·.header?.isNone)) ++
        (sortRun factors true (before.rtakeWhile (·.header?.isNone) ++
            (xs ++ after.takeWhile (·.header?.isNone))) ++
          sortByPosition factors .csv (after.dropWhile (·.header?.isNone))) := by
  have near : before.rtakeWhile (·.header?.isNone) ++ (xs ++ after.takeWhile (·.header?.isNone)) ++
      after.dropWhile (·.header?.isNone) = before.rtakeWhile (·.header?.isNone) ++ (xs ++ after) := by
    simp only [List.append_assoc, List.takeWhile_append_dropWhile]
  have headless : ∀ e ∈ before.rtakeWhile (·.header?.isNone) ++
      (xs ++ after.takeWhile (·.header?.isNone)), e.header? = none := by
    intro e he
    rcases List.mem_append.1 he with he | he
    · simpa using List.mem_rtakeWhile_imp he
    · rcases List.mem_append.1 he with he | he
      · exact h e he
      · simpa using List.mem_takeWhile_imp he
  have beyond : (sections (after.dropWhile (·.header?.isNone))).1 = [] := by
    cases hd : after.dropWhile (·.header?.isNone) with
    | nil => rfl
    | cons e es =>
      have := List.head?_dropWhile_not (·.header?.isNone) after
      rw [hd, List.head?_cons] at this
      simp only [sections, show e.header?.isSome by simpa [Option.isSome_iff_ne_none] using this,
        if_true]
  have run := sortByPosition_append_of_headless factors headless beyond
  rw [near] at run
  have whole : before ++ (xs ++ after) = before.rdropWhile (·.header?.isNone) ++
      (before.rtakeWhile (·.header?.isNone) ++ (xs ++ after)) := by
    rw [← List.append_assoc (before.rdropWhile _), List.rdropWhile_append_rtakeWhile]
  rw [whole, ← run]
  rcases List.eq_nil_or_concat' (before.rdropWhile (·.header?.isNone)) with hnil | ⟨front, e, hend⟩
  · rw [hnil]
    simp [sortByPosition, sortFrom, sortRun, withPositions]
  · have he : e.header?.isSome := by
      have := List.rdropWhile_last_not (·.header?.isNone) before (by simp [hend])
      simpa [hend, Option.isSome_iff_ne_none] using this
    rw [hend, List.append_assoc, List.singleton_append, sortByPosition_append_header _ he,
      sortByPosition_append_header _ he]
    simp [sortByPosition, sortFrom, sortRun, withPositions]

/-- Whether sorting leaves the expressions around one of them in the order that they have without
it. -/
def KeepsOrder (factors : List R) (before : List Expression) (e : Expression)
    (after : List Expression) : Prop :=
  ∃ xs ys, sortByPosition factors .csv (before ++ e :: after) = xs ++ e :: ys ∧
    sortByPosition factors .csv (before ++ after) = xs ++ ys

variable {before after : List Expression} {e : Expression} (he : e.header? = none)

include he

theorem keepsOrder_of_sortRun
    (h : ∃ xs ys, sortRun factors true (before.rtakeWhile (·.header?.isNone) ++
        e :: after.takeWhile (·.header?.isNone)) = xs ++ e :: ys ∧
      sortRun factors true (before.rtakeWhile (·.header?.isNone) ++
        after.takeWhile (·.header?.isNone)) = xs ++ ys) : KeepsOrder factors before e after := by
  obtain ⟨xs, ys, longer, shorter⟩ := h
  have around := sortByPosition_around factors before [e] (by simpa using he) after
  have without := sortByPosition_around factors before [] (by simp) after
  simp only [List.singleton_append, List.nil_append, longer, shorter] at around without
  exact ⟨sortByPosition factors .csv (before.rdropWhile (·.header?.isNone)) ++ xs,
    ys ++ sortByPosition factors .csv (after.dropWhile (·.header?.isNone)), by simp [around],
    by simp [without]⟩

variable [OrderedScalar R]

/-- The order of the others is kept if a position or a header comes next, or nothing. -/
theorem keepsOrder_of_next
    (next : ∀ e' ∈ after.head?, e'.header?.isSome ∨ (marker? factors e').isSome) :
    KeepsOrder factors before e after := by
  refine keepsOrder_of_sortRun he (sortRun_insert_of_next _ _ fun e' he' => ?_)
  cases after with
  | nil => simp at he'
  | cons x after =>
    rw [List.takeWhile_cons] at he'
    split_ifs at he' with hx
    · obtain rfl := Option.some.inj he'
      refine (next x rfl).resolve_left fun h => ?_
      rw [Option.isNone_iff_eq_none.1 hx] at h
      cases h
    · simp at he'

/-- The order of the others is kept if no position stands in front, up to the last header, and none
that is less behind, up to the next one. -/
theorem keepsOrder_of_first {v : R} (hv : marker? factors e = some v)
    (first : ∀ e' ∈ before.rtakeWhile (·.header?.isNone), marker? factors e' = none)
    (least : ∀ e' ∈ after.takeWhile (·.header?.isNone), ∀ w, marker? factors e' = some w →
      Scalar.sortsBefore v w) : KeepsOrder factors before e after :=
  keepsOrder_of_sortRun he (sortRun_insert_of_first hv first least)

end Route

end RailRoute.Source
