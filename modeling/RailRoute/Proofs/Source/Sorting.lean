import Mathlib
import RailRoute.Proofs.Arithmetic
import RailRoute.Source.Order

/-!
# What sorting does

The position that an expression is sorted by is told from the expressions before it, which sorting
moves. It is the same afterwards nevertheless: expressions that are no positions stay right behind
the one that they stood behind, since sorting is stable, and a position brings its own along. So a
sorted list sorts to itself. Main statements: `keyed_sortRun`, that positions in force do not change,
`sections_sortByPosition`, that each section is sorted on its own, and `sortByPosition_law`.
-/

namespace RailRoute

variable {R : Type} [Scalar R]

/-! ## The order of positions -/

namespace Scalar

variable [OrderedScalar R]

theorem sortsBefore_trans {a b c : R} (hab : sortsBefore a b) (hbc : sortsBefore b c) :
    sortsBefore a c := by
  simp only [sortsBefore, Bool.or_eq_true, decide_eq_true_eq, Bool.not_eq_true'] at *
  rcases hbc with hbc | hc
  · rcases hab with hab | hb
    · exact Or.inl (OrderedScalar.le_trans hab hbc)
    · rw [(OrderedScalar.beq_self_of_le hbc).1] at hb
      cases hb
  · exact Or.inr hc

theorem sortsBefore_total (a b : R) : sortsBefore a b || sortsBefore b a := by
  simp only [sortsBefore, Bool.or_eq_true, decide_eq_true_eq, Bool.not_eq_true']
  by_cases ha : a == a
  · by_cases hb : b == b
    · rcases OrderedScalar.le_total ha hb with h | h
      · exact Or.inl (Or.inl h)
      · exact Or.inr (Or.inl h)
    · exact Or.inl (Or.inr (by simpa using hb))
  · exact Or.inr (Or.inr (by simpa using ha))

end Scalar

namespace Source

section Order

variable [OrderedScalar R]

theorem positionBefore_trans (a b c : Option R) (hab : positionBefore a b)
    (hbc : positionBefore b c) : positionBefore a c := by
  match a, b, c with
  | none, _, _ => rfl
  | some _, none, _ => cases hab
  | some _, some _, none => cases hbc
  | some _, some _, some _ => exact Scalar.sortsBefore_trans hab hbc

theorem positionBefore_total (a b : Option R) : positionBefore a b || positionBefore b a := by
  match a, b with
  | none, _ => rfl
  | some _, none => rfl
  | some a, some b => exact Scalar.sortsBefore_total a b

theorem positionBefore_refl (a : Option R) : positionBefore a a := by
  simpa using positionBefore_total a a

end Order

/-! ## Stable sorting -/

/-- Whether a list is another one sorted, with those that tie in the order they had. -/
structure StablySorted {α : Type} (le : α → α → Bool) (before after : List α) : Prop where
  perm : after.Perm before
  sorted : after.Pairwise fun a b => le a b
  stable : ∀ a, after.filter (fun b => le a b && le b a) = before.filter fun b => le a b && le b a

/-- Sorting leaves a part of a list alone that is sorted already. -/
theorem filter_mergeSort_of_pairwise {α : Type} {le : α → α → Bool}
    (trans : ∀ a b c, le a b → le b c → le a c) (total : ∀ a b, le a b || le b a) {l : List α}
    {p : α → Bool} (h : (l.filter p).Pairwise fun a b => le a b) :
    (l.mergeSort le).filter p = l.filter p := by
  have kept := (List.sublist_mergeSort trans total h List.filter_sublist).filter p
  rw [List.filter_filter] at kept
  simp only [Bool.and_self] at kept
  exact (kept.eq_of_length ((List.mergeSort_perm l le).filter _).length_eq.symm).symm

theorem stablySorted_mergeSort {α : Type} {le : α → α → Bool}
    (trans : ∀ a b c, le a b → le b c → le a c) (total : ∀ a b, le a b || le b a) (l : List α) :
    StablySorted le l (l.mergeSort le) where
  perm := List.mergeSort_perm l le
  sorted := List.pairwise_mergeSort trans total l
  stable a := by
    -- Those that tie with `a` are a sorted part of the list.
    refine filter_mergeSort_of_pairwise trans total ?_
    refine List.pairwise_of_forall_mem_list fun b hb c hc => ?_
    simp only [List.mem_filter, Bool.and_eq_true] at hb hc
    exact trans b a c hb.2.2 hc.2.1

/-! ## Positions in force -/

variable (factors : List R) (numbered : Bool)

/-- The position that an expression is where `numbered` says whether numbers are positions. -/
def positionOf? (e : Expression) : Option R := if numbered then marker? factors e else none

/-- The position in force at a place: that of the last expression up to there which is one. -/
def inForce (es : List Expression) (i : Nat) : Option R :=
  ((es.take (i + 1)).filterMap (positionOf? factors numbered)).getLast?

/-- Expressions with the position in force at each. -/
def keyed (es : List Expression) : List (Option R × Expression) :=
  es.mapIdx fun i e => (inForce factors numbered es i, e)

variable {factors numbered}

theorem withPositions_cons (p : Option R) (e : Expression) (es : List Expression) :
    withPositions factors numbered p (e :: es) =
      ((positionOf? factors numbered e).or p, e) ::
        withPositions factors numbered ((positionOf? factors numbered e).or p) es := by
  cases numbered <;> rfl

theorem withPositions_eq (p : Option R) (es : List Expression) :
    withPositions factors numbered p es =
      es.mapIdx fun i e => ((inForce factors numbered es i).or p, e) := by
  induction es generalizing p with
  | nil => rfl
  | cons e es ih =>
    have first : inForce factors numbered (e :: es) 0 = positionOf? factors numbered e := by
      cases h : positionOf? factors numbered e <;> simp [inForce, h]
    have later (i : Nat) : (inForce factors numbered (e :: es) (i + 1)).or p =
        (inForce factors numbered es i).or ((positionOf? factors numbered e).or p) := by
      cases h : positionOf? factors numbered e with
      | none => simp [inForce, h]
      | some x =>
        simp only [inForce, List.take_succ_cons, List.filterMap_cons, h, List.getLast?_cons]
        cases ((es.take (i + 1)).filterMap (positionOf? factors numbered)).getLast? <;> rfl
    rw [withPositions_cons, ih, List.mapIdx_cons, first]
    simp only [later]

theorem withPositions_none (es : List Expression) :
    withPositions factors numbered none es = keyed factors numbered es := by
  rw [withPositions_eq, keyed]
  simp only [Option.or_none]

theorem map_snd_withPositions (p : Option R) (es : List Expression) :
    (withPositions factors numbered p es).map (·.2) = es := by
  induction es generalizing p with
  | nil => rfl
  | cons e es ih => rw [withPositions_cons, List.map_cons, ih]

/-! ## Sorting keeps positions in force -/

theorem withPositions_fst_of_positionOf? {p : Option R} {es : List Expression}
    {x : Option R × Expression} (hx : x ∈ withPositions factors numbered p es) {m : R}
    (hm : positionOf? factors numbered x.2 = some m) : x.1 = some m := by
  induction es generalizing p with
  | nil => simp [withPositions] at hx
  | cons e es ih =>
    rw [withPositions_cons] at hx
    rcases List.mem_cons.1 hx with rfl | hx
    · simp only at hm
      simp [hm]
    · exact ih hx

/-- The position in force just behind a list of expressions, where `p` is in force in front. -/
def lastKey (p : Option R) (l : List (Option R × Expression)) : Option R :=
  (l.getLast?.map (·.1)).getD p

/-- Listed positions are those in force if each expression that is a position has itself and each
other one has that of the expression before. -/
theorem withPositions_map_snd {p : Option R} {l : List (Option R × Expression)}
    (own : ∀ x ∈ l, ∀ m, positionOf? factors numbered x.2 = some m → x.1 = some m)
    (others : ∀ u k e v, l = u ++ (k, e) :: v → positionOf? factors numbered e = none →
      k = lastKey p u) :
    withPositions factors numbered p (l.map (·.2)) = l := by
  induction l generalizing p with
  | nil => rfl
  | cons x l ih =>
    obtain ⟨k, e⟩ := x
    have hk : (positionOf? factors numbered e).or p = k := by
      cases he : positionOf? factors numbered e with
      | none => exact (others [] k e l rfl he).symm
      | some m => exact (own (k, e) (List.mem_cons_self ..) m he).symm
    rw [List.map_cons, withPositions_cons, hk, ih]
    · exact fun x hx => own x (List.mem_cons_of_mem _ hx)
    · intro u k' e' v hl he'
      rw [others ((k, e) :: u) k' e' v (by rw [hl]; rfl) he', lastKey, List.getLast?_cons]
      cases hu : u.getLast? <;> simp [lastKey, hu]

section Attached

variable [OrderedScalar R]

/-- Whether each expression that is no position stands behind one with the same position in force
or, if `p` is in force at it, behind only what sorts strictly before. -/
def Attached (factors : List R) (numbered : Bool) (p : Option R)
    (l : List (Option R × Expression)) : Prop :=
  ∀ u k e v, l = u ++ (k, e) :: v → positionOf? factors numbered e = none →
    u.getLast?.map (·.1) = some k ∨ k = p ∧ ∀ y ∈ u, ¬ positionBefore k y.1

theorem attached_insert {p h : Option R} {e : Expression} {l₁ l₂ : List (Option R × Expression)}
    (hh : h = (positionOf? factors numbered e).or p)
    (sorted : (l₁ ++ (h, e) :: l₂).Pairwise fun a b => positionBefore a.1 b.1)
    (below : ∀ y ∈ l₁, ¬ positionBefore h y.1) (att : Attached factors numbered h (l₁ ++ l₂)) :
    Attached factors numbered p (l₁ ++ (h, e) :: l₂) := by
  have behind : ∀ y ∈ l₂, positionBefore h y.1 :=
    (List.pairwise_cons.1 (List.pairwise_append.1 sorted).2.1).1
  intro u k e' v hl he'
  -- The expression in question is the new one, or stands behind it or in front of it.
  rcases List.append_eq_append_iff.1 hl with ⟨w, rfl, hw⟩ | ⟨w, rfl, hw⟩
  · cases w with
    | nil =>
      obtain ⟨⟨rfl, rfl⟩, -⟩ : (h = k ∧ e = e') ∧ l₂ = v := by simpa using hw
      rw [he', Option.none_or] at hh
      exact Or.inr ⟨hh, by simpa using below⟩
    | cons x w =>
      obtain ⟨rfl, rfl⟩ := List.cons.inj hw
      have hk : positionBefore h k := behind (k, e') (by simp)
      rcases att (l₁ ++ w) k e' v (by simp) he' with hlast | ⟨rfl, habove⟩
      · rcases List.eq_nil_or_concat' w with rfl | ⟨w, z, rfl⟩
        · rw [List.append_nil] at hlast
          obtain ⟨y, hy, rfl⟩ := Option.map_eq_some_iff.1 hlast
          exact absurd hk (below y (List.mem_of_getLast? hy))
        · left
          rw [← List.append_assoc, List.getLast?_concat] at hlast
          rwa [← List.cons_append, ← List.append_assoc, List.getLast?_concat]
      · rcases w with _ | ⟨z, w⟩
        · left
          simp
        · exact absurd (behind z (by simp)) (habove z (by simp))
  · cases w with
    | nil =>
      obtain ⟨⟨rfl, rfl⟩, -⟩ : (k = h ∧ e' = e) ∧ v = l₂ := by simpa using hw
      rw [he', Option.none_or] at hh
      exact Or.inr ⟨hh, by simpa using below⟩
    | cons x w =>
      obtain ⟨rfl, rfl⟩ := List.cons.inj hw
      have hk : ¬ positionBefore h k := below (k, e') (by simp)
      rcases att u k e' (w ++ l₂) (by simp) he' with hlast | ⟨rfl, -⟩
      · exact Or.inl hlast
      · exact absurd (positionBefore_refl k) hk

/-- Sorting inserts each expression in front of all that it ties with. -/
theorem attached_mergeSort (p : Option R) (es : List Expression) :
    Attached factors numbered p
      ((withPositions factors numbered p es).mergeSort fun a b => positionBefore a.1 b.1) := by
  have trans (a b c : Option R × Expression) : positionBefore a.1 b.1 → positionBefore b.1 c.1 →
      positionBefore a.1 c.1 := positionBefore_trans a.1 b.1 c.1
  have total (a b : Option R × Expression) :
      positionBefore a.1 b.1 || positionBefore b.1 a.1 := positionBefore_total a.1 b.1
  induction es generalizing p with
  | nil =>
    intro u k e v hl
    simp [withPositions] at hl
  | cons e es ih =>
    rw [withPositions_cons]
    obtain ⟨l₁, l₂, hl, hl', below⟩ := List.mergeSort_cons trans total
      ((positionOf? factors numbered e).or p, e)
      (withPositions factors numbered ((positionOf? factors numbered e).or p) es)
    have sorted := List.pairwise_mergeSort trans total
      (((positionOf? factors numbered e).or p, e) ::
        withPositions factors numbered ((positionOf? factors numbered e).or p) es)
    rw [hl] at sorted ⊢
    exact attached_insert rfl sorted (by simpa using below) (hl' ▸ ih _)

/-- Sorting the expressions between two headers does not change the position in force at any of
them. -/
theorem keyed_sortRun (es : List Expression) :
    keyed factors numbered (sortRun factors numbered es) =
      (keyed factors numbered es).mergeSort fun a b => positionBefore a.1 b.1 := by
  rw [← withPositions_none, ← withPositions_none, sortRun]
  refine withPositions_map_snd (fun x hx m hm => ?_) fun u k e v hl he => ?_
  · exact withPositions_fst_of_positionOf? (List.mem_mergeSort.1 hx) hm
  · rcases attached_mergeSort none es u k e v hl he with hlast | ⟨rfl, hbelow⟩
    · rw [lastKey, hlast, Option.getD_some]
    · -- Nothing sorts strictly before no position at all.
      obtain rfl : u = [] := List.eq_nil_iff_forall_not_mem.2 fun y hy => hbelow y hy rfl
      rfl

omit [OrderedScalar R] in
theorem sortRun_eq (es : List Expression) : sortRun factors numbered es =
    ((keyed factors numbered es).mergeSort fun a b => positionBefore a.1 b.1).map (·.2) := by
  rw [← withPositions_none, sortRun]

theorem sortRun_sortRun (es : List Expression) :
    sortRun factors numbered (sortRun factors numbered es) = sortRun factors numbered es := by
  have sorted : ((keyed factors numbered es).mergeSort fun a b => positionBefore a.1 b.1).Pairwise
      fun a b => positionBefore a.1 b.1 :=
    List.pairwise_mergeSort (fun a b c => positionBefore_trans a.1 b.1 c.1)
      (fun a b => positionBefore_total a.1 b.1) _
  rw [sortRun_eq, keyed_sortRun, List.mergeSort_of_pairwise sorted, ← sortRun_eq]

end Attached

theorem sortRun_perm (factors : List R) (numbered : Bool) (es : List Expression) :
    (sortRun factors numbered es).Perm es := by
  have := (List.mergeSort_perm (withPositions factors numbered none es)
    fun a b => positionBefore a.1 b.1).map (·.2)
  rwa [map_snd_withPositions] at this

/-! ## Sections -/

/-- The expressions in front of the first header, and each header with the expressions up to the
next one. -/
def sections : List Expression → List Expression × List (Expression × List Expression)
  | [] => ([], [])
  | e :: es =>
    let rest := sections es
    if e.header?.isSome then ([], (e, rest.1) :: rest.2) else (e :: rest.1, rest.2)

/-- Whether numbers are track positions behind a header. -/
def numberedBehind (dialect : Dialect) (e : Expression) : Bool :=
  match e.header? with
  | some name => numbersAllowed dialect name
  | none => decide (dialect = .csv)

/-- The expressions of sections, in order. -/
def joined (x : List Expression × List (Expression × List Expression)) : List Expression :=
  x.1 ++ x.2.flatMap fun s => s.1 :: s.2

/-- Whether these are sections: behind each header, and in front of the first, there is no other
one. -/
structure AreSections (x : List Expression × List (Expression × List Expression)) : Prop where
  first : ∀ e ∈ x.1, e.header? = none
  header : ∀ s ∈ x.2, s.1.header?.isSome
  body : ∀ s ∈ x.2, ∀ e ∈ s.2, e.header? = none

theorem areSections (es : List Expression) : AreSections (sections es) := by
  induction es with
  | nil => exact ⟨by simp [sections], by simp [sections], by simp [sections]⟩
  | cons e es ih =>
    by_cases h : e.header?.isSome
    · simp only [sections, h, if_true]
      refine ⟨by simp, ?_, ?_⟩
      · exact List.forall_mem_cons.2 ⟨h, ih.header⟩
      · exact List.forall_mem_cons.2 ⟨ih.first, ih.body⟩
    · simp only [sections, h]
      exact ⟨List.forall_mem_cons.2 ⟨by simpa using h, ih.first⟩, ih.header, ih.body⟩

theorem joined_sections (es : List Expression) : joined (sections es) = es := by
  induction es with
  | nil => rfl
  | cons e es ih =>
    by_cases h : e.header?.isSome
    · simp only [sections, h, if_true, joined, List.nil_append, List.flatMap_cons, List.cons_append]
      exact congrArg (e :: ·) ih
    · simp only [sections, h, joined]
      exact congrArg (e :: ·) ih

theorem sections_append {first : List Expression} (h : ∀ e ∈ first, e.header? = none)
    (es : List Expression) :
    sections (first ++ es) = (first ++ (sections es).1, (sections es).2) := by
  induction first with
  | nil => rfl
  | cons e first ih =>
    obtain ⟨he, hfirst⟩ := List.forall_mem_cons.1 h
    simp [sections, he, ih hfirst]

theorem sections_flatMap {rest : List (Expression × List Expression)}
    (header : ∀ s ∈ rest, s.1.header?.isSome) (body : ∀ s ∈ rest, ∀ e ∈ s.2, e.header? = none) :
    sections (rest.flatMap fun s => s.1 :: s.2) = ([], rest) := by
  induction rest with
  | nil => rfl
  | cons s rest ih =>
    obtain ⟨hs, header⟩ := List.forall_mem_cons.1 header
    obtain ⟨hbody, body⟩ := List.forall_mem_cons.1 body
    rw [List.flatMap_cons, List.cons_append, sections, sections_append hbody, ih header body]
    simp [hs]

theorem sections_joined {x : List Expression × List (Expression × List Expression)}
    (h : AreSections x) : sections (joined x) = x := by
  rw [joined, sections_append h.first, sections_flatMap h.header h.body, List.append_nil]

theorem sortFrom_eq (factors : List R) (dialect : Dialect) (numbered : Bool)
    (run es : List Expression) : sortFrom factors dialect numbered run es =
      joined (sortRun factors numbered (run.reverse ++ (sections es).1),
        (sections es).2.map fun s => (s.1, sortRun factors (numberedBehind dialect s.1) s.2)) := by
  induction es generalizing numbered run with
  | nil => simp [sortFrom, sections, joined]
  | cons e es ih =>
    cases h : e.header? with
    | none => simp [sortFrom, h, ih, sections]
    | some name => simp [sortFrom, h, ih, sections, joined, numberedBehind]

/-- The sections of a route, each of them sorted. -/
def sortedSections (factors : List R) (dialect : Dialect)
    (x : List Expression × List (Expression × List Expression)) :
    List Expression × List (Expression × List Expression) :=
  (sortRun factors (dialect = .csv) x.1,
    x.2.map fun s => (s.1, sortRun factors (numberedBehind dialect s.1) s.2))

theorem AreSections.sorted {x : List Expression × List (Expression × List Expression)}
    (h : AreSections x) (factors : List R) (dialect : Dialect) :
    AreSections (sortedSections factors dialect x) where
  first e he := h.first e ((sortRun_perm ..).mem_iff.1 he)
  header := List.forall_mem_map.2 h.header
  body := List.forall_mem_map.2 fun s hs e he => h.body s hs e ((sortRun_perm ..).mem_iff.1 he)

theorem sortByPosition_eq (factors : List R) (dialect : Dialect) (es : List Expression) :
    sortByPosition factors dialect es = joined (sortedSections factors dialect (sections es)) := by
  rw [sortByPosition, sortFrom_eq]
  rfl

/-- Each section is sorted on its own. -/
theorem sections_sortByPosition (factors : List R) (dialect : Dialect) (es : List Expression) :
    sections (sortByPosition factors dialect es) =
      sortedSections factors dialect (sections es) := by
  rw [sortByPosition_eq, sections_joined ((areSections es).sorted factors dialect)]

theorem sortedSections_perm (factors : List R) (dialect : Dialect)
    (x : List Expression × List (Expression × List Expression)) :
    (joined (sortedSections factors dialect x)).Perm (joined x) := by
  simp only [joined, sortedSections, List.flatMap_map]
  exact (sortRun_perm ..).append (List.Perm.flatMap_left _ fun s _ => (sortRun_perm ..).cons s.1)

theorem sortByPosition_perm (factors : List R) (dialect : Dialect) (es : List Expression) :
    (sortByPosition factors dialect es).Perm es := by
  have perm := sortedSections_perm factors dialect (sections es)
  rwa [joined_sections, ← sortByPosition_eq] at perm

/-- The header at each place that has one. -/
def headers (es : List Expression) : List (Option Expression) :=
  es.map fun e => e.header?.map fun _ => e

theorem headers_sortRun {es : List Expression} (h : ∀ e ∈ es, e.header? = none) (factors : List R)
    (numbered : Bool) : headers (sortRun factors numbered es) = headers es := by
  have none (l : List Expression) (hl : ∀ e ∈ l, e.header? = none) :
      headers l = List.replicate l.length none := by
    refine List.eq_replicate_iff.2 ⟨List.length_map _, fun x hx => ?_⟩
    obtain ⟨e, he, rfl⟩ := List.mem_map.1 hx
    simp [hl e he]
  have perm := sortRun_perm factors numbered es
  rw [none es h, none _ fun e he => h e (perm.mem_iff.1 he), perm.length_eq]

/-- Sorting leaves headers at their places. -/
theorem headers_sortByPosition (factors : List R) (dialect : Dialect) (es : List Expression) :
    headers (sortByPosition factors dialect es) = headers es := by
  obtain ⟨first, -, body⟩ := areSections es
  conv_rhs => rw [← joined_sections es]
  rw [sortByPosition_eq]
  simp only [joined, sortedSections, List.flatMap_map]
  have split (l l' : List Expression) : headers (l ++ l') = headers l ++ headers l' :=
    List.map_append
  rw [split, split, headers_sortRun first]
  refine congrArg (_ ++ ·) ?_
  simp only [headers, List.map_flatMap]
  refine List.flatMap_congr fun s hs => ?_
  exact congrArg (_ :: ·) (headers_sortRun (body s hs) ..)

theorem headers_getElem? {es : List Expression} {i : Nat} {e : Expression}
    (he : e.header?.isSome) : (headers es)[i]? = some (some e) ↔ es[i]? = some e := by
  rw [headers, List.getElem?_map]
  constructor
  · intro h
    obtain ⟨e', he', hmap⟩ := Option.map_eq_some_iff.1 h
    obtain ⟨_, -, rfl⟩ := Option.map_eq_some_iff.1 hmap
    exact he'
  · intro h
    obtain ⟨name, hname⟩ := Option.isSome_iff_exists.1 he
    simp [h, hname]

variable [OrderedScalar R]

/-- Whether expressions between two headers are stably sorted by the positions in force, which then
are still in force at each of them. -/
def SortedRun (factors : List R) (numbered : Bool) (before after : List Expression) : Prop :=
  StablySorted (fun a b => positionBefore a.1 b.1) (keyed factors numbered before)
    (keyed factors numbered after)

theorem sortedRun_sortRun (factors : List R) (numbered : Bool) (es : List Expression) :
    SortedRun factors numbered es (sortRun factors numbered es) := by
  rw [SortedRun, keyed_sortRun]
  exact stablySorted_mergeSort (fun a b c => positionBefore_trans a.1 b.1 c.1)
    (fun a b => positionBefore_total a.1 b.1) _

theorem sortByPosition_sortByPosition (factors : List R) (dialect : Dialect)
    (es : List Expression) :
    sortByPosition factors dialect (sortByPosition factors dialect es) =
      sortByPosition factors dialect es := by
  rw [sortByPosition_eq factors dialect (sortByPosition factors dialect es),
    sections_sortByPosition, sortByPosition_eq]
  simp only [sortedSections, sortRun_sortRun, List.map_map, Function.comp_def]

/-- Sorting by position moves expressions, but no headers and none past a header. Between headers it
is the stable sort by the position in force, which is the same at each expression afterwards. So
sorting once more changes nothing. -/
theorem sortByPosition_law (factors : List R) (dialect : Dialect) (es : List Expression) :
    let out := sortByPosition factors dialect es
    out.Perm es ∧
      (∀ (i : Nat) (e : Expression), e.header?.isSome → (out[i]? = some e ↔ es[i]? = some e)) ∧
      SortedRun factors (dialect = .csv) (sections es).1 (sections out).1 ∧
      List.Forall₂ (fun s s' => s'.1 = s.1 ∧
        SortedRun factors (numberedBehind dialect s.1) s.2 s'.2) (sections es).2 (sections out).2 ∧
      sortByPosition factors dialect out = out := by
  intro out
  have hsections : sections out = sortedSections factors dialect (sections es) :=
    sections_sortByPosition ..
  refine ⟨sortByPosition_perm .., fun i e he => ?_, ?_, ?_, sortByPosition_sortByPosition ..⟩
  · rw [← headers_getElem? he, ← headers_getElem? he, headers_sortByPosition]
  · rw [hsections]
    exact sortedRun_sortRun ..
  · rw [hsections]
    refine List.forall₂_map_right_iff.2 (List.forall₂_same.2 fun s _ => ⟨rfl, ?_⟩)
    exact sortedRun_sortRun ..

/-! ## A route with a section -/

/-- Expressions around three positions out of order, and a section behind them. -/
def unsorted : List Expression :=
  ["Track.A", "50", "Track.B", "25", "Track.C", "50", "Track.D", "[Other]", "10", "X"].map
    (⟨⟨"", 1, 1⟩, ·⟩)

/-- The list sorts as it should, and then it stays. -/
theorem sortByPosition_law_unsorted :
    let sorted := (["Track.A", "25", "Track.C", "50", "Track.B", "50", "Track.D", "[Other]", "10",
      "X"].map (⟨⟨"", 1, 1⟩, ·⟩) : List Expression)
    sorted.Perm unsorted ∧ sortByPosition ([1] : List ℚ) .csv sorted = sorted := by
  intro sorted
  have sorts : sortByPosition ([1] : List ℚ) .csv unsorted = sorted := by cbv
  obtain ⟨perm, -, -, -, again⟩ := sortByPosition_law ([1] : List ℚ) .csv unsorted
  rw [sorts] at perm again
  exact ⟨perm, again⟩

end Source

end RailRoute
