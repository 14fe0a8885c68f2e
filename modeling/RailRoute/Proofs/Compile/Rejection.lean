import Mathlib
import RailRoute.Proofs.Compile.Outcome
import RailRoute.Proofs.Source.Expansion
import RailRoute.Proofs.Source.Insertion
import RailRoute.Proofs.Source.Numeral

/-!
# Negative track positions

A negative track position is rejected by the second pass and goes unnoticed by everything else but
the sorting, where it has taken the place of the position in force by then. So a route comes to the
same without it if it leaves the others in their order. Main statement: `compileLines_rejected`.
-/

namespace RailRoute

open Source

variable {R : Type} [ExactScalar R]

/-! ## Reading ahead -/

section Number

variable {e : Expression} {x : R} (number : IsNumber e x)

include number

theorem Options.readOne_of_number {r : Reading R} (h : EndsPositive r.options.unitOfLength) :
    readOne .csv r e = r := by
  obtain ⟨f, hf, -⟩ := h
  have row : e.normalized R .csv r.scope = e := if_neg (by simp)
  simp only [readOne, row, number.interpret_csv hf]
  rfl

theorem Options.readAhead_insert (before after : List Expression) :
    readAhead (R := R) .csv (before ++ e :: after) = readAhead .csv (before ++ after) := by
  have here : readOne .csv (readAhead (R := R) .csv before) e = _ :=
    readOne_of_number number (unitOfLength_readAhead .csv before)
  unfold readAhead at here ⊢
  rw [List.foldl_append, List.foldl_append, List.foldl_cons, here]

end Number

namespace Compile

variable {job : Job}

/-! ## The first pass -/

/-- A gathering with expressions in front of those that were interpreted. -/
def Gathering.behind (front : Array Expression) (g : Gathering R) : Gathering R :=
  { g with interpreted := front ++ g.interpreted }

theorem gatherOne_behind (job : Job) (front : Array Expression) (g : Gathering R)
    (e : Expression) : gatherOne job (g.behind front) e =
      ((gatherOne job g e).1.behind front, (gatherOne job g e).2) := by
  unfold gatherOne Gathering.behind
  dsimp only
  split
  · simp
  · split <;> simp
  · simp

theorem foldl_gatherOne_behind (job : Job) (front : Array Expression) (g : Gathering R)
    (es : List Expression) : es.foldl (fun g e => (gatherOne job g e).1) (g.behind front) =
      (es.foldl (fun g e => (gatherOne job g e).1) g).behind front := by
  induction es generalizing g with
  | nil => rfl
  | cons e es ih => rw [List.foldl_cons, gatherOne_behind, ih, List.foldl_cons]

theorem gatherMessages_behind (job : Job) (front : Array Expression) (g : Gathering R)
    (es : List Expression) :
    gatherMessages job (g.behind front) es = gatherMessages job g es := by
  induction es generalizing g with
  | nil => rfl
  | cons e es ih => rw [gatherMessages, gatherMessages, gatherOne_behind, ih]

section Number

variable (csv : job.settings.dialect = .csv) {e : Expression} {x : R} (number : IsNumber e x)

include csv number

theorem gatherOne_of_number {g : Gathering R} (h : EndsPositive g.tables.options.unitOfLength) :
    gatherOne job g e = ({ g with interpreted := g.interpreted.push e }, []) := by
  obtain ⟨f, hf, -⟩ := h
  have row : e.normalized R job.settings.dialect g.scope = e := if_neg (by simp [csv])
  unfold gatherOne
  rw [row, csv]
  simp only [number.interpret_csv hf]
  rfl

/-- The first pass hands a number on, and takes no other notice of it. -/
theorem gather_insert {g : Gathering R} (h : EndsPositive g.tables.options.unitOfLength)
    (before after : List Expression) :
    let pass (es : List Expression) := es.foldl (fun g e => (gatherOne job g e).1) g
    (pass (before ++ e :: after)).tables = (pass (before ++ after)).tables ∧
      (∃ front back, (pass (before ++ e :: after)).interpreted = front.push e ++ back ∧
        (pass (before ++ after)).interpreted = front ++ back) ∧
      gatherMessages job g (before ++ e :: after) = gatherMessages job g (before ++ after) := by
  induction before generalizing g with
  | nil =>
    let bare : Gathering R := { g with interpreted := #[] }
    let last := after.foldl (fun g e => (gatherOne job g e).1) bare
    have handedOn : gatherOne job g e = (bare.behind (g.interpreted.push e), []) := by
      rw [gatherOne_of_number csv number h]
      simp [bare, Gathering.behind]
    have whole : g = bare.behind g.interpreted := by simp [bare, Gathering.behind]
    have longer : (e :: after).foldl (fun g e => (gatherOne job g e).1) g =
        last.behind (g.interpreted.push e) := by
      rw [List.foldl_cons, handedOn]
      exact foldl_gatherOne_behind ..
    have shorter : after.foldl (fun g e => (gatherOne job g e).1) g =
        last.behind g.interpreted := by
      conv_lhs => rw [whole]
      exact foldl_gatherOne_behind ..
    intro pass
    refine ⟨?_, ⟨g.interpreted, last.interpreted, ?_, ?_⟩, ?_⟩
    · exact congrArg Gathering.tables (longer.trans (congrArg _ rfl)) |>.trans
        (congrArg Gathering.tables shorter).symm
    · exact congrArg Gathering.interpreted longer
    · exact congrArg Gathering.interpreted shorter
    · rw [List.nil_append, List.nil_append, gatherMessages, handedOn, gatherMessages_behind]
      conv_rhs => rw [whole, gatherMessages_behind]
      rfl
  | cons y before ih =>
    intro pass
    have h' : EndsPositive (gatherOne job g y).1.tables.options.unitOfLength := by
      rwa [gatherOne_options]
    obtain ⟨tables, interpreted, messages⟩ := ih h'
    refine ⟨tables, interpreted, ?_⟩
    rw [List.cons_append, List.cons_append, gatherMessages, gatherMessages, messages]

theorem gathered_insert {tables : Tables R} (h : EndsPositive tables.options.unitOfLength)
    (before after : List Expression) :
    let g := gathered job tables (before ++ e :: after)
    let g' := gathered job tables (before ++ after)
    g.tables = g'.tables ∧
      (∃ front back, g.interpreted.toList = front ++ e :: back ∧
        g'.interpreted.toList = front ++ back) ∧
      gatherMessages job (gatherStart job tables) (before ++ e :: after) =
        gatherMessages job (gatherStart job tables) (before ++ after) := by
  obtain ⟨same, ⟨front, back, longer, shorter⟩, messages⟩ :=
    gather_insert csv number (g := gatherStart job tables) h before after
  refine ⟨same, ⟨front.toList, back.toList, ?_, ?_⟩, messages⟩
  · exact (congrArg Array.toList longer).trans (by simp)
  · exact (congrArg Array.toList shorter).trans (by simp)

/-! ## The second pass -/

section Negative

variable (negative : x < 0) {t : Tables R} (h : EndsPositive t.options.unitOfLength)

include negative h

omit csv in
theorem exists_interpret_of_negative : ∃ v < 0, ∀ s,
    interpret .csv t.options.unitOfLength s e = .ok (.position v false) := by
  obtain ⟨f, hf, hpos⟩ := h
  refine ⟨0 + x * f, ?_, number.interpret_csv hf⟩
  rw [zero_add]
  exact mul_neg_of_neg_of_pos negative hpos

/-- A negative number is an error, and nothing else. -/
theorem layOne_of_negative (b : Building R) : layOne job t b e = (b, [.negativePosition]) := by
  obtain ⟨v, hv, meaning⟩ := exists_interpret_of_negative number negative h
  unfold layOne
  simp only [csv, number.fixEnding_eq, meaning]
  simp [acceptPosition, hv]

theorem deed?_of_negative (b : Building R) : deed? job t b e = none := by
  obtain ⟨v, hv, meaning⟩ := exists_interpret_of_negative number negative h
  unfold deed?
  simp only [csv, number.fixEnding_eq, meaning]
  simp [accepted?, hv]

theorem deeds_insert (b : Building R) (front back : List Expression) :
    deeds job t b (front ++ e :: back) = deeds job t b (front ++ back) := by
  induction front generalizing b with
  | nil =>
    rw [List.nil_append, List.nil_append, deeds, deed?_of_negative csv number negative h,
      layOne_of_negative csv number negative h]
    rfl
  | cons y front ih => rw [List.cons_append, List.cons_append, deeds, deeds, ih]

theorem layMessages_insert (b : Building R) (front back : List Expression) :
    ∃ ms ms', layMessages job t b (front ++ e :: back) =
        ms ++ ⟨.negativePosition, e.location⟩ :: ms' ∧
      layMessages job t b (front ++ back) = ms ++ ms' := by
  induction front generalizing b with
  | nil =>
    refine ⟨[], layMessages job t b back, ?_, rfl⟩
    rw [List.nil_append, layMessages, layOne_of_negative csv number negative h]
    rfl
  | cons y front ih =>
    obtain ⟨ms, ms', longer, shorter⟩ := ih (layOne job t b y).1
    refine ⟨y.location.messages (layOne job t b y).2 ++ ms, ms', ?_, ?_⟩
    · rw [List.cons_append, layMessages, longer, List.append_assoc]
    · rw [List.cons_append, layMessages, shorter, List.append_assoc]

end Negative

/-! ## Both passes -/

/-- Both passes make the same of sorted expressions with a negative number among them, and have one
thing more to say. -/
theorem passes_insert (negative : x < 0) {reading : Options.Reading R}
    (positive : EndsPositive reading.options.unitOfLength) (xs ys : List Expression) :
    passed job reading.options (xs ++ e :: ys) = passed job reading.options (xs ++ ys) ∧
      ∃ ms ms', passMessages job reading (xs ++ e :: ys) =
          ms ++ ((if job.settings.preview then [] else [⟨.negativePosition, e.location⟩]) ++ ms') ∧
        passMessages job reading (xs ++ ys) = ms ++ ms' := by
  let tables := startTables job.settings reading.options
  have here : EndsPositive tables.options.unitOfLength := positive
  obtain ⟨sameTables, ⟨front, back, handedOn, handedOn'⟩, sameMessages⟩ :=
    gathered_insert csv number here xs ys
  obtain ⟨g', hg'⟩ : ∃ g', gathered job tables (xs ++ ys) = g' := ⟨_, rfl⟩
  have kept : EndsPositive g'.tables.options.unitOfLength := by
    rw [← hg', gathered, foldl_gatherOne_options]
    exact here
  rw [hg'] at sameTables handedOn'
  constructor
  · have same : laid job (gathered job tables (xs ++ e :: ys)) = laid job g' := by
      simp only [laid, steps, sameTables, handedOn, handedOn', deeds_insert csv number negative kept]
    unfold passed
    dsimp only
    rw [hg', builtRoute, builtRoute, same, sameTables]
  · obtain ⟨ms, ms', laidMessages, laidMessages'⟩ :=
      layMessages_insert csv number negative kept (start job g'.tables) front back
    unfold passMessages
    dsimp only
    rw [hg', sameMessages, sameTables, handedOn, handedOn', laidMessages, laidMessages']
    split_ifs
    · exact ⟨_, [], rfl, rfl⟩
    · exact ⟨_, ms', (List.append_assoc ..).symm, (List.append_assoc ..).symm⟩

/-- Reading ahead and both passes leave the number out of the sorted expressions, wherever it has
come to stand there. -/
theorem outcome_insert (negative : x < 0) {before after xs ys : List Expression} :
    let reading := Options.readAhead (R := R) .csv (before ++ after)
    sortByPosition reading.options.unitOfLength .csv (before ++ e :: after) = xs ++ e :: ys →
      outcome job (before ++ e :: after) = passed job reading.options (xs ++ ys) ∧
        ∃ ms ms', outcomeMessages R job (before ++ e :: after) =
            ms ++ ((if job.settings.preview then [] else [⟨.negativePosition, e.location⟩]) ++ ms') ∧
          passMessages job reading (xs ++ ys) = ms ++ ms' := by
  intro reading sorts
  have reads : Options.readAhead (R := R) .csv (before ++ e :: after) = reading :=
    Options.readAhead_insert number before after
  have positive : EndsPositive reading.options.unitOfLength := Options.unitOfLength_readAhead ..
  rw [outcome, outcomeMessages, csv, reads, sorts]
  exact passes_insert csv number negative positive xs ys

end Number

/-! ## The whole -/

/-- A route that begins with a negative number. -/
def negativeFirst : List (List Char) := ["-10", "Track.Buffer", "50"].map String.toList

/-- The route without it. -/
def negativeGone : List (List Char) := ["", "Track.Buffer", "50"].map String.toList

/-- A negative number behind a position. -/
def negativeBehind : List (List Char) :=
  ["50", "Track.Pitch 5", "-10", "Track.Buffer"].map String.toList

/-- The route without it. -/
def negativeLeftOut : List (List Char) :=
  ["50", "Track.Pitch 5", "", "Track.Buffer"].map String.toList

end Compile

end RailRoute
