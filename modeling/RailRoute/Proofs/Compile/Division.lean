import Mathlib
import RailRoute.Proofs.Block.Units
import RailRoute.Proofs.Compile.Meaning
import RailRoute.Proofs.Compile.Outcome
import RailRoute.Proofs.Source.Units

/-!
# Passes over divided lengths

What the expressions of a route mean may come of what others mean by division: all positions and all
lengths among the arguments of commands are divided by a unit. Read in that unit, they then come to
the same in all three readings of a route: when the options are read ahead, in the first pass and in
the second. Main statements: `Options.inUnits_foldl_readOne`, `inUnits_foldl_gatherOne` and
`foldl_layOne_withUnit`.
-/

namespace RailRoute

open Source Command

/-! ## Readings -/

section Readings

variable {R : Type} [Scalar R]

theorem Expression.normalized_csv (s : Scope) (e : Expression) : e.normalized R .csv s = e := by
  simp [Expression.normalized]

/-- Whether a meaning comes of another one by division of its position or its lengths. -/
def Interpretation.IsDivided (u : R) : Interpretation R → Interpretation R → Prop
  | .scope new, .scope new' => new' = new
  | .position value hasArguments, .position value' hasArguments' =>
    value' = value / u ∧ hasArguments' = hasArguments
  | .command c, .command c' => c.IsDivided u c'
  | _, _ => False

/-- What an expression of a CSV route means under a scope, in meters. -/
def reading (s : Scope) (e : Expression) : Except Problem (Interpretation R) :=
  interpret .csv [1] s e

/-- What expressions of a CSV route mean that are read one after the other. -/
def readings : Scope → List Expression → List (Except Problem (Interpretation R))
  | _, [] => []
  | s, e :: es => reading s e :: readings (s.after (reading (R := R) s e)) es

/-- Whether what an expression means comes of what another one means by division. -/
def Divides (u : R) (m m' : Except Problem (Interpretation R)) : Prop :=
  ∃ i i', m = .ok i ∧ m' = .ok i' ∧ i.IsDivided u i'

/-- Whether a meaning comes of another one by division, or neither of them counts. -/
def Matches (u : R) (idle : Interpretation R → Prop) (m m' : Except Problem (Interpretation R)) :
    Prop :=
  Divides u m m' ∨ (∀ i, m = .ok i → idle i) ∧ ∀ i, m' = .ok i → idle i

section Decidable

variable [DecidableEq R] (u : R)

instance (i i' : Interpretation R) : Decidable (i.IsDivided u i') :=
  match i, i' with
  | .scope new, .scope new' => inferInstanceAs (Decidable (new' = new))
  | .position _ _, .position _ _ => inferInstanceAs (Decidable (_ ∧ _))
  | .command c, .command c' => inferInstanceAs (Decidable (c.IsDivided u c'))
  | .scope _, .position _ _ | .scope _, .command _ | .position _ _, .scope _
  | .position _ _, .command _ | .command _, .scope _ | .command _, .position _ _ => isFalse id

instance (m m' : Except Problem (Interpretation R)) : Decidable (Divides u m m') :=
  match m, m' with
  | .ok i, .ok i' => decidable_of_iff (i.IsDivided u i') (by simp [Divides])
  | .error _, _ => isFalse (by simp [Divides])
  | .ok _, .error _ => isFalse (by simp [Divides])

end Decidable

end Readings

variable {R : Type} [ExactScalar R] {u : R}

theorem Matches.after_eq {idle : Interpretation R → Prop}
    {m m' : Except Problem (Interpretation R)} (h : Matches u idle m m')
    (opening : ∀ new, ¬ idle (.scope new)) (s : Scope) : s.after m' = s.after m := by
  rcases h with ⟨i, i', rfl, rfl, divided⟩ | ⟨unheeded, unheeded'⟩
  · match i, i', divided with
    | .scope _, .scope _, divided => exact divided
    | .position _ _, .position _ _, _ => rfl
    | .command _, .command _, _ => rfl
  · have stays {m : Except Problem (Interpretation R)} (h : ∀ i, m = .ok i → idle i) :
        s.after m = s := by
      match m, h with
      | .error _, _ | .ok (.position _ _), _ | .ok (.command _), _ => rfl
      | .ok (.scope new), h => exact absurd (h _ rfl) (opening new)
    rw [stays unheeded, stays unheeded']

/-- Two runs through the same scopes keep what matching readings keep. -/
theorem rel_foldl_readings {σ : Type} {scope : σ → Scope} {spell : Expression → Expression}
    {step step' : σ → Expression → σ} {Q : σ → σ → Prop}
    {P : Except Problem (Interpretation R) → Except Problem (Interpretation R) → Prop}
    (opens : ∀ a e, scope (step a e) = (scope a).after (reading (R := R) (scope a) (spell e)))
    (opens' : ∀ a e, scope (step' a e) = (scope a).after (reading (R := R) (scope a) (spell e)))
    (opensAlike : ∀ {m m'}, P m m' → ∀ s : Scope, s.after m' = s.after m)
    (keeps : ∀ {a a' e e'}, Q a a' → scope a' = scope a →
      P (reading (scope a) (spell e)) (reading (scope a) (spell e')) → Q (step a e) (step' a' e'))
    {a a' : σ} (start : Q a a') (same : scope a' = scope a) {es es' : List Expression}
    (h : List.Forall₂ P (readings (scope a) (es.map spell)) (readings (scope a) (es'.map spell))) :
    Q (es.foldl step a) (es'.foldl step' a') := by
  induction es generalizing a a' es' with
  | nil =>
    cases es' with
    | nil => exact start
    | cons e' es' => cases h
  | cons e es ih =>
    cases es' with
    | nil => cases h
    | cons e' es' =>
      obtain ⟨head, tail⟩ := List.forall₂_cons.1 h
      have behind := opensAlike head (scope a)
      rw [behind, ← opens] at tail
      refine ih (keeps start same head) ?_ tail
      rw [opens', same, behind, opens]

/-! ## Reading options ahead -/

/-- What does not count when options are read ahead. -/
def Interpretation.IdleAhead : Interpretation R → Prop
  | .scope _ => False
  | .position _ _ => True
  | .command c => c.root ≠ "options"

/-- The options behind an expression. -/
def Options.after (o : Options R) : Except Problem (Interpretation R) → Options R
  | .ok (.command c) => if c.root = "options" then (update c o).value?.getD o else o
  | _ => o

theorem Options.after_map_scale (o : Options R) (m : Except Problem (Interpretation R)) :
    o.after (m.map (·.scale u)) = o.after m := by
  match m with
  | .error _ | .ok (.scope _) | .ok (.position _ _) | .ok (.command _) => rfl

theorem Options.after_eq_self {m : Except Problem (Interpretation R)}
    (idle : ∀ i, m = .ok i → i.IdleAhead) (o : Options R) : o.after m = o := by
  match m, idle with
  | .error _, _ | .ok (.scope _), _ | .ok (.position _ _), _ => rfl
  | .ok (.command c), idle => exact if_neg (idle _ rfl)

theorem Options.readOne_options (r : Options.Reading R) (e : Expression) :
    (readOne .csv r e).options =
      r.options.after (interpret .csv r.options.unitOfLength r.scope e) := by
  unfold readOne
  rw [Expression.normalized_csv]
  dsimp only
  generalize interpret .csv r.options.unitOfLength r.scope e = m
  match m with
  | .error _ | .ok (.scope _) | .ok (.position _ _) => rfl
  | .ok (.command c) =>
    dsimp only [after]
    split_ifs <;> rfl

/-- What the reading of options ahead may meet. -/
def AheadInUnits (u : R) (m m' : Except Problem (Interpretation R)) : Prop :=
  (∀ c, m = .ok (.command c) → c.root = "options" →
    c.name ≠ "unitoflength" ∧ ∀ i ∈ c.defaultedPlaces, c.States R i) ∧
  Matches u Interpretation.IdleAhead m m'

theorem Options.exists_after {m m' : Except Problem (Interpretation R)} (hu : u ≠ 0)
    (h : AheadInUnits u m m') (o : Options R) :
    ∃ o' : Options R, (o.withUnit 1).after m = o'.withUnit 1 ∧
      (o.withUnit u).after m' = o'.withUnit u := by
  obtain ⟨plain, ⟨i, i', rfl, rfl, divided⟩ | ⟨idle, idle'⟩⟩ := h
  · match i, i', divided with
    | .scope _, .scope _, _ => exact ⟨o, rfl, rfl⟩
    | .position _ _, .position _ _, _ => exact ⟨o, rfl, rfl⟩
    | .command c, .command c', divided =>
      have divided : c.IsDivided u c' := divided
      by_cases root : c.root = "options"
      · obtain ⟨unit, states⟩ := plain c rfl root
        have one := update_withUnit c.isDivided_one one_ne_zero root unit states o
        have other := update_withUnit divided hu root unit states o
        simp only [after, divided.root, if_pos root]
        rw [other, one]
        simp only [Check.value?_map]
        cases (update c (o.withUnit 1)).value? with
        | none => exact ⟨o, rfl, rfl⟩
        | some x => exact ⟨x, rfl, rfl⟩
      · exact ⟨o, if_neg root, if_neg (divided.root ▸ root)⟩
  · exact ⟨o, after_eq_self idle _, after_eq_self idle' _⟩

/-- Whether two readings of options ahead differ in the unit of length only. -/
def Options.Reading.InUnits (u : R) (r r' : Options.Reading R) : Prop :=
  ∃ o : Options R, r.options = o.withUnit 1 ∧ r'.options = o.withUnit u

theorem Options.inUnits_foldl_readOne (hu : u ≠ 0) {r r' : Options.Reading R}
    (start : r.InUnits u r') (same : r'.scope = r.scope) {es es' : List Expression}
    (h : List.Forall₂ (AheadInUnits u) (readings r.scope es) (readings r.scope es')) :
    (es.foldl (readOne .csv) r).InUnits u (es'.foldl (readOne .csv) r') := by
  have opens (r : Options.Reading R) (e : Expression) :
      (readOne .csv r e).scope = r.scope.after (reading (R := R) r.scope (id e)) := by
    rw [scope_readOne, reading, ← Scope.after_interpret_normalized .csv [1],
      Expression.normalized_csv, id]
  refine rel_foldl_readings (P := AheadInUnits u) opens opens
    (fun alike => alike.2.after_eq fun _ => id) ?_ start same (by simpa using h)
  rintro r r' e e' ⟨o, meters, units⟩ same alike
  obtain ⟨o', meters', units'⟩ := exists_after hu alike o
  refine ⟨o', ?_, ?_⟩
  · rw [readOne_options, meters]
    exact meters'
  · rw [readOne_options, units, same]
    exact (congrArg (after _) (interpret_singleton .csv u _ e')).trans
      ((after_map_scale ..).trans units')

/-! ## The first pass -/

namespace Compile

variable {job : Job}

/-- What does not count in the first pass. -/
def IdleGathering (job : Job) : Interpretation R → Prop
  | .scope _ => False
  | .position _ _ => True
  | .command c => ∀ (part : Tables.Part) (t : Tables R),
    targetPart? job.settings.preview c = some part →
      (t.update job.host.assets job.folders part c).value? = none

/-- The tables behind an expression. -/
def tablesAfter (job : Job) (t : Tables R) : Except Problem (Interpretation R) → Tables R
  | .ok (.command c) =>
    match targetPart? job.settings.preview c with
    | some part => (t.update job.host.assets job.folders part c).value?.getD t
    | none => t
  | _ => t

theorem tablesAfter_map_scale (t : Tables R) (m : Except Problem (Interpretation R)) :
    tablesAfter job t (m.map (·.scale u)) = tablesAfter job t m := by
  match m with
  | .error _ | .ok (.scope _) | .ok (.position _ _) | .ok (.command _) => rfl

theorem tablesAfter_eq_self {m : Except Problem (Interpretation R)}
    (idle : ∀ i, m = .ok i → IdleGathering job i) (t : Tables R) : tablesAfter job t m = t := by
  match m, idle with
  | .error _, _ | .ok (.scope _), _ | .ok (.position _ _), _ => rfl
  | .ok (.command c), idle =>
    have idle : IdleGathering job (.command c) := idle _ rfl
    dsimp only [tablesAfter]
    split
    · rename_i part target
      rw [idle part _ target]
      rfl
    · rfl

theorem gatherOne_tables (csv : job.settings.dialect = .csv) (g : Gathering R) (e : Expression) :
    (gatherOne job g e).1.tables = tablesAfter job g.tables
      (interpret .csv g.tables.options.unitOfLength g.scope e) := by
  unfold gatherOne
  rw [csv, Expression.normalized_csv]
  dsimp only
  generalize interpret .csv g.tables.options.unitOfLength g.scope e = m
  match m with
  | .error _ | .ok (.scope _) | .ok (.position _ _) => rfl
  | .ok (.command c) =>
    dsimp only [tablesAfter]
    cases targetPart? job.settings.preview c <;> rfl

theorem exists_tablesAfter (hu : u ≠ 0) {m m' : Except Problem (Interpretation R)}
    (h : Matches u (IdleGathering job) m m') (t : Tables R) :
    ∃ t' : Tables R, tablesAfter job (t.withUnit 1) m = t'.withUnit 1 ∧
      tablesAfter job (t.withUnit u) m' = t'.withUnit u := by
  rcases h with ⟨i, i', rfl, rfl, divided⟩ | ⟨unheeded, unheeded'⟩
  · match i, i', divided with
    | .scope _, .scope _, _ => exact ⟨t, rfl, rfl⟩
    | .position _ _, .position _ _, _ => exact ⟨t, rfl, rfl⟩
    | .command c, .command c', divided =>
      have divided : c.IsDivided u c' := divided
      have target' : targetPart? job.settings.preview c' = targetPart? job.settings.preview c := by
        unfold targetPart?
        rw [divided.root]
      simp only [tablesAfter, target']
      cases target : targetPart? job.settings.preview c with
      | none => exact ⟨t, rfl, rfl⟩
      | some part =>
        have root := ofRoot?_of_targetPart? target
        have one := Tables.update_withUnit c.isDivided_one one_ne_zero job.folders root
          job.host.assets t
        have other := Tables.update_withUnit divided hu job.folders root job.host.assets t
        dsimp only
        rw [other, one]
        simp only [Check.value?_map]
        cases ((t.withUnit 1).update job.host.assets job.folders part c).value? with
        | none => exact ⟨t, rfl, rfl⟩
        | some x => exact ⟨x, rfl, rfl⟩
  · exact ⟨t, tablesAfter_eq_self unheeded _, tablesAfter_eq_self unheeded' _⟩

/-- Whether two runs of the first pass differ in the unit of length only. -/
def Gathering.InUnits (u : R) (g g' : Gathering R) : Prop :=
  ∃ t : Tables R, g.tables = t.withUnit 1 ∧ g'.tables = t.withUnit u

theorem inUnits_foldl_gatherOne (csv : job.settings.dialect = .csv) (hu : u ≠ 0)
    {g g' : Gathering R} (start : g.InUnits u g') (same : g'.scope = g.scope)
    {es es' : List Expression}
    (h : List.Forall₂ (Matches u (IdleGathering job)) (readings g.scope es)
      (readings g.scope es')) :
    (es.foldl (fun g e => (gatherOne job g e).1) g).InUnits u
      (es'.foldl (fun g e => (gatherOne job g e).1) g') := by
  have opens (g : Gathering R) (e : Expression) :
      (gatherOne job g e).1.scope = g.scope.after (reading (R := R) g.scope (id e)) := by
    rw [scope_gatherOne, csv, reading, ← Scope.after_interpret_normalized .csv [1],
      Expression.normalized_csv, id]
  refine rel_foldl_readings (P := Matches u (IdleGathering job)) opens opens
    (fun alike => alike.after_eq fun _ => id) ?_ start same (by simpa using h)
  rintro g g' e e' ⟨t, meters, units⟩ same alike
  obtain ⟨t', meters', units'⟩ := exists_tablesAfter hu alike t
  refine ⟨t', ?_, ?_⟩
  · rw [gatherOne_tables csv, meters]
    exact meters'
  · rw [gatherOne_tables csv, units, same]
    exact (congrArg (tablesAfter job _) (interpret_singleton .csv u _ e')).trans
      ((tablesAfter_map_scale ..).trans units')

/-! ## The second pass -/

/-- What does not count in the second pass. -/
def IdleLaying : Interpretation R → Prop
  | .scope _ | .position _ _ => False
  | .command c => c.root ≠ "track"

/-- The line behind an expression. -/
def layingAfter (job : Job) (t : Tables R) (l : Laying R) :
    Except Problem (Interpretation R) → Laying R
  | .ok (.position value hasArguments) => (acceptPosition job t l value hasArguments).1
  | .ok (.command c) => (layCommand job t l c).1
  | _ => l

theorem laying_layOne (t : Tables R) (b : Building R) (e : Expression) :
    (layOne job t b e).1.laying = layingAfter job t b.laying
      (interpret job.settings.dialect t.options.unitOfLength b.scope
        (fixEnding job.settings.fixesLineEndings e)) := by
  unfold layOne
  dsimp only
  generalize interpret job.settings.dialect t.options.unitOfLength b.scope _ = m
  match m with
  | .error _ | .ok (.scope _) | .ok (.position _ _) | .ok (.command _) => rfl

/-- What the second pass may meet. -/
def LaidInUnits (u : R) (m m' : Except Problem (Interpretation R)) : Prop :=
  (∀ c, m = .ok (.command c) → c.root = "track" → ∀ i ∈ c.defaultedPlaces, c.States R i) ∧
    Matches u IdleLaying m m'

theorem layingAfter_withUnit (hu : u ≠ 0) {m m' : Except Problem (Interpretation R)}
    (h : LaidInUnits u m m') (t : Tables R) (l : Laying R) :
    layingAfter job (t.withUnit u) l (m'.map (·.scale u)) =
      layingAfter job (t.withUnit 1) l m := by
  obtain ⟨states, ⟨i, i', rfl, rfl, divided⟩ | ⟨unheeded, unheeded'⟩⟩ := h
  · match i, i', divided with
    | .scope _, .scope _, _ => rfl
    | .position x _, .position _ _, divided =>
      obtain ⟨rfl, rfl⟩ := divided
      exact congrArg (fun y => (acceptPosition job (t.withUnit 1) l y _).1)
        (div_mul_cancel₀ x hu)
    | .command c, .command c', divided =>
      have divided : c.IsDivided u c' := divided
      change (layCommand job (t.withUnit u) l c').1 = (layCommand job (t.withUnit 1) l c).1
      unfold layCommand
      rw [divided.root]
      split_ifs with root
      · exact congrArg Prod.fst (Site.perform_withUnit divided
          ⟨t, job.host.assets, job.folders, l⟩ hu root (states c rfl root))
      · rfl
      · rfl
  · have unchanged (v : R) {m : Except Problem (Interpretation R)}
        (h : ∀ i, m = .ok i → IdleLaying i) :
        layingAfter job (t.withUnit v) l m = l ∧
          layingAfter job (t.withUnit v) l (m.map (·.scale v)) = l := by
      match m, h with
      | .error _, _ | .ok (.scope _), _ => exact ⟨rfl, rfl⟩
      | .ok (.position _ _), h => exact (h _ rfl).elim
      | .ok (.command c), h =>
        have other : c.root ≠ "track" := h _ rfl
        have stays : (layCommand job (t.withUnit v) l c).1 = l := by
          unfold layCommand
          rw [if_neg other]
          split_ifs <;> rfl
        exact ⟨stays, stays⟩
    rw [(unchanged u unheeded').2, (unchanged 1 unheeded).1]

theorem foldl_layOne_withUnit (csv : job.settings.dialect = .csv) (hu : u ≠ 0) (t : Tables R)
    (b : Building R) {es es' : List Expression}
    (h : List.Forall₂ (LaidInUnits u)
      (readings b.scope (es.map (fixEnding job.settings.fixesLineEndings)))
      (readings b.scope (es'.map (fixEnding job.settings.fixesLineEndings)))) :
    (es'.foldl (fun b e => (layOne job (t.withUnit u) b e).1) b).laying =
      (es.foldl (fun b e => (layOne job (t.withUnit 1) b e).1) b).laying := by
  have opens (t : Tables R) (b : Building R) (e : Expression) : (layOne job t b e).1.scope =
      b.scope.after (reading (R := R) b.scope (fixEnding job.settings.fixesLineEndings e)) := by
    rw [scope_layOne, reading, Scope.after_interpret]
  refine rel_foldl_readings (Q := fun b b' : Building R => b'.laying = b.laying)
    (P := LaidInUnits u) (opens _) (opens _) (fun alike => alike.2.after_eq fun _ => id) ?_
    rfl rfl h
  intro b b' e e' start same alike
  rw [laying_layOne, laying_layOne, start, same, csv]
  exact (congrArg (layingAfter job _ _) (interpret_singleton .csv u _ _)).trans
    (layingAfter_withUnit hu alike t b.laying)

end Compile

end RailRoute
