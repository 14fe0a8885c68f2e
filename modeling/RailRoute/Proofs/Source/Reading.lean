import Mathlib
import RailRoute.Proofs.Source.Directives

/-!
# What an expression is read as

An expression that is read is a condition, a definition or a plain text. What it comes to is told by
the dictionary in force where it stands: the text in the result, the message, the fault of structure
and the dictionary behind it. Main statements: `exists_fatal_iff`, when there is a fault, and
`expandOne_row`, `expandOne_openIf`, `expandOne_openElse` and `expandOne_closeIf`, the steps of an
expansion.
-/

namespace RailRoute.Source

/-- An expression as a block directive. -/
def Expression.block (e : Expression) : BlockScan := scanBlock (Text.trim e.text.toList)

/-- Whether an expression includes a file. -/
def Expression.isInclude (e : Expression) : Bool :=
  match e.block with
  | .found .includeFile _ => true
  | _ => false

theorem Expression.block_of_plain {e : Expression} (plain : '$' ∉ e.text.toList) :
    e.block = .absent := by
  have trimmed : '$' ∉ Text.trim e.text.toList := fun h => plain ((trim_isInfix _).subset h)
  rw [Expression.block, scanBlock, directiveHead?_eq_none trimmed]

/-- What an expression is read as. -/
inductive Role where
  | condition (inside : List Char)
  | definition (index value : List Char)
  | plain (text : List Char)
  deriving DecidableEq, Repr

/-- What an expression is read as, if it is read and does not end a list. -/
def Expression.role (e : Expression) : Role :=
  match e.block with
  | .found _ inside => .condition inside
  | _ =>
    match definition? (Text.trim e.text.toList) with
    | some (index, value) => .definition index value
    | none => .plain (Text.trim e.text.toList)

/-- The text in which the directives are replaced. The index of a definition has none. -/
def Role.subject : Role → List Char
  | .condition inside => inside
  | .definition _ value => value
  | .plain text => text

variable (R : Type) [Scalar R]

/-! ## Directives that are not closed -/

/-- Whether replacing the directives of a text, from left to right and innermost first, comes to one
that is not closed. Those that it has come through are valid. -/
inductive ReachesUnclosed : List Char → Dictionary → Prop
  | here {cs written : List Char} {d : Dictionary} (h : scanInline cs = .unclosed written) :
      ReachesUnclosed cs d
  | within {cs before written inside rest : List Char} {d : Dictionary}
      (h : scanInline cs = .found before written inside rest) (reached : ReachesUnclosed inside d) :
      ReachesUnclosed cs d
  | behind {cs before written inside rest argument value : List Char} {d d₁ d₂ : Dictionary}
      (h : scanInline cs = .found before written inside rest)
      (expanded : expandText R inside d = (.ok argument, d₁))
      (evaluated : evaluate R (.ofWritten written) argument d₁ = (.ok value, d₂))
      (reached : ReachesUnclosed rest d₂) : ReachesUnclosed cs d

section Unclosed

variable {R}

theorem reachesUnclosed_iff_of_found {cs before written inside rest : List Char}
    (h : scanInline cs = .found before written inside rest) {d : Dictionary} :
    ReachesUnclosed R cs d ↔ ReachesUnclosed R inside d ∨
      ∃ argument value d₁ d₂, expandText R inside d = (.ok argument, d₁) ∧
        evaluate R (.ofWritten written) argument d₁ = (.ok value, d₂) ∧
        ReachesUnclosed R rest d₂ := by
  constructor
  · rintro (h' | ⟨h', reached⟩ | ⟨h', expanded, evaluated, reached⟩) <;>
      rw [h] at h' <;> cases h'
    · exact .inl reached
    · exact .inr ⟨_, _, _, _, expanded, evaluated, reached⟩
  · rintro (reached | ⟨_, _, _, _, expanded, evaluated, reached⟩)
    · exact .within h reached
    · exact .behind h expanded evaluated reached

variable (R)

/-- Replacing the directives of a text meets a fault of structure if and only if it comes to one
that is not closed. -/
theorem exists_fatal_iff (cs : List Char) (d : Dictionary) :
    (∃ fault, (expandText R cs d).1 = .error (.fatal fault)) ↔ ReachesUnclosed R cs d := by
  induction cs using scan_induction generalizing d with
  | absent cs h =>
    rw [expandText_of_absent R h]
    constructor
    · rintro ⟨_, ⟨⟩⟩
    · rintro (h' | h' | h') <;> simp [h] at h'
  | unclosed cs written h =>
    rw [expandText_of_unclosed R h]
    exact ⟨fun _ => .here h, fun _ => ⟨_, rfl⟩⟩
  | found cs before written inside rest h ihInside ihRest =>
    rw [reachesUnclosed_iff_of_found h, expandText_of_found R h, ← ihInside]
    rcases he : expandText R inside d with ⟨e | argument, d₁⟩
    · simp
    · rcases hv : evaluate R (.ofWritten written) argument d₁ with ⟨e | value, d₂⟩
      · cases e with
        | invalid p => simp [hv]
        | fatal fault => exact absurd hv (evaluate_ne_fatal R _ _ _ _ fault)
      · have reached := ihRest d₂
        rcases hr : expandText R rest d₂ with ⟨e | tail, d₃⟩ <;> rw [hr] at reached <;>
          simp [hv, hr, ← reached]

end Unclosed

/-! ## Reading -/

/-- An expression that is read, and the dictionary in force where it stands. -/
structure Active where
  expression : Expression
  dictionary : Dictionary

/-- The number that a definition gives a text to. -/
def definedIndex? (index : List Char) : Option Int := (parseInt R index).filter (0 ≤ ·)

namespace Active

/-- What its text comes to. -/
def expansion (a : Active) : Except TextFailure (List Char) :=
  (expandText R a.expression.role.subject a.dictionary).1

/-- Whether the condition holds. One that is invalid or no number does not. -/
def holds (a : Active) : Bool :=
  match a.expansion R with
  | .ok text =>
    match (parseNumber text : Option R) with
    | some x => !(x == 0)
    | none => false
  | .error _ => false

/-- The expression that there is in the result: none for a condition and a definition, and none if
a directive is invalid or nothing is left. -/
def output? (a : Active) : Option Expression :=
  match a.expression.role, a.expansion R with
  | .plain _, .ok text =>
    if (Text.trim text).isEmpty then none
    else some { a.expression with text := String.ofList (Text.trim text) }
  | _, _ => none

/-- The problem with the expression. -/
def problem? (a : Active) : Option Problem :=
  match a.expression.role, a.expansion R with
  | _, .error (.invalid p) => some p
  | _, .error (.fatal _) => none
  | .condition _, .ok text =>
    if (parseNumber text : Option R).isSome then none
    else some (.conditionNotNumber (String.ofList text))
  | .definition index _, .ok _ =>
    if (definedIndex? R index).isSome then none
    else some (.badSubstitutionIndex (String.ofList index))
  | .plain _, .ok _ => none

/-- The message about the expression. -/
def message? (a : Active) : Option Message :=
  (a.problem? R).map (⟨·, a.expression.location⟩)

/-- The dictionary behind the expression. -/
def behind (a : Active) : Dictionary :=
  let d := (expandText R a.expression.role.subject a.dictionary).2
  match a.expression.role, a.expansion R with
  | .definition index _, .ok value =>
    match definedIndex? R index with
    | some n => { d with substitutions := d.substitutions.insert n value }
    | none => d
  | _, _ => d

/-- The fault of structure that is met in the expression. -/
def fault? (a : Active) : Option StructureError :=
  match a.expansion R with
  | .error (.fatal fault) => some ⟨fault, a.expression.location⟩
  | _ => none

theorem fault?_eq_none_iff (a : Active) :
    a.fault? R = none ↔ ¬ ReachesUnclosed R a.expression.role.subject a.dictionary := by
  rw [← exists_fatal_iff, fault?, expansion]
  rcases (expandText R a.expression.role.subject a.dictionary).1 with (p | fault) | text <;> simp

/-- The session behind the expression. -/
def after (a : Active) (messages : Array Message) : Session :=
  ⟨a.behind R, messages ++ (a.message? R).toArray⟩

/-- Reads the expression behind what there is of the result. -/
def read (output : Array Expression) (a : Active) : Expansion (Array Expression) := fun s =>
  match a.fault? R with
  | some error => .error error (a.after R s.messages)
  | none => .ok (output ++ (a.output? R).toArray) (a.after R s.messages)

end Active

/-! ## Steps -/

namespace Expansion

variable {α : Type} (s : Session)

@[simp]
theorem pure_apply (a : α) : (pure a : Expansion α) s = .ok a s := rfl

@[simp]
theorem get_apply : (get : Expansion Session) s = .ok s s := rfl

@[simp]
theorem set_apply (s' : Session) : (set s' : Expansion PUnit) s = .ok ⟨⟩ s' := rfl

@[simp]
theorem modify_apply (f : Session → Session) :
    (modify f : Expansion PUnit) s = .ok ⟨⟩ (f s) := rfl

@[simp]
theorem noteProblem_apply (e : Expression) (p : Problem) :
    noteProblem e p s = .ok ⟨⟩ { s with messages := s.messages.push ⟨p, e.location⟩ } := rfl

@[simp]
theorem throw_apply (error : StructureError) : (throw error : Expansion α) s = .error error s := rfl

@[simp]
theorem map_apply {β : Type} (f : α → β) (x : Expansion α) :
    (f <$> x) s = match x s with
      | .ok a s' => .ok (f a) s'
      | .error error s' => .error error s' := by
  rw [map_eq_pure_bind, bind_apply]
  cases x s <;> rfl

section Bind

variable {s} {β : Type}

/-- Steps that come to the same in a session can stand for each other in front of others. -/
theorem bind_congr_left {x y : Expansion α} (h : x s = y s) (f : α → Expansion β) :
    (x >>= f) s = (y >>= f) s := by
  rw [bind_apply, bind_apply, h]

/-- What follows may be other steps that come to the same where it begins. -/
theorem bind_congr_right {x : Expansion α} {f g : α → Expansion β}
    (h : ∀ a s', x s = .ok a s' → f a s' = g a s') : (x >>= f) s = (x >>= g) s := by
  rw [bind_apply, bind_apply]
  cases hx : x s with
  | error error s' => rfl
  | ok a s' => exact h a s' hx

end Bind

end Expansion

section Steps

variable (e : Expression) (s : Session)

theorem tryText_apply (cs : List Char) : tryText R e cs s =
    match expandText R cs s.dictionary with
    | (.ok text, d) => .ok (.ok text) ⟨d, s.messages⟩
    | (.error (.invalid p), d) => .ok (.error p) ⟨d, s.messages⟩
    | (.error (.fatal fault), d) => .error ⟨fault, e.location⟩ ⟨d, s.messages⟩ := by
  rcases h : expandText R cs s.dictionary with ⟨(p | fault) | text, d⟩ <;>
    simp [tryText, Expansion.bind_apply, h]

theorem textOf?_apply (cs : List Char) : textOf? R e cs s =
    match expandText R cs s.dictionary with
    | (.ok text, d) => .ok (some text) ⟨d, s.messages⟩
    | (.error (.invalid p), d) => .ok none ⟨d, s.messages.push ⟨p, e.location⟩⟩
    | (.error (.fatal fault), d) => .error ⟨fault, e.location⟩ ⟨d, s.messages⟩ := by
  rw [textOf?, Expansion.bind_apply, tryText_apply]
  rcases expandText R cs s.dictionary with ⟨(p | fault) | text, d⟩ <;> rfl

theorem conditionHolds_apply {inside : List Char} (role : e.role = .condition inside) :
    conditionHolds R e inside s =
      match Active.fault? R ⟨e, s.dictionary⟩ with
      | some error => .error error (Active.after R ⟨e, s.dictionary⟩ s.messages)
      | none => .ok (Active.holds R ⟨e, s.dictionary⟩)
          (Active.after R ⟨e, s.dictionary⟩ s.messages) := by
  simp only [conditionHolds, Expansion.bind_apply, textOf?_apply, Active.fault?, Active.after,
    Active.behind, Active.holds, Active.message?, Active.problem?, Active.expansion, role,
    Role.subject]
  rcases expandText R inside s.dictionary with ⟨(p | fault) | text, d⟩
  · simp
  · simp
  · cases hx : (parseNumber text : Option R) <;> simp [hx, Expansion.bind_apply]

theorem defineSubstitution_apply {index value : List Char} (role : e.role = .definition index value)
    (plain : Text.IsPlain index) :
    defineSubstitution R e index value s =
      match Active.fault? R ⟨e, s.dictionary⟩ with
      | some error => .error error (Active.after R ⟨e, s.dictionary⟩ s.messages)
      | none => .ok ⟨⟩ (Active.after R ⟨e, s.dictionary⟩ s.messages) := by
  simp only [defineSubstitution, Expansion.bind_apply, tryText_apply, Active.fault?, Active.after,
    Active.behind, Active.message?, Active.problem?, Active.expansion, role, Role.subject,
    expandText_of_absent R (scanInline_of_isPlain plain)]
  rcases expandText R value s.dictionary with ⟨(p | fault) | text, d⟩
  · simp
  · simp
  · cases hn : parseInt R index with
    | none => simp [definedIndex?, hn]
    | some n => by_cases h0 : 0 ≤ n <;> simp [definedIndex?, hn, h0, Option.filter]

variable {R} (includeFile : Expression → List Char → Expansion (List Expression))
  (branches : List Branch) (output : Array Expression) {e}

variable (R) in
/-- An expression that is no block directive is read if it is active. -/
theorem expandOne_row (row : e.block = .absent) :
    expandOne R includeFile ⟨branches, output⟩ e s =
      (Layout.mk branches <$>
        if isActive branches then Active.read R output ⟨e, s.dictionary⟩ else pure output) s := by
  have scan : scanBlock (Text.trim e.text.toList) = .absent := row
  unfold expandOne
  simp only [scan]
  cases isActive branches with
  | false => simp
  | true =>
    cases hd : definition? (Text.trim e.text.toList) with
    | some x =>
      obtain ⟨index, value⟩ := x
      have role : e.role = .definition index value := by simp [Expression.role, row, hd]
      have define := defineSubstitution_apply R e s role (isPlain_of_definition? hd)
      have none : Active.output? R ⟨e, s.dictionary⟩ = none := by simp [Active.output?, role]
      cases hf : Active.fault? R ⟨e, s.dictionary⟩ <;>
        simp [Expansion.bind_apply, define, Active.read, none, hf]
    | none =>
      have role : e.role = .plain (Text.trim e.text.toList) := by simp [Expression.role, row, hd]
      simp only [Bool.not_true, Bool.false_eq_true, if_false, if_true, Expansion.bind_apply,
        Expansion.map_apply, textOf?_apply, Active.read, Active.output?, Active.fault?,
        Active.after, Active.expansion, Active.behind, Active.message?, Active.problem?, role,
        Role.subject]
      rcases expandText R (Text.trim e.text.toList) s.dictionary with ⟨(p | fault) | text, d⟩
      · simp
      · simp
      · by_cases ht : Text.trim text = [] <;> simp [ht]

variable (R) in
theorem expandOne_openIf {inside : List Char} (opens : e.block = .found .openIf inside)
    (active : isActive branches) :
    expandOne R includeFile ⟨branches, output⟩ e s =
      (Layout.mk (⟨e.location, true, Active.holds R ⟨e, s.dictionary⟩,
        Active.holds R ⟨e, s.dictionary⟩, false⟩ :: branches) <$>
          Active.read R output ⟨e, s.dictionary⟩) s := by
  have scan : scanBlock (Text.trim e.text.toList) = .found .openIf inside := opens
  have role : e.role = .condition inside := by simp [Expression.role, opens]
  have none : Active.output? R ⟨e, s.dictionary⟩ = none := by simp [Active.output?, role]
  cases hf : Active.fault? R ⟨e, s.dictionary⟩ <;>
    simp [expandOne, scan, expandBlock, active, conditionHolds_apply R e s role, Active.read, none,
      hf]

theorem expandOne_openIf_of_inactive {inside : List Char}
    (opens : e.block = .found .openIf inside) (inactive : isActive branches = false) :
    expandOne R includeFile ⟨branches, output⟩ e =
      pure ⟨⟨e.location, false, false, false, false⟩ :: branches, output⟩ := by
  have scan : scanBlock (Text.trim e.text.toList) = .found .openIf inside := opens
  simp [expandOne, scan, expandBlock, inactive]

theorem expandOne_openElse {inside : List Char} (turns : e.block = .found .openElse inside)
    {b : Branch} (first : b.seenElse = false) :
    expandOne R includeFile ⟨b :: branches, output⟩ e =
      pure ⟨{ b with seenElse := true, active := b.parentActive && !b.taken } :: branches,
        output⟩ := by
  have scan : scanBlock (Text.trim e.text.toList) = .found .openElse inside := turns
  simp [expandOne, scan, expandBlock, first]

theorem expandOne_closeIf {inside : List Char} (closes : e.block = .found .closeIf inside)
    (b : Branch) :
    expandOne R includeFile ⟨b :: branches, output⟩ e = pure ⟨branches, output⟩ := by
  have scan : scanBlock (Text.trim e.text.toList) = .found .closeIf inside := closes
  simp [expandOne, scan, expandBlock]

end Steps

end RailRoute.Source
