import Mathlib
import RailRoute.Proofs.Source.Reading

/-!
# Texts alone

Without random numbers and includes, what an expansion comes to depends on the texts of the
expressions and on the substitutions. Where the expressions stand, what is noted and how far the
random draws have come make no difference. Main statement: `foldlM_expandOne_alike`.
-/

namespace RailRoute.Source

open Text

/-! ## Expansions alike -/

/-- Whether two results are the same fault of structure, or values in a relation and the same
substitutions. -/
def SameOutcome {α β : Type} (rel : α → β → Prop) :
    EStateM.Result StructureError Session α → EStateM.Result StructureError Session β → Prop
  | .ok a s, .ok b s' => rel a b ∧ s.dictionary.substitutions = s'.dictionary.substitutions
  | .error error _, .error error' _ => error.fault = error'.fault
  | _, _ => False

/-- Whether two expansions come to the same wherever the same substitutions are in force. -/
def Alike {α β : Type} (rel : α → β → Prop) (x : Expansion α) (y : Expansion β) : Prop :=
  ∀ s s', s.dictionary.substitutions = s'.dictionary.substitutions → SameOutcome rel (x s) (y s')

section Alike

variable {α β γ δ : Type} {rel : α → β → Prop} {rel' : γ → δ → Prop}

theorem SameOutcome.bind {x : Expansion α} {y : Expansion β} {f : α → Expansion γ}
    {g : β → Expansion δ} {s s' : Session} (first : SameOutcome rel (x s) (y s'))
    (behind : ∀ a b, rel a b → Alike rel' (f a) (g b)) :
    SameOutcome rel' ((x >>= f) s) ((y >>= g) s') := by
  rw [Expansion.bind_apply, Expansion.bind_apply]
  cases hx : x s <;> cases hy : y s' <;> rw [hx, hy] at first
  · exact behind _ _ first.1 _ _ first.2
  · exact first.elim
  · exact first.elim
  · exact first

namespace Alike

theorem bind {x : Expansion α} {y : Expansion β} {f : α → Expansion γ} {g : β → Expansion δ}
    (first : Alike rel x y) (behind : ∀ a b, rel a b → Alike rel' (f a) (g b)) :
    Alike rel' (x >>= f) (y >>= g) :=
  fun s s' h => (first s s' h).bind behind

theorem pure {a : α} {b : β} (h : rel a b) : Alike rel (pure a) (pure b) :=
  fun _ _ same => ⟨h, same⟩

theorem throw (fault : StructureFault) (location location' : Location) :
    Alike rel (throw ⟨fault, location⟩) (throw ⟨fault, location'⟩) :=
  fun _ _ _ => rfl

theorem noteProblem (e e' : Expression) (p p' : Problem) :
    Alike Eq (noteProblem e p) (noteProblem e' p') :=
  fun _ _ same => ⟨rfl, same⟩

theorem modify {f g : Session → Session}
    (h : ∀ s s', s.dictionary.substitutions = s'.dictionary.substitutions →
      (f s).dictionary.substitutions = (g s').dictionary.substitutions) :
    Alike Eq (modify f : Expansion PUnit) (modify g) :=
  fun s s' same => ⟨rfl, h s s' same⟩

end Alike

end Alike

/-! ## Texts -/

section Texts

variable (R : Type) [Scalar R] (e e' : Expression)

theorem tryText_alike {cs : List Char} (h : IsDrawless cs) :
    Alike Eq (tryText R e cs) (tryText R e' cs) := by
  rintro ⟨⟨g, d⟩, messages⟩ ⟨⟨g', d'⟩, messages'⟩ (rfl : d = d')
  obtain ⟨x, hx⟩ := expandText_of_drawless R h d
  rw [tryText_apply, tryText_apply, hx, hx]
  rcases x with (p | fault) | text
  · exact ⟨rfl, rfl⟩
  · exact rfl
  · exact ⟨rfl, rfl⟩

theorem textOf?_alike {cs : List Char} (h : IsDrawless cs) :
    Alike Eq (textOf? R e cs) (textOf? R e' cs) := by
  refine (tryText_alike R e e' h).bind ?_
  rintro (p | text) _ rfl
  · exact (Alike.noteProblem e e' p p).bind fun _ _ _ => .pure rfl
  · exact .pure rfl

theorem conditionHolds_alike {inside : List Char} (h : IsDrawless inside) :
    Alike Eq (conditionHolds R e inside) (conditionHolds R e' inside) := by
  refine (textOf?_alike R e e' h).bind ?_
  rintro (_ | text) _ rfl
  · exact .pure rfl
  · cases hx : (parseNumber text : Option R) with
    | some x => simpa only [hx] using .pure rfl
    | none =>
      simp only [hx]
      exact (Alike.noteProblem e e' _ _).bind fun _ _ _ => .pure rfl

theorem defineSubstitution_alike {index value : List Char} (hi : IsDrawless index)
    (hv : IsDrawless value) :
    Alike Eq (defineSubstitution R e index value) (defineSubstitution R e' index value) := by
  refine (tryText_alike R e e' hi).bind ?_
  rintro i _ rfl
  refine (tryText_alike R e e' hv).bind ?_
  rintro v _ rfl
  rcases i with p | index
  · exact .noteProblem e e' p p
  · rcases v with p | value
    · exact .noteProblem e e' p p
    · cases hn : parseInt R index with
      | none =>
        simp only [hn]
        exact .noteProblem e e' _ _
      | some n =>
        simp only [hn]
        by_cases h0 : 0 ≤ n
        · simp only [if_pos h0]
          exact .modify fun s s' same => congrArg (·.insert n value) same
        · simp only [if_neg h0]
          exact .noteProblem e e' _ _

end Texts

/-! ## Layouts -/

/-- Whether two conditions differ in their places at most. -/
structure SameBranch (b b' : Branch) : Prop where
  parentActive : b.parentActive = b'.parentActive
  taken : b.taken = b'.taken
  active : b.active = b'.active
  seenElse : b.seenElse = b'.seenElse

/-- Whether two layouts have the same conditions open and the same texts. -/
structure SameLayout (l l' : Layout) : Prop where
  branches : List.Forall₂ SameBranch l.branches l'.branches
  output : l.output.toList.map (·.text) = l'.output.toList.map (·.text)

theorem SameLayout.refl (l : Layout) : SameLayout l l :=
  ⟨List.forall₂_same.2 fun _ _ => ⟨rfl, rfl, rfl, rfl⟩, rfl⟩

theorem isActive_eq_of_forall₂ {branches branches' : List Branch}
    (h : List.Forall₂ SameBranch branches branches') : isActive branches = isActive branches' := by
  cases h with
  | nil => rfl
  | cons first _ => exact first.active

section Layouts

variable (R : Type) [Scalar R]
  {includeFile includeFile' : Expression → List Char → Expansion (List Expression)}
  {e e' : Expression} {l l' : Layout} (same : SameLayout l l')

include same

theorem expandBlock_alike {name : BlockName} (noInclude : name ≠ .includeFile) {inside : List Char}
    (h : IsDrawless inside) :
    Alike SameLayout (expandBlock R includeFile e name inside l)
      (expandBlock R includeFile' e' name inside l') := by
  obtain ⟨branches, output⟩ := l
  obtain ⟨branches', output'⟩ := l'
  have hb : List.Forall₂ SameBranch branches branches' := same.branches
  have active := isActive_eq_of_forall₂ hb
  unfold expandBlock
  cases name with
  | openIf =>
    simp only [active]
    cases isActive branches' with
    | false => exact .pure ⟨.cons ⟨rfl, rfl, rfl, rfl⟩ hb, same.output⟩
    | true =>
      refine (conditionHolds_alike R e e' h).bind ?_
      rintro holds _ rfl
      exact .pure ⟨.cons ⟨rfl, rfl, rfl, rfl⟩ hb, same.output⟩
  | openElse =>
    cases hb with
    | nil => exact Alike.throw _ _ _
    | @cons b b' rest rest' first others =>
      simp only [first.seenElse]
      cases b'.seenElse with
      | true => exact Alike.throw _ _ _
      | false =>
        exact .pure ⟨.cons ⟨first.parentActive, first.taken,
          by rw [first.parentActive, first.taken], rfl⟩ others, same.output⟩
  | closeIf =>
    cases hb with
    | nil => exact Alike.throw _ _ _
    | cons first others => exact .pure ⟨others, same.output⟩
  | includeFile => exact absurd rfl noInclude

theorem expandOne_alike (text : e.text = e'.text) (noInclude : ¬ e.isInclude)
    (h : IsDrawless e.text.toList) :
    Alike SameLayout (expandOne R includeFile l e) (expandOne R includeFile' l' e') := by
  have trimmed : IsDrawless (trim e.text.toList) := h.of_isInfix (trim_isInfix _)
  unfold expandOne
  rw [← text, isActive_eq_of_forall₂ same.branches]
  dsimp only
  cases hb : scanBlock (trim e.text.toList) with
  | unclosed written => exact Alike.throw _ _ _
  | found name inside =>
    refine expandBlock_alike R same ?_ ?_
    · rintro rfl
      exact noInclude (by simp [Expression.isInclude, Expression.block, hb])
    · exact trimmed.of_isInfix (infix_of_scanBlock hb)
  | absent =>
    dsimp only
    cases isActive l'.branches with
    | false => exact .pure same
    | true =>
      cases hd : definition? (trim e.text.toList) with
      | some x =>
        obtain ⟨index, value⟩ := x
        obtain ⟨hindex, hvalue⟩ := infix_of_definition? hd
        exact (defineSubstitution_alike R e e' (trimmed.of_isInfix hindex)
          (trimmed.of_isInfix hvalue)).bind fun _ _ _ => .pure same
      | none =>
        refine (textOf?_alike R e e' trimmed).bind ?_
        rintro (_ | text) _ rfl
        · exact .pure same
        · dsimp only
          split_ifs
          · exact .pure same
          · exact .pure ⟨same.branches, by simp [same.output]⟩

theorem foldlM_expandOne_alike {es es' : List Expression}
    (texts : List.Forall₂ (fun e e' => e.text = e'.text) es es')
    (steady : ∀ e ∈ es, ¬ e.isInclude ∧ IsDrawless e.text.toList) :
    Alike SameLayout (es.foldlM (expandOne R includeFile) l)
      (es'.foldlM (expandOne R includeFile') l') := by
  induction texts generalizing l l' with
  | nil => exact .pure same
  | cons text _ ih =>
    obtain ⟨⟨noInclude, drawless⟩, others⟩ := List.forall_mem_cons.1 steady
    exact (expandOne_alike R same text noInclude drawless).bind fun _ _ same => ih same others

end Layouts

end RailRoute.Source
