import Mathlib
import RailRoute.Proofs.Arithmetic
import RailRoute.Proofs.Command.Spelling
import RailRoute.Proofs.Source.Numeral
import RailRoute.Proofs.Source.Reading
import RailRoute.Proofs.Source.Template

/-!
# Substitutions

A definition and a use with the same index are recognized differently. In the index of a definition
there are no parentheses and so no directives, and any text will do that begins with a number; a use
replaces the directives of its index, which then is a whole number. Main statements:
`expandOne_definition` and `expandOne_use`, the two steps; `foldlM_expandOne_keeps`, that a number
keeps its text as long as it is not defined again; `defined_substitution`, when a definition can be
used.
-/

namespace RailRoute

namespace Text

theorem trimEnd_trimEnd (cs : List Char) : trimEnd (trimEnd cs) = trimEnd cs :=
  List.rdropWhile_idempotent isBlank cs

/-- The blank ahead of a value makes no difference. -/
theorem trimEnd_blank_cons (value : List Char) : trim (trimEnd (' ' :: value)) = trim value ∧
    ('\n' ∈ trimEnd (' ' :: value) ↔ '\n' ∈ trimEnd value) := by
  by_cases blank : ∀ c ∈ value, isBlank c
  · have behind : trimEnd (' ' :: value) = [] := trimEnd_append_of_isBlank (x := [' ']) blank
    have alone : trimEnd value = [] := trimEnd_append_of_isBlank (x := []) blank
    rw [behind, alone, trim_eq_nil_iff.2 blank]
    exact ⟨rfl, Iff.rfl⟩
  · obtain ⟨c, hmem, hc⟩ : ∃ c ∈ value, ¬ isBlank c := by simpa using blank
    obtain ⟨x, y, rfl⟩ := List.append_of_mem hmem
    have start : trimStart (' ' :: x) = trimStart x := rfl
    rw [← List.cons_append, trimEnd_append_cons hc, trimEnd_append_cons hc, trim_append_cons hc,
      trim_append_cons hc, trimEnd_trimEnd, start]
    simp

end Text

namespace Source

open Text

/-! ## Recognizing -/

/-- A substitution as it is written, with what stands behind it. -/
def callText (index rest : List Char) : List Char := grouped ['$', 'S', 'u', 'b'] index rest

/-- A definition as it is written. -/
def definitionText (index value : List Char) : List Char :=
  callText index (' ' :: '=' :: ' ' :: value)

/-- A use as it is written. -/
def useText (index : List Char) : List Char := callText index []

section Recognizing

variable {index : List Char} (rest : List Char)

theorem scanBlock_callText : scanBlock (callText index rest) = .absent := rfl

theorem trim_callText : trim (callText index rest) = callText index (trimEnd rest) := by
  rw [callText, trim_grouped]
  rfl

theorem directiveHead?_callText :
    directiveHead? ["sub"] (callText index rest) = some (['S', 'u', 'b'], index ++ ')' :: rest) :=
  have spelled : List.Forall₂ (fun letter c => foldsTo letter c) "sub".toList ['S', 'u', 'b'] := by
    decide
  directiveHead?_of_spelled spelled (List.forall_mem_nil _) _

/-- The first parenthesis of an index with parentheses opens a group. -/
theorem dropWhile_of_not_isPlain (balanced : IsBalanced index) (nested : ¬ IsPlain index) :
    ∃ r, index.dropWhile (!isParenthesis ·) = '(' :: r := by
  have split := List.takeWhile_append_dropWhile (p := (!isParenthesis ·)) (l := index)
  have before : ∀ c ∈ index.takeWhile (!isParenthesis ·), c ≠ '(' ∧ c ≠ ')' := fun c hc => by
    simpa [isParenthesis] using List.mem_takeWhile_imp hc
  cases hdrop : index.dropWhile (!isParenthesis ·) with
  | nil =>
    rw [hdrop, List.append_nil] at split
    exact absurd (split ▸ before) nested
  | cons c r =>
    have parenthesis : isParenthesis c := by
      have := List.head_dropWhile_not (!isParenthesis ·) (l := index) (by simp [hdrop])
      simpa [hdrop] using this
    rcases (by simpa [isParenthesis] using parenthesis : c = '(' ∨ c = ')') with rfl | rfl
    · exact ⟨r, rfl⟩
    · rw [hdrop] at split
      have opened := balanced.opened (index.takeWhile (!isParenthesis ·) ++ [')']) ⟨r, by simpa⟩
      have none : (index.takeWhile (!isParenthesis ·)).count '(' = 0 :=
        List.count_eq_zero.2 fun h => (before _ h).1 rfl
      simp [none] at opened

/-- The index of a definition has no groups in it, and its value no line feeds. -/
theorem definition?_callText (balanced : IsBalanced index) : definition? (callText index rest) =
    if IsPlain index then
      match trimStart rest with
      | '=' :: value => if value.contains '\n' then none else some (index, trim value)
      | _ => none
    else none := by
  rw [definition?, directiveHead?_callText]
  by_cases plain : IsPlain index
  · have inside : ∀ c ∈ index, !isParenthesis c := fun c hc => by
      simpa [isParenthesis] using plain c hc
    have dropped : (index ++ ')' :: rest).dropWhile (!isParenthesis ·) = ')' :: rest := by
      rw [List.dropWhile_append_of_pos inside]
      rfl
    have taken : (index ++ ')' :: rest).takeWhile (!isParenthesis ·) = index := by
      rw [List.takeWhile_append_of_pos inside]
      simp [isParenthesis]
    simp only [dropped, taken]
    exact (if_pos plain).symm
  · obtain ⟨r, hr⟩ := dropWhile_of_not_isPlain balanced plain
    simp [List.dropWhile_append, hr, plain]

theorem definition?_useText (balanced : IsBalanced index) : definition? (useText index) = none := by
  rw [useText, definition?_callText [] balanced]
  exact ite_self _

theorem definition?_definitionText (balanced : IsBalanced index) (value : List Char) :
    definition? (trim (definitionText index value)) =
      if IsPlain index ∧ '\n' ∉ trimEnd value then some (index, trim value) else none := by
  obtain ⟨trimmed, feeds⟩ := trimEnd_blank_cons value
  have assigned : trimEnd ([' '] ++ '=' :: ' ' :: value) = ' ' :: '=' :: trimEnd (' ' :: value) :=
    trimEnd_append_cons (by decide) _
  have whole : trim (definitionText index value) =
      callText index (' ' :: '=' :: trimEnd (' ' :: value)) :=
    (trim_callText _).trans (congrArg (callText index) assigned)
  have start : trimStart (' ' :: '=' :: trimEnd (' ' :: value)) =
      '=' :: trimEnd (' ' :: value) := rfl
  rw [whole, definition?_callText _ balanced, start]
  by_cases plain : IsPlain index <;> by_cases feed : '\n' ∈ trimEnd value <;>
    simp [plain, feed, feeds, trimmed]

theorem scanInline_callText (balanced : IsBalanced index) :
    scanInline (callText index rest) = .found [] ['S', 'u', 'b'] index rest := by
  have spelled : InlineName.substitution.IsSpelled ['S', 'u', 'b'] := by decide
  have head : directiveHead? ["chr", "rnd", "sub"] ('$' :: 'S' :: 'u' :: 'b' :: '(' ::
      (index ++ ')' :: rest)) = some (['S', 'u', 'b'], index ++ ')' :: rest) :=
    spelled.directiveHead?_eq (List.forall_mem_nil _) _
  have found : findInline? (callText index rest) =
      some ([], ['S', 'u', 'b'], index ++ ')' :: rest) := by
    change findInline? ('$' :: 'S' :: 'u' :: 'b' :: '(' :: (index ++ ')' :: rest)) = _
    rw [findInline?, head]
  rw [scanInline, found]
  simp only [balanced.closeGroup? rest]

end Recognizing

/-! ## Texts without directives -/

theorem findInline?_append_ne_none (front : List Char) {head : List Char}
    {x : List Char × List Char} (h : directiveHead? ["chr", "rnd", "sub"] head = some x) :
    findInline? (front ++ head) ≠ none := by
  induction front with
  | nil =>
    obtain ⟨_, -, -, _, rfl, -⟩ := directiveHead?_eq_some h
    rw [List.nil_append, findInline?, h]
    exact Option.some_ne_none _
  | cons c front ih =>
    rw [List.cons_append, findInline?]
    split
    · exact Option.some_ne_none _
    · simpa using ih

theorem exists_isSpelled {w : String} (hw : w ∈ ["chr", "rnd", "sub"]) {spelling : List Char}
    (h : List.Forall₂ (fun letter c => foldsTo letter c) w.toList spelling) :
    ∃ name : InlineName, name.IsSpelled spelling := by
  simp only [List.mem_cons, List.not_mem_nil, or_false] at hw
  rcases hw with rfl | rfl | rfl
  · exact ⟨.character, h⟩
  · exact ⟨.random, h⟩
  · exact ⟨.substitution, h⟩

/-- In a part of a text without directives there are none. -/
theorem scanInline_of_isInfix {cs xs : List Char} (h : scanInline cs = .absent) (hx : xs <:+: cs) :
    scanInline xs = .absent := by
  obtain ⟨front, back, rfl⟩ := hx
  cases hfind : findInline? xs with
  | none => rw [scanInline, hfind]
  | some x =>
    obtain ⟨before, written, after⟩ := x
    obtain ⟨head, rfl, hhead⟩ := findInline?_eq_some hfind
    obtain ⟨w, hw, spelled, gap, rfl, blank⟩ := directiveHead?_eq_some hhead
    obtain ⟨name, spelled⟩ := exists_isSpelled hw spelled
    have longer := findInline?_append_ne_none (front ++ before)
      (spelled.directiveHead?_eq blank (after ++ back))
    have none : findInline?
        (front ++ (before ++ '$' :: (written ++ (gap ++ '(' :: after))) ++ back) = .none := by
      unfold scanInline at h
      split at h
      · assumption
      · split at h <;> cases h
    simp_all

/-! ## Steps -/

/-- The layout behind an expression that comes to a text. -/
def Layout.emit (l : Layout) (e : Expression) (text : List Char) : Layout :=
  if text.isEmpty then l
  else { l with output := l.output.push { e with text := String.ofList text } }

/-- The session in which a number has been given a text. -/
def Session.define (s : Session) (n : Int) (text : List Char) : Session :=
  { s with dictionary :=
    { s.dictionary with substitutions := s.dictionary.substitutions.insert n text } }

variable {R : Type} [Scalar R] {includeFile : Expression → List Char → Expansion (List Expression)}
  {index value : List Char} {e : Expression} {l : Layout}

theorem block_of_callText {rest : List Char} (h : e.text.toList = callText index rest) :
    e.block = .absent := by
  rw [Expression.block, h, trim_callText, scanBlock_callText]

/-- A definition that is recognized puts nothing in the result. -/
theorem expandOne_definition (row : e.block = .absent)
    (recognized : definition? (trim e.text.toList) = some (index, value))
    (verbatim : scanInline value = .absent) (active : isActive l.branches) (s : Session) :
    expandOne R includeFile l e s =
      match definedIndex? R index with
      | some n => .ok l (s.define n value)
      | none => .ok l ⟨s.dictionary,
          s.messages.push ⟨.badSubstitutionIndex (String.ofList index), e.location⟩⟩ := by
  obtain ⟨branches, output⟩ := l
  have role : e.role = .definition index value := by simp [Expression.role, row, recognized]
  rw [expandOne_row R s includeFile branches output row, if_pos active]
  cases hn : definedIndex? R index <;>
    simp [Active.read, Active.fault?, Active.after, Active.behind, Active.output?, Active.message?,
      Active.problem?, Active.expansion, role, Role.subject, expandText_of_absent R verbatim, hn,
      Session.define]

theorem equals_mem_of_expandText (balanced : IsBalanced index) {text : List Char}
    {d d' : Dictionary}
    (h : expandText R (callText index (' ' :: '=' :: value)) d = (.ok text, d')) : '=' ∈ text := by
  rw [expandText_of_found R (scanInline_callText _ balanced)] at h
  rcases he : expandText R index d with ⟨_ | argument, d₁⟩ <;> simp only [he] at h
  · cases h
  · rcases hv : evaluate R (.ofWritten ['S', 'u', 'b']) argument d₁ with ⟨_ | result, d₂⟩ <;>
      simp only [hv] at h
    · cases h
    · have plain : '$' ∉ [' ', '='] := by decide
      have behind := expandText_append plain value R d₂
      rw [List.cons_append, List.cons_append, List.nil_append] at behind
      rcases ht : expandText R value d₂ with ⟨_ | tail, d₃⟩ <;> simp only [behind, ht] at h
      · cases h
      · obtain ⟨rfl, -⟩ := by simpa using h
        simp

/-- A definition that is not recognized is read as a use with a text behind it: it is in the result,
or there is a message. -/
theorem expandOne_ne_of_unrecognized (balanced : IsBalanced index)
    (h : e.text.toList = definitionText index value)
    (unrecognized : definition? (trim e.text.toList) = none) (active : isActive l.branches)
    (s : Session) (d : Dictionary) : expandOne R includeFile l e s ≠ .ok l ⟨d, s.messages⟩ := by
  obtain ⟨branches, output⟩ := l
  have row : e.block = .absent := block_of_callText h
  have role : e.role = .plain (trim e.text.toList) := by simp [Expression.role, row, unrecognized]
  have written : ∃ v, trim e.text.toList = callText index (' ' :: '=' :: v) := by
    rw [h, definitionText, trim_callText]
    exact ⟨_, congrArg (callText index) (trimEnd_append_cons (x := [' ']) (by decide) _)⟩
  obtain ⟨v, hv⟩ := written
  rw [expandOne_row R s includeFile branches output row, if_pos active, Expansion.map_apply,
    Active.read]
  rcases hx : expandText R (callText index (' ' :: '=' :: v)) s.dictionary with
    ⟨(p | fault) | text, d₁⟩
  · simp [Active.fault?, Active.after, Active.message?, Active.problem?, Active.expansion, role,
      Role.subject, hv, hx]
  · simp [Active.fault?, Active.expansion, role, Role.subject, hv, hx]
  · have solid : trim text ≠ [] := fun blank =>
      absurd (trim_eq_nil_iff.1 blank '=' (equals_mem_of_expandText balanced hx)) (by decide)
    simp [Active.fault?, Active.output?, Active.expansion, role, Role.subject, hv, hx, solid]

/-- What a use comes to is told by the text that its number has. -/
theorem expandOne_use (plain : IsPlain index) (uses : e.text.toList = useText index)
    (active : isActive l.branches) (s : Session) : expandOne R includeFile l e s =
      match wholeNumber? R index with
      | some n =>
        match s.dictionary.substitutions[n]? with
        | some text => .ok (l.emit e (trim text)) s
        | none => .ok l ⟨s.dictionary,
            s.messages.push ⟨.undefinedSubstitution (String.ofList index), e.location⟩⟩
      | none => .ok l ⟨s.dictionary,
          s.messages.push ⟨.badSubstitutionIndex (String.ofList index), e.location⟩⟩ := by
  obtain ⟨branches, output⟩ := l
  have balanced := isBalanced_of_isPlain plain
  have row : e.block = .absent := block_of_callText uses
  have whole : trim e.text.toList = useText index := by rw [uses, useText, trim_callText]; rfl
  have role : e.role = .plain (useText index) := by
    simp [Expression.role, row, whole, definition?_useText balanced]
  have called : InlineName.ofWritten ['S', 'u', 'b'] = .substitution := by decide
  have expanded := expandText_of_found R (scanInline_callText [] balanced) s.dictionary
  rw [expandText_of_absent R (scanInline_of_isPlain plain), called] at expanded
  rw [expandOne_row R s includeFile branches output row, if_pos active, Expansion.map_apply,
    Active.read]
  simp only [Active.fault?, Active.after, Active.behind, Active.output?, Active.message?,
    Active.problem?, Active.expansion, role, Role.subject, useText, expanded]
  cases hn : wholeNumber? R index with
  | none => simp [evaluate, hn]
  | some n =>
    cases ht : s.dictionary.substitutions[n]? with
    | none => simp [evaluate, hn, ht]
    | some text =>
      have nothing : expandText R [] s.dictionary = (.ok [], s.dictionary) :=
        expandText_of_absent R rfl _
      by_cases blank : trim text = [] <;> simp [evaluate, hn, ht, nothing, blank, Layout.emit]

/-! ## Numbers -/

/-- The number of a definition whose index is a whole number. -/
theorem definedIndex?_eq_some_iff {n m : Int} (h : wholeNumber? R index = some n) :
    definedIndex? R index = some m ↔ m = n ∧ 0 ≤ n ∧
      ∃ x : R, parseNumber index = some x ∧ Scalar.abs x < Scalar.ofDecimal ⟨false, 9, 18⟩ := by
  unfold wholeNumber? at h
  cases hx : (parseNumber index : Option R) with
  | none => simp [hx] at h
  | some x =>
    simp only [hx] at h
    split_ifs at h
    obtain rfl := Option.some.inj h
    by_cases small : Scalar.abs x < Scalar.ofDecimal ⟨false, 9, 18⟩
    · simp only [definedIndex?, parseInt, parseLenient_of_parseNumber hx, small, if_true,
        Option.filter_eq_some_iff]
      constructor
      · rintro ⟨heq, nonneg⟩
        obtain rfl := Option.some.inj heq
        exact ⟨rfl, of_decide_eq_true nonneg, x, rfl, small⟩
      · rintro ⟨rfl, nonneg, -⟩
        exact ⟨rfl, decide_eq_true nonneg⟩
    · simp [definedIndex?, parseInt, parseLenient_of_parseNumber hx, small]

/-! ## Keeping a text -/

/-- Whether steps leave a number the text it has. -/
def Expansion.Keeps {α : Type} (n : Int) (x : Expansion α) : Prop :=
  ∀ s a s', x s = .ok a s' → s'.dictionary.substitutions[n]? = s.dictionary.substitutions[n]?

/-- Whether an expression defines a number. -/
def Expression.Defines (R : Type) [Scalar R] (e : Expression) (n : Int) : Prop :=
  ∃ index value, e.role = .definition index value ∧ definedIndex? R index = some n

namespace Expansion.Keeps

variable {n : Int} {α β : Type}

theorem pure (a : α) : Keeps n (pure a : Expansion α) := by
  intro s a s' h
  cases h
  rfl

theorem bind {x : Expansion α} {f : α → Expansion β} (first : Keeps n x)
    (behind : ∀ a, Keeps n (f a)) : Keeps n (x >>= f) := by
  intro s b s₂ h
  rw [bind_apply] at h
  cases hx : x s with
  | error error s₁ => simp [hx] at h
  | ok a s₁ =>
    rw [hx] at h
    exact (behind a s₁ b s₂ h).trans (first s a s₁ hx)

theorem textOf? (e : Expression) (cs : List Char) : Keeps n (textOf? R e cs) := by
  intro s a s' h
  have kept := expandText_substitutions R cs s.dictionary
  rw [textOf?_apply] at h
  rcases hx : expandText R cs s.dictionary with ⟨(p | fault) | text, d⟩ <;> rw [hx] at h kept <;>
    cases h <;> exact congrArg (·[n]?) kept

theorem conditionHolds (e : Expression) (inside : List Char) :
    Keeps n (conditionHolds R e inside) := by
  refine (textOf? e inside).bind fun found => ?_
  cases found with
  | none => exact .pure false
  | some text =>
    cases hx : (parseNumber text : Option R) with
    | some x => simpa only [hx] using .pure _
    | none =>
      simp only [hx]
      exact bind (fun s _ s' h => by cases h; rfl) fun _ => .pure false

theorem throw (error : StructureError) : Keeps n (throw error : Expansion α) :=
  fun _ _ _ h => by cases h

theorem expandBlock (includes : ∀ e argument, Keeps n (includeFile e argument)) (e : Expression)
    (name : BlockName) (inside : List Char) (l : Layout) :
    Keeps n (expandBlock R includeFile e name inside l) := by
  obtain ⟨branches, output⟩ := l
  unfold Source.expandBlock
  cases name with
  | openIf =>
    cases ha : isActive branches with
    | false => simpa only [ha] using .pure _
    | true => simpa only [ha, if_true] using (conditionHolds e inside).bind fun _ => .pure _
  | openElse =>
    cases branches with
    | nil => exact .throw _
    | cons b rest =>
      cases hb : b.seenElse with
      | true => simpa only [hb] using .throw _
      | false => simpa only [hb] using .pure _
  | closeIf =>
    cases branches with
    | nil => exact .throw _
    | cons b rest => exact .pure _
  | includeFile =>
    cases isActive branches with
    | false => exact .pure _
    | true =>
      refine (textOf? e inside).bind fun found => ?_
      cases found with
      | none => exact .pure _
      | some argument => exact (includes e argument).bind fun _ => .pure _

end Expansion.Keeps

theorem Active.substitutions_behind (a : Active) {n : Int} (other : ¬ a.expression.Defines R n) :
    (a.behind R).substitutions[n]? = a.dictionary.substitutions[n]? := by
  have kept := expandText_substitutions R a.expression.role.subject a.dictionary
  unfold behind
  dsimp only
  split
  · rename_i index value text role expanded
    split
    · rename_i m hm
      have ne : m ≠ n := fun heq => other ⟨index, value, role, heq ▸ hm⟩
      simp [Std.TreeMap.getElem?_insert, ne, kept]
    · rw [kept]
  · rw [kept]

/-- An expression that does not define a number leaves it its text, and so do the files it
includes. -/
theorem expandOne_keeps {n : Int} (includes : ∀ e argument, (includeFile e argument).Keeps n)
    (other : ¬ e.Defines R n) (l : Layout) : (expandOne R includeFile l e).Keeps n := by
  obtain ⟨branches, output⟩ := l
  cases hb : e.block with
  | absent =>
    intro s l' s' h
    rw [expandOne_row R s includeFile branches output hb, Expansion.map_apply] at h
    cases ha : isActive branches with
    | false =>
      simp only [ha] at h
      cases h
      rfl
    | true =>
      have kept := Active.substitutions_behind (R := R) ⟨e, s.dictionary⟩ other
      simp only [ha, if_true, Active.read] at h
      cases hf : Active.fault? R ⟨e, s.dictionary⟩ <;> simp only [hf] at h <;> cases h
      exact kept
  | unclosed written =>
    have scan : scanBlock (trim e.text.toList) = .unclosed written := hb
    unfold expandOne
    simp only [scan]
    exact .throw _
  | found name inside =>
    have scan : scanBlock (trim e.text.toList) = .found name inside := hb
    unfold expandOne
    simp only [scan]
    exact .expandBlock includes e name inside _

theorem foldlM_expandOne_keeps {n : Int} (includes : ∀ e argument, (includeFile e argument).Keeps n)
    {es : List Expression} (others : ∀ e ∈ es, ¬ e.Defines R n) (l : Layout) :
    (es.foldlM (expandOne R includeFile) l).Keeps n := by
  induction es generalizing l with
  | nil => exact .pure l
  | cons e es ih =>
    rw [List.foldlM_cons]
    exact (expandOne_keeps includes (others e (by simp)) l).bind fun l =>
      ih (fun e he => others e (List.mem_cons_of_mem _ he)) l

/-! ## Definition and use -/

/-- Whether a use comes to a text behind a definition: in any list, as long as the number of the
index has the text that it has there. -/
def IsRecalled (R : Type) [Scalar R] (index : List Char) (use : Expression) (text : List Char)
    (d : Dictionary) : Prop :=
  ∀ includeFile l s, isActive l.branches →
    (∀ n, definedIndex? R index = some n →
      s.dictionary.substitutions[n]? = d.substitutions[n]?) →
    expandOne R includeFile l use s = .ok (l.emit use text) s

/-- A text is recalled behind every list in which its number is not defined again. -/
theorem IsRecalled.behind {use : Expression} {text : List Char} {d : Dictionary}
    (recalled : IsRecalled R index use text d) {es : List Expression}
    (includes : ∀ n, definedIndex? R index = some n →
      ∀ e argument, (includeFile e argument).Keeps n)
    (others : ∀ n, definedIndex? R index = some n → ∀ e ∈ es, ¬ e.Defines R n)
    {messages : Array Message} {l₂ : Layout} {s₂ : Session}
    (run : es.foldlM (expandOne R includeFile) l ⟨d, messages⟩ = .ok l₂ s₂)
    (active : isActive l₂.branches) :
    expandOne R includeFile l₂ use s₂ = .ok (l₂.emit use text) s₂ :=
  recalled includeFile l₂ s₂ active fun n hn =>
    foldlM_expandOne_keeps (includes n hn) (others n hn) l _ _ _ run

/-- The text of a number is recalled if the index is the number for a use as well. -/
theorem isRecalled_define_iff {use : Expression} (plain : IsPlain index)
    (uses : use.text.toList = useText index) {m : Int} (hm : definedIndex? R index = some m)
    (s : Session) : IsRecalled R index use (trim value) (s.define m (trim value)).dictionary ↔
      (wholeNumber? R index).isSome := by
  constructor
  · intro recalled
    have used := recalled (fun _ _ => pure []) ⟨[], #[]⟩ (s.define m (trim value)) rfl
      fun _ _ => rfl
    rw [expandOne_use plain uses rfl] at used
    cases hn : wholeNumber? R index with
    | some n => rfl
    | none => simp [hn, Session.define] at used
  · intro whole includeFile l s' active same
    obtain ⟨n, hn⟩ := Option.isSome_iff_exists.1 whole
    obtain ⟨rfl, -⟩ := (definedIndex?_eq_some_iff hn).1 hm
    have given := same m hm
    rw [Session.define, Std.TreeMap.getElem?_insert_self] at given
    rw [expandOne_use plain uses active, hn]
    simp only [given, trim_trim]

section Defining

variable (R includeFile) {definition : Expression} (balanced : IsBalanced index)
  (verbatim : scanInline value = .absent)
  (defines : definition.text.toList = definitionText index value) (active : isActive l.branches)
  (s : Session)

include balanced verbatim defines active

theorem expandOne_definitionText (form : IsPlain index ∧ '\n' ∉ trimEnd value) :
    expandOne R includeFile l definition s =
      match definedIndex? R index with
      | some n => .ok l (s.define n (trim value))
      | none => .ok l ⟨s.dictionary,
          s.messages.push ⟨.badSubstitutionIndex (String.ofList index), definition.location⟩⟩ := by
  have recognized := definition?_definitionText balanced value
  rw [← defines, if_pos form] at recognized
  exact expandOne_definition (block_of_callText defines) recognized
    (scanInline_of_isInfix verbatim (trim_isInfix value)) active s

/-- A definition puts nothing in the result and has no message if and only if it is recognized and
has a number. -/
theorem expandOne_definitionText_eq_ok_iff {d : Dictionary} :
    expandOne R includeFile l definition s = .ok l ⟨d, s.messages⟩ ↔
      (IsPlain index ∧ '\n' ∉ trimEnd value) ∧
        ∃ n, definedIndex? R index = some n ∧ (s.define n (trim value)).dictionary = d := by
  by_cases form : IsPlain index ∧ '\n' ∉ trimEnd value
  · rw [expandOne_definitionText R includeFile balanced verbatim defines active s form]
    cases hn : definedIndex? R index <;> simp [form, Session.define]
  · have unrecognized := definition?_definitionText balanced value
    rw [← defines, if_neg form] at unrecognized
    exact iff_of_false (expandOne_ne_of_unrecognized balanced defines unrecognized active s d)
      fun h => form h.1

/-- A definition that is expanded without a message is gone from the result and comes to its value
where it is used if and only if it is recognized and its index is a whole number. -/
theorem defined_substitution {use : Expression} (uses : use.text.toList = useText index) :
    (∀ l₁ d₁, expandOne R includeFile l definition s = .ok l₁ ⟨d₁, s.messages⟩ →
      (l₁ = l ∧ IsRecalled R index use (trim value) d₁ ↔
        IsPlain index ∧ '\n' ∉ trimEnd value ∧ (wholeNumber? R index).isSome)) ∧
    ∀ argument d n, expandText R index s.dictionary = (.ok argument, d) →
      wholeNumber? R argument = some n → 0 ≤ n →
      (expandOne R includeFile l definition s = .ok l (s.define n (trim value)) ↔
        IsPlain index ∧ '\n' ∉ trimEnd value ∧
          ∃ x : R, parseNumber argument = some x ∧
            Scalar.abs x < Scalar.ofDecimal ⟨false, 9, 18⟩) := by
  have quiet {d : Dictionary} : expandOne R includeFile l definition s = .ok l ⟨d, _⟩ ↔ _ :=
    expandOne_definitionText_eq_ok_iff R includeFile balanced verbatim defines active s
  constructor
  · intro l₁ d₁ expanded
    constructor
    · rintro ⟨rfl, recalled⟩
      obtain ⟨⟨plain, feed⟩, m, hm, rfl⟩ := quiet.1 expanded
      exact ⟨plain, feed, (isRecalled_define_iff plain uses hm s).1 recalled⟩
    · rintro ⟨plain, feed, whole⟩
      obtain rfl : l = l₁ := by
        rw [expandOne_definitionText R includeFile balanced verbatim defines active s
          ⟨plain, feed⟩] at expanded
        cases hm : definedIndex? R index with
        | none => simp [hm] at expanded
        | some m =>
          simp only [hm] at expanded
          exact (EStateM.Result.ok.inj expanded).1
      obtain ⟨-, m, hm, rfl⟩ := quiet.1 expanded
      exact ⟨rfl, (isRecalled_define_iff plain uses hm s).2 whole⟩
  · intro argument d n expanded whole nonneg
    -- without parentheses the index is its own expansion
    have same (plain : IsPlain index) : index = argument := by
      rw [expandText_of_absent R (scanInline_of_isPlain plain)] at expanded
      simpa using congrArg Prod.fst expanded
    constructor
    · intro accepted
      obtain ⟨⟨plain, feed⟩, m, hm, -⟩ := quiet.1 accepted
      obtain rfl := same plain
      exact ⟨plain, feed, ((definedIndex?_eq_some_iff whole).1 hm).2.2⟩
    · rintro ⟨plain, feed, small⟩
      obtain rfl := same plain
      have number : definedIndex? R index = some n :=
        (definedIndex?_eq_some_iff whole).2 ⟨rfl, nonneg, small⟩
      exact quiet.2 ⟨⟨plain, feed⟩, n, number, rfl⟩

end Defining

/-- A whole number between blanks. -/
theorem defined_substitution_one :
    let index := " 1 ".toList
    let value := "a b ".toList
    let definition : Expression := ⟨⟨"route.csv", 1, 1⟩, "$Sub( 1 ) = a b "⟩
    let use : Expression := ⟨⟨"route.csv", 2, 1⟩, "$Sub( 1 )"⟩
    let start : Session := ⟨⟨.ofSeed 0, ∅⟩, #[]⟩
    (IsBalanced index ∧ scanInline value = .absent ∧
      definition.text.toList = definitionText index value ∧ use.text.toList = useText index ∧
      isActive []) ∧
    expandOne ℚ (fun _ _ => pure []) ⟨[], #[]⟩ definition start =
      .ok ⟨[], #[]⟩ (start.define 1 "a b".toList) ∧
    IsRecalled ℚ index use "a b".toList (start.define 1 "a b".toList).dictionary := by
  intro index value definition use start
  have balanced : IsBalanced index := by decide
  have verbatim : scanInline value = .absent := by decide
  have defines : definition.text.toList = definitionText index value := by decide
  have uses : use.text.toList = useText index := by decide
  have active : isActive (Layout.mk [] #[]).branches := rfl
  have whole : wholeNumber? ℚ index = some 1 := by decide +kernel
  have plain : IsPlain index := by decide
  have feed : '\n' ∉ trimEnd value := by decide
  obtain ⟨recalls, accepts⟩ := defined_substitution ℚ (fun _ _ => pure []) balanced verbatim
    defines active start uses
  have accepted := (accepts index start.dictionary 1
    (expandText_of_absent ℚ (scanInline_of_isPlain plain) _) whole (by decide)).2
      ⟨plain, feed, 1, by decide +kernel, by decide +kernel⟩
  exact ⟨⟨balanced, verbatim, defines, uses, rfl⟩, accepted,
    ((recalls _ _ accepted).2 ⟨plain, feed, by rw [whole]; rfl⟩).2⟩

/-- A fraction can be defined but not used, and a directive can be used but not defined. -/
theorem lost_substitutions :
    let route (texts : List String) : List Expression :=
      texts.mapIdx fun i text => ⟨⟨"route.csv", i + 1, 1⟩, text⟩
    let expanded (texts : List String) : Expanded :=
      expand ℚ ⟨.csv, .utf8, ⟨fun _ => .error .notFound⟩⟩ 0 (route texts)
    (IsBalanced "1.5".toList ∧ IsBalanced "$Chr(49)".toList ∧ scanInline ['a'] = .absent) ∧
    (expanded ["$Sub(1.5) = a"]).messages = [] ∧
    (expanded ["$Sub(1.5) = a", "$Sub(1.5)"]).messages =
      [⟨.badSubstitutionIndex "1.5", ⟨"route.csv", 2, 1⟩⟩] ∧
    (expandText ℚ "$Chr(49)".toList ⟨.ofSeed 0, ∅⟩).1 = .ok ['1'] ∧
    (expanded ["$Sub($Chr(49)) = a"]).messages =
      [⟨.undefinedSubstitution "1", ⟨"route.csv", 1, 1⟩⟩] ∧
    (expanded ["$Sub(1) = a", "$Sub($Chr(49)) = b"]).messages = [] ∧
    (expanded ["$Sub(1) = a", "$Sub($Chr(49)) = b"]).result =
      .ok [⟨⟨"route.csv", 2, 1⟩, "a = b"⟩] := by
  decide +kernel

end Source

end RailRoute
