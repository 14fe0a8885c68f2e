import Mathlib
import RailRoute.Proofs.Arithmetic
import RailRoute.Proofs.Source.Directives

/-!
# Nested directives

A template is a text taken apart into stretches without a dollar sign and directives, whose
arguments are templates again. It has a value of its own, computed along its structure: directives
from left to right, each behind those in its argument. Expanding the text that a template is written
as comes to that value, whatever the directives produce. Main statement: `expandText_written`.
-/

namespace RailRoute

/-! ## Balanced parentheses -/

namespace Text

/-- Whether the parentheses of a text belong to each other: nowhere are more of them closed than
were opened, and in the end all are closed. -/
structure IsBalanced (cs : List Char) : Prop where
  opened : ∀ front, front <+: cs → front.count ')' ≤ front.count '('
  closed : cs.count ')' = cs.count '('

instance (cs : List Char) : Decidable (IsBalanced cs) :=
  decidable_of_iff ((∀ front ∈ cs.inits, front.count ')' ≤ front.count '(') ∧
      cs.count ')' = cs.count '(')
    ⟨fun h => ⟨fun front hfront => h.1 front ((List.mem_inits front cs).2 hfront), h.2⟩,
      fun h => ⟨fun front hfront => h.opened front ((List.mem_inits front cs).1 hfront), h.closed⟩⟩

theorem prefix_append_cases {xs ys front : List Char} (h : front <+: xs ++ ys) :
    front <+: xs ∨ ∃ rest, rest <+: ys ∧ front = xs ++ rest := by
  rcases List.prefix_or_prefix_of_prefix h (List.prefix_append xs ys) with h' | ⟨rest, rfl⟩
  · exact Or.inl h'
  · exact Or.inr ⟨rest, (List.prefix_append_right_inj xs).1 h, rfl⟩

/-- A balanced text may stand anywhere in a balanced text. -/
theorem IsBalanced.insert {xs ys zs : List Char} (outer : IsBalanced (xs ++ zs))
    (inner : IsBalanced ys) : IsBalanced (xs ++ (ys ++ zs)) where
  opened front h := by
    rcases prefix_append_cases h with hfront | ⟨rest, htail, rfl⟩
    · exact outer.opened front (hfront.trans (List.prefix_append xs zs))
    · rcases prefix_append_cases htail with hrest | ⟨behind, hbehind, rfl⟩
      · have ahead := outer.opened xs (List.prefix_append xs zs)
        have here := inner.opened rest hrest
        simp only [List.count_append]
        omega
      · have here := outer.opened (xs ++ behind) ((List.prefix_append_right_inj xs).2 hbehind)
        have all := inner.closed
        simp only [List.count_append] at here ⊢
        omega
  closed := by
    have here := inner.closed
    have around := outer.closed
    simp only [List.count_append] at around ⊢
    omega

theorem IsBalanced.append {xs ys : List Char} (hx : IsBalanced xs) (hy : IsBalanced ys) :
    IsBalanced (xs ++ ys) := by
  have whole : IsBalanced (xs ++ []) := by rwa [List.append_nil]
  simpa using whole.insert hy

theorem isBalanced_of_isPlain {cs : List Char} (h : IsPlain cs) : IsBalanced cs := by
  have none (c : Char) (hc : c = '(' ∨ c = ')') : cs.count c = 0 := by
    refine List.count_eq_zero.2 fun hmem => ?_
    rcases hc with rfl | rfl
    · exact (h _ hmem).1 rfl
    · exact (h _ hmem).2 rfl
  refine ⟨fun front hfront => ?_, by rw [none _ (Or.inl rfl), none _ (Or.inr rfl)]⟩
  have : front.count ')' ≤ cs.count ')' := hfront.sublist.count_le _
  rw [none _ (Or.inr rfl)] at this
  omega

theorem IsBalanced.group {cs : List Char} (h : IsBalanced cs) :
    IsBalanced ('(' :: (cs ++ [')'])) where
  opened front hfront := by
    rcases List.prefix_cons_iff.1 hfront with rfl | ⟨rest, rfl, hrest⟩
    · simp
    · rcases prefix_append_cases hrest with hrest | ⟨last, hlast, rfl⟩
      · have := h.opened rest hrest
        simp
        omega
      · have := h.closed
        have most : last.count ')' ≤ [')'].count ')' := hlast.sublist.count_le _
        simp at most ⊢
        omega
  closed := by
    have := h.closed
    simp
    omega

/-- The parenthesis behind a balanced text closes the group that the text stands in. The `depth`
groups that are open besides have their ends in the text. -/
theorem closeGroup?_of_counts {depth : Nat} {cs : List Char}
    (opened : ∀ front, front <+: cs → front.count ')' ≤ front.count '(' + depth)
    (closed : cs.count ')' = cs.count '(' + depth) (rest : List Char) :
    closeGroup? depth (cs ++ ')' :: rest) = some (cs, rest) := by
  induction cs generalizing depth with
  | nil =>
    obtain rfl : depth = 0 := by simpa using closed.symm
    simp [closeGroup?]
  | cons c cs ih =>
    have behind (front : List Char) (h : front <+: cs) := opened (c :: front) (by simpa using h)
    rw [List.cons_append]
    unfold closeGroup?
    split_ifs with hopen hclose
    · subst hopen
      rw [ih (fun front h => by have := behind front h; simp at this; omega)
        (by simp at closed; omega)]
      rfl
    · subst hclose
      cases depth with
      | zero => simpa using opened [')'] (by simp)
      | succ depth =>
        dsimp only
        rw [ih (fun front h => by have := behind front h; simp at this; omega)
          (by simp at closed; omega)]
        rfl
    · have others (xs : List Char) :
          (c :: xs).count '(' = xs.count '(' ∧ (c :: xs).count ')' = xs.count ')' :=
        ⟨List.count_cons_of_ne hopen, List.count_cons_of_ne hclose⟩
      rw [ih (fun front h => by have := behind front h; rwa [(others _).1, (others _).2] at this)
        (by rwa [(others _).1, (others _).2] at closed)]
      rfl

theorem IsBalanced.closeGroup? {cs : List Char} (h : IsBalanced cs) (rest : List Char) :
    Text.closeGroup? 0 (cs ++ ')' :: rest) = some (cs, rest) :=
  closeGroup?_of_counts h.opened h.closed rest

end Text

namespace Source

open Text

/-! ## Names -/

/-- The word that a directive is called by. -/
def InlineName.word : InlineName → List Char
  | .character => ['c', 'h', 'r']
  | .random => ['r', 'n', 'd']
  | .substitution => ['s', 'u', 'b']

/-- Whether a name is spelled as a directive is called, in any case. -/
def InlineName.IsSpelled (name : InlineName) (spelling : List Char) : Prop :=
  List.Forall₂ (fun letter c => foldsTo letter c) name.word spelling

instance (name : InlineName) (spelling : List Char) : Decidable (name.IsSpelled spelling) :=
  inferInstanceAs (Decidable (List.Forall₂ _ _ _))

section Spelled

variable {name : InlineName} {spelling : List Char} (h : name.IsSpelled spelling)

include h

theorem InlineName.IsSpelled.exists_eq : ∃ a b c, spelling = [a, b, c] ∧
    match name with
    | .character => a.toLower = 'c' ∧ b.toLower = 'h' ∧ c.toLower = 'r'
    | .random => a.toLower = 'r' ∧ b.toLower = 'n' ∧ c.toLower = 'd'
    | .substitution => (a.toLower = 's' ∨ a = 'ſ') ∧ b.toLower = 'u' ∧ c.toLower = 'b' := by
  unfold IsSpelled at h
  cases name <;>
  · simp only [word, List.forall₂_cons_left_iff, List.forall₂_nil_left_iff] at h
    obtain ⟨a, _, ha, ⟨b, _, hb, ⟨c, _, hc, rfl, rfl⟩, rfl⟩, rfl⟩ := h
    exact ⟨a, b, c, rfl, by simpa [foldsTo] using ha, by simpa [foldsTo] using hb,
      by simpa [foldsTo] using hc⟩

theorem InlineName.IsSpelled.isPlain : IsPlain spelling := by
  have absent {c : Char} (fixed : c.toLower = c) (hs : c ≠ 'ſ') (hw : c ∉ name.word) :=
    not_mem_of_spelled h fixed hs hw
  intro c hc
  constructor <;> rintro rfl <;> exact absent rfl (by decide) (by cases name <;> decide) hc

theorem InlineName.IsSpelled.ofWritten_eq : InlineName.ofWritten spelling = name := by
  obtain ⟨a, b, c, rfl, letters⟩ := h.exists_eq
  unfold ofWritten
  cases name with
  | character => simp [Text.lower, letters]
  | random => simp [Text.lower, letters]
  | substitution =>
    obtain ⟨-, hb, hc⟩ := letters
    simp [Text.lower, hb, hc]

theorem InlineName.IsSpelled.takeOneOf?_eq (rest : List Char) :
    takeOneOf? ["chr", "rnd", "sub"] (spelling ++ rest) = some (spelling, rest) := by
  have chr : "chr".toList = ['c', 'h', 'r'] := rfl
  have rnd : "rnd".toList = ['r', 'n', 'd'] := rfl
  have sub : "sub".toList = ['s', 'u', 'b'] := rfl
  obtain ⟨a, b, c, rfl, letters⟩ := h.exists_eq
  cases name with
  | character => simp [takeOneOf?, takeWord?, foldsTo, chr, letters]
  | random => simp [takeOneOf?, takeWord?, foldsTo, chr, rnd, letters]
  | substitution =>
    obtain ⟨ha | rfl, hb, hc⟩ := letters
    · simp [takeOneOf?, takeWord?, foldsTo, chr, rnd, sub, ha, hb, hc]
    · simp [takeOneOf?, takeWord?, foldsTo, chr, rnd, sub, hb, hc]

theorem InlineName.IsSpelled.directiveHead?_eq {gap : List Char} (blank : ∀ c ∈ gap, isBlank c)
    (inside : List Char) :
    directiveHead? ["chr", "rnd", "sub"] ('$' :: (spelling ++ (gap ++ '(' :: inside))) =
      some (spelling, inside) := by
  have opened : trimStart (gap ++ '(' :: inside) = '(' :: inside := by
    rw [trimStart, List.dropWhile_append_of_pos blank]
    rfl
  simp [directiveHead?, h.takeOneOf?_eq, opened]

end Spelled

/-! ## Templates -/

/-- A text with directives, taken apart. -/
inductive Template where
  | done
  | literal (text : List Char) (rest : Template)
  /-- A directive, with its name as it is spelled and the blanks ahead of its argument. -/
  | directive (name : InlineName) (spelling gap : List Char) (argument rest : Template)

namespace Template

/-- The text that a template is written as. -/
def written : Template → List Char
  | done => []
  | literal text rest => text ++ rest.written
  | directive _ spelling gap argument rest =>
    '$' :: (spelling ++ (gap ++ '(' :: (argument.written ++ ')' :: rest.written)))

/-- The literals of a template, without those in the arguments of its directives. -/
def literals : Template → List Char
  | done => []
  | literal text rest => text ++ rest.literals
  | directive _ _ _ _ rest => rest.literals

/-- Whether a template can be told from what it is written as: no literal has a dollar sign in it,
directives are spelled as they are called, and the literals of an argument have balanced
parentheses. -/
def IsLegible : Template → Prop
  | done => True
  | literal text rest => '$' ∉ text ∧ rest.IsLegible
  | directive name spelling gap argument rest =>
    name.IsSpelled spelling ∧ (∀ c ∈ gap, isBlank c) ∧ IsBalanced argument.literals ∧
      argument.IsLegible ∧ rest.IsLegible

instance decidableIsLegible : (t : Template) → Decidable t.IsLegible
  | done => .isTrue trivial
  | literal text rest =>
    have := decidableIsLegible rest
    inferInstanceAs (Decidable ('$' ∉ text ∧ rest.IsLegible))
  | directive name spelling gap argument rest =>
    -- by default all characters there are would be tried
    have : Decidable (∀ c ∈ gap, isBlank c) := List.decidableBAll _ gap
    have := decidableIsLegible argument
    have := decidableIsLegible rest
    inferInstanceAs (Decidable (name.IsSpelled spelling ∧ (∀ c ∈ gap, isBlank c) ∧
      IsBalanced argument.literals ∧ argument.IsLegible ∧ rest.IsLegible))

/-- Steps that draw random numbers, look up substitutions, and may fail. -/
abbrev Evaluation := ExceptT TextFailure (StateM Dictionary)

/-- Calls a directive whose argument has a value. -/
def call (R : Type) [Scalar R] (name : InlineName) (argument : List Char) :
    Evaluation (List Char) :=
  fun d => evaluate R name argument d

/-- The value of a template: its literals and the results of its directives, which are evaluated
from left to right, each as soon as its argument has a value. The first one that fails ends it
all. -/
def value (R : Type) [Scalar R] : Template → Evaluation (List Char)
  | done => return []
  | literal text rest => return text ++ (← rest.value R)
  | directive name _ _ argument rest => do
    let argument ← argument.value R
    let result ← call R name argument
    return result ++ (← rest.value R)

/-! ## Reading what is written -/

/-- Directives put balanced groups between the literals. -/
theorem IsLegible.isBalanced_append {t : Template} (legible : t.IsLegible) (front : List Char)
    (balanced : IsBalanced (front ++ t.literals)) : IsBalanced (front ++ t.written) := by
  induction t generalizing front with
  | done => exact balanced
  | literal text rest ih =>
    rw [literals, ← List.append_assoc] at balanced
    rw [written, ← List.append_assoc]
    exact ih legible.2 _ balanced
  | directive name spelling gap argument rest ihArgument ihRest =>
    obtain ⟨spelled, blank, inner, legibleArgument, legibleRest⟩ := legible
    have group : IsBalanced ('(' :: (argument.written ++ [')'])) :=
      (ihArgument legibleArgument [] inner).group
    have head : IsPlain ('$' :: (spelling ++ gap)) := by
      intro c hc
      rcases List.mem_cons.1 hc with rfl | hc
      · decide
      · rcases List.mem_append.1 hc with hc | hc
        · exact spelled.isPlain c hc
        · exact isPlain_of_isBlank blank c hc
    have call := (isBalanced_of_isPlain head).append group
    simpa [written] using (ihRest legibleRest front balanced).insert call

end Template

section Reading

variable {text : List Char} (plain : '$' ∉ text) (rest : List Char)

include plain

theorem findInline?_append :
    findInline? (text ++ rest) = (findInline? rest).map fun x => (text ++ x.1, x.2) := by
  induction text with
  | nil => simp
  | cons c text ih =>
    obtain ⟨hc, behind⟩ : '$' ≠ c ∧ '$' ∉ text := by simpa using plain
    have here : directiveHead? ["chr", "rnd", "sub"] (c :: (text ++ rest)) = none := by
      unfold directiveHead?
      split
      · rename_i heq
        exact absurd (List.cons.inj heq).1.symm hc
      · rfl
    rw [List.cons_append, findInline?, here, ih behind]
    simp [Function.comp_def]

/-- A text without a dollar sign is passed over. -/
theorem expandText_append (R : Type) [Scalar R] (d : Dictionary) :
    expandText R (text ++ rest) d =
      match expandText R rest d with
      | (.error e, d) => (.error e, d)
      | (.ok tail, d) => (.ok (text ++ tail), d) := by
  have found := findInline?_append plain rest
  cases hfind : findInline? rest with
  | none =>
    have absent : scanInline rest = .absent := by rw [scanInline, hfind]
    have absent' : scanInline (text ++ rest) = .absent := by rw [scanInline, found, hfind]; rfl
    rw [expandText_of_absent R absent, expandText_of_absent R absent']
  | some x =>
    obtain ⟨before, written, inside⟩ := x
    cases hclose : closeGroup? 0 inside with
    | none =>
      have unclosed : scanInline rest = .unclosed written := by simp [scanInline, hfind, hclose]
      have unclosed' : scanInline (text ++ rest) = .unclosed written := by
        simp [scanInline, found, hfind, hclose]
      rw [expandText_of_unclosed R unclosed, expandText_of_unclosed R unclosed']
    | some y =>
      obtain ⟨argument, behind⟩ := y
      have here : scanInline rest = .found before written argument behind := by
        simp [scanInline, hfind, hclose]
      have here' : scanInline (text ++ rest) = .found (text ++ before) written argument behind := by
        simp [scanInline, found, hfind, hclose]
      rw [expandText_of_found R here, expandText_of_found R here']
      rcases expandText R argument d with ⟨_ | argument, d⟩
      · rfl
      · dsimp only
        rcases evaluate R (.ofWritten written) argument d with ⟨_ | value, d⟩
        · rfl
        · dsimp only
          rcases expandText R behind d with ⟨_ | tail, d⟩
          · rfl
          · simp

end Reading

namespace Template

theorem IsLegible.scanInline_eq {name : InlineName} {spelling gap : List Char}
    {argument rest : Template} (legible : (directive name spelling gap argument rest).IsLegible) :
    scanInline (directive name spelling gap argument rest).written =
      .found [] spelling argument.written rest.written := by
  obtain ⟨spelled, blank, inner, legibleArgument, -⟩ := legible
  have balanced : IsBalanced argument.written := legibleArgument.isBalanced_append [] inner
  simp [written, scanInline, findInline?, spelled.directiveHead?_eq blank,
    balanced.closeGroup? rest.written]

variable {R : Type} [Scalar R]

theorem run_bind {α β : Type} (m : Evaluation α) (f : α → Evaluation β) (d : Dictionary) :
    (m >>= f).run.run d =
      match m.run.run d with
      | (.error e, d) => (.error e, d)
      | (.ok a, d) => (f a).run.run d := by
  have split : (m >>= f).run.run d =
      ExceptT.bindCont f (m.run.run d).1 (m.run.run d).2 := rfl
  rw [split]
  rcases m.run.run d with ⟨_ | a, d⟩ <;> rfl

/-- Expanding the text that a template is written as comes to the value of the template. -/
theorem expandText_written {t : Template} (legible : t.IsLegible) (d : Dictionary) :
    expandText R t.written d = (t.value R).run.run d := by
  induction t generalizing d with
  | done => exact expandText_of_absent R rfl d
  | literal text rest ih =>
    rw [written, expandText_append legible.1, ih legible.2, value, run_bind]
    rcases (rest.value R).run.run d with ⟨_ | tail, d⟩ <;> rfl
  | directive name spelling gap argument rest ihArgument ihRest =>
    rw [expandText_of_found R legible.scanInline_eq, legible.1.ofWritten_eq,
      ihArgument legible.2.2.2.1, value, run_bind]
    rcases (argument.value R).run.run d with ⟨_ | argument, d⟩
    · rfl
    · have called : (call R name argument).run.run d = evaluate R name argument d := rfl
      dsimp only
      rw [run_bind, called]
      rcases evaluate R name argument d with ⟨_ | result, d⟩
      · rfl
      · dsimp only
        rw [ihRest legible.2.2.2.2, run_bind]
        rcases (rest.value R).run.run d with ⟨_ | tail, d⟩ <;> rfl

theorem expandText_written_substitution :
    let t : Template := .literal ['x'] (.directive .substitution "sUb".toList [' ']
      (.directive .character "CHR".toList [] (.literal "49".toList .done) .done)
      (.literal "(65)".toList .done))
    t.written = "x$sUb ($CHR(49))(65)".toList ∧ t.IsLegible ∧
      (expandText ℚ t.written ⟨.ofSeed 0, Std.TreeMap.insert ∅ 1 "$Chr".toList⟩).1 =
        .ok "x$Chr(65)".toList := by
  intro t
  have legible : t.IsLegible := by decide
  refine ⟨by decide, legible, ?_⟩
  rw [expandText_written legible]
  decide_cbv

end Template

end Source

end RailRoute
