import Mathlib
import RailRoute.Proofs.Command.Spelling
import RailRoute.Proofs.Source.Template

/-!
# Three places for arguments

The arguments of a command stand behind a blank, in parentheses, or in parentheses behind a blank.
The blank is looked for from the left and the parenthesis that opens the arguments from the right.
In balanced texts both ways come to the same place, whatever groups the command and the arguments
have in them. Main statement: `separate_spellings`.
-/

namespace RailRoute

namespace Text

/-! ## From the left -/

/-- Whether all blanks of a text stand inside of parentheses. -/
def IsUnbroken (cs : List Char) : Prop :=
  ∀ k, ∀ h : k < cs.length, (cs.take k).count ')' = (cs.take k).count '(' → ¬ isBlank cs[k]

instance (cs : List Char) : Decidable (IsUnbroken cs) :=
  inferInstanceAs (Decidable (∀ k, ∀ h : k < cs.length,
    (cs.take k).count ')' = (cs.take k).count '(' → ¬ isBlank cs[k]))

theorem IsUnbroken.not_isBlank {cs front behind : List Char} {c : Char} (h : IsUnbroken cs)
    (heq : cs = front ++ c :: behind) (outside : front.count ')' = front.count '(') :
    ¬ isBlank c := by
  subst heq
  simpa using h front.length (by simp) (by simpa using outside)

theorem forall_prefix_cons {P : List Char → Prop} {c : Char} {cs : List Char} :
    (∀ front, front <+: c :: cs → P front) ↔ P [] ∧ ∀ front, front <+: cs → P (c :: front) := by
  constructor
  · exact fun h => ⟨h [] (List.nil_prefix ..), fun front hfront => h _ (by simpa using hfront)⟩
  · rintro ⟨first, others⟩ front hfront
    rcases List.prefix_cons_iff.1 hfront with rfl | ⟨front, rfl, inner⟩
    · exact first
    · exact others front inner

theorem count_cons_other {c : Char} (hopen : c ≠ '(') (hclose : c ≠ ')') (cs : List Char) :
    (c :: cs).count '(' = cs.count '(' ∧ (c :: cs).count ')' = cs.count ')' :=
  ⟨List.count_cons_of_ne hopen, List.count_cons_of_ne hclose⟩

/-- Looking for a character outside of parentheses passes over a text that has none. The `depth`
groups that are open in front of the text may end in it. -/
theorem cutOutside?_of_counts {p : Char → Bool} {depth : Nat} {xs : List Char}
    (opened : ∀ front, front <+: xs → front.count ')' ≤ front.count '(' + depth)
    (uncut : ∀ front c behind, xs = front ++ c :: behind →
      front.count ')' = front.count '(' + depth → ¬ p c) (ys : List Char) :
    cutOutside? p depth (xs ++ ys) =
      (cutOutside? p (xs.count '(' + depth - xs.count ')') ys).map fun x => (xs ++ x.1, x.2) := by
  induction xs generalizing depth with
  | nil => simp
  | cons c xs ih =>
    obtain ⟨-, ahead⟩ := forall_prefix_cons.1 opened
    have behind (front : List Char) (d : Char) (rest : List Char) (h : xs = front ++ d :: rest) :=
      uncut (c :: front) d rest (by simp [h])
    rw [List.cons_append, cutOutside?]
    split_ifs with hopen hclose hcut
    · subst hopen
      rw [ih (fun front h => by have := ahead front h; simp at this; omega)
        (fun front d rest h outside => behind front d rest h (by simp; omega))]
      have same : xs.count '(' + (depth + 1) = ('(' :: xs).count '(' + depth := by
        simp
        omega
      simp only [same, List.count_cons_of_ne (show '(' ≠ ')' by decide), Option.map_map]
      rfl
    · subst hclose
      have positive : 1 ≤ depth := by simpa using ahead [] (List.nil_prefix ..)
      rw [ih (fun front h => by have := ahead front h; simp at this; omega)
        (fun front d rest h outside => behind front d rest h (by simp; omega))]
      have same : xs.count '(' + (depth - 1) - xs.count ')' =
          (')' :: xs).count '(' + depth - (')' :: xs).count ')' := by
        simp
        omega
      simp only [same, Option.map_map]
      rfl
    · exact absurd hcut.2 (uncut [] c xs rfl (by simp [hcut.1]))
    · have others := count_cons_other hopen hclose
      rw [ih (fun front h => by have := ahead front h; rwa [(others _).1, (others _).2] at this)
        (fun front d rest h outside =>
          behind front d rest h (by rwa [(others _).1, (others _).2])), (others _).1, (others _).2,
        Option.map_map]
      rfl

/-- A balanced text whose blanks stand inside of parentheses is passed over. -/
theorem IsBalanced.cutOutside?_append {xs : List Char} (h : IsBalanced xs)
    (unbroken : IsUnbroken xs) (ys : List Char) :
    cutOutside? isBlank 0 (xs ++ ys) =
      (cutOutside? isBlank 0 ys).map fun x => (xs ++ x.1, x.2) := by
  rw [cutOutside?_of_counts h.opened (fun _ _ _ heq outside => unbroken.not_isBlank heq outside),
    h.closed]
  simp

/-- No blank of a group stands outside of parentheses. -/
theorem IsBalanced.cutOutside?_group {cs : List Char} (h : IsBalanced cs) :
    cutOutside? isBlank 0 ('(' :: (cs ++ [')'])) = none := by
  have inside : cutOutside? isBlank 1 (cs ++ [')']) = none := by
    rw [cutOutside?_of_counts (fun front hfront => (h.opened front hfront).trans (Nat.le_succ _))
      (fun front c behind heq outside => ?_)]
    · simp [cutOutside?]
    · have := h.opened front ⟨_, heq.symm⟩
      omega
  simp [cutOutside?, inside]

/-- A command ends in no blank. -/
theorem IsUnbroken.trimEnd_eq {cs : List Char} (h : IsUnbroken cs) (balanced : IsBalanced cs) :
    trimEnd cs = cs := by
  refine List.rdropWhile_eq_self_iff.2 fun hne blank => ?_
  obtain ⟨front, c, rfl⟩ := (List.eq_nil_or_concat' cs).resolve_left hne
  rw [List.getLast_append_singleton] at blank
  have plain : IsPlain [c] := isPlain_of_isBlank (by simpa using blank)
  obtain ⟨hopen, hclose⟩ := plain c (by simp)
  have closed := balanced.closed
  refine h.not_isBlank rfl ?_ blank
  simpa [List.count_cons_of_ne hopen, List.count_cons_of_ne hclose] using closed

/-! ## From the right -/

/-- The other parenthesis of a pair; other characters stay as they are. -/
def mirrored (c : Char) : Char := if c = '(' then ')' else if c = ')' then '(' else c

theorem mirrored_mirrored (c : Char) : mirrored (mirrored c) = c := by
  unfold mirrored
  split_ifs <;> simp_all

theorem mirrored_injective : Function.Injective mirrored :=
  Function.LeftInverse.injective mirrored_mirrored

/-- Read backwards, a parenthesis that closes a group opens it. -/
theorem closeGroup?_map_mirrored (depth : Nat) (cs : List Char) :
    closeGroup? depth (cs.map mirrored) =
      (openGroup? depth cs).map fun x => (x.1.map mirrored, x.2.map mirrored) := by
  induction cs generalizing depth with
  | nil => rfl
  | cons c cs ih =>
    rw [List.map_cons]
    unfold closeGroup? openGroup?
    by_cases hopen : c = '('
    · subst hopen
      cases depth with
      | zero => simp [mirrored]
      | succ depth => simp [mirrored, ih, Function.comp_def]
    · by_cases hclose : c = ')'
      · subst hclose
        simp [mirrored, ih, Function.comp_def]
      · simp [mirrored, hopen, hclose, ih, Function.comp_def]

theorem count_map_mirrored (cs : List Char) :
    (cs.map mirrored).count '(' = cs.count ')' ∧ (cs.map mirrored).count ')' = cs.count '(' :=
  ⟨List.count_map_of_injective cs mirrored mirrored_injective ')',
    List.count_map_of_injective cs mirrored mirrored_injective '('⟩

theorem IsBalanced.mirror {cs : List Char} (h : IsBalanced cs) :
    IsBalanced (cs.reverse.map mirrored) where
  opened front hfront := by
    obtain ⟨rest, hrest⟩ := hfront
    have turned : cs = (rest.map mirrored).reverse ++ (front.map mirrored).reverse := by
      have := congrArg (fun xs => (xs.map mirrored).reverse) hrest
      simpa [Function.comp_def, mirrored_mirrored] using this.symm
    have ahead := h.opened _ ⟨_, turned.symm⟩
    have all := h.closed
    rw [turned] at all
    simp only [List.count_append, List.count_reverse, count_map_mirrored] at ahead all
    omega
  closed := by
    have := h.closed
    simp only [List.count_reverse, count_map_mirrored]
    omega

/-- The arguments in parentheses at the end of a text are found. -/
theorem IsBalanced.trailingGroup?_append {inside : List Char} (h : IsBalanced inside)
    (before : List Char) :
    trailingGroup? (before ++ '(' :: (inside ++ [')'])) = some (before, inside) := by
  have opened : openGroup? 0 (inside.reverse ++ '(' :: before.reverse) =
      some (inside.reverse, before.reverse) := by
    have closed := h.mirror.closeGroup? (before.reverse.map mirrored)
    have text : inside.reverse.map mirrored ++ ')' :: before.reverse.map mirrored =
        (inside.reverse ++ '(' :: before.reverse).map mirrored := by simp [mirrored]
    rw [text, closeGroup?_map_mirrored] at closed
    obtain ⟨⟨a, b⟩, found, heq⟩ := Option.map_eq_some_iff.1 closed
    obtain ⟨ha, hb⟩ := Prod.mk.inj heq
    obtain rfl := List.map_injective_iff.2 mirrored_injective ha
    obtain rfl := List.map_injective_iff.2 mirrored_injective hb
    exact found
  have turned : (before ++ '(' :: (inside ++ [')'])).reverse =
      ')' :: (inside.reverse ++ '(' :: before.reverse) := by simp
  rw [trailingGroup?, turned]
  simp [opened]

/-- What stands in front of the parenthesis that closes the innermost of `depth + 1` groups closes
the others and no more. -/
theorem counts_of_closeGroup? {depth : Nat} {cs a b : List Char}
    (h : closeGroup? depth cs = some (a, b)) :
    (∀ front, front <+: a → front.count ')' ≤ front.count '(' + depth) ∧
      a.count ')' = a.count '(' + depth := by
  induction cs generalizing depth a with
  | nil => cases h
  | cons c cs ih =>
    unfold closeGroup? at h
    split_ifs at h with hopen hclose
    · obtain ⟨a, hx, rfl⟩ := exists_of_map_cons h
      obtain ⟨opened, closed⟩ := ih hx
      subst hopen
      refine ⟨forall_prefix_cons.2 ⟨by simp, fun front hfront => ?_⟩, by simp; omega⟩
      have := opened front hfront
      simp
      omega
    · cases depth with
      | zero =>
        obtain ⟨rfl, rfl⟩ := Prod.mk.inj (Option.some.inj h)
        simp
      | succ depth =>
        obtain ⟨a, hx, rfl⟩ := exists_of_map_cons h
        obtain ⟨opened, closed⟩ := ih hx
        subst hclose
        refine ⟨forall_prefix_cons.2 ⟨by simp, fun front hfront => ?_⟩, by simp; omega⟩
        have := opened front hfront
        simp
        omega
    · obtain ⟨a, hx, rfl⟩ := exists_of_map_cons h
      obtain ⟨opened, closed⟩ := ih hx
      have others := count_cons_other hopen hclose
      refine ⟨forall_prefix_cons.2 ⟨by simp, fun front hfront => ?_⟩,
        by rwa [(others _).1, (others _).2]⟩
      rw [(others _).1, (others _).2]
      exact opened front hfront

theorem isBalanced_of_closeGroup? {cs a b : List Char} (h : closeGroup? 0 cs = some (a, b)) :
    IsBalanced a :=
  ⟨(counts_of_closeGroup? h).1, (counts_of_closeGroup? h).2⟩

/-- What is found in parentheses at the end of a text is balanced. -/
theorem isBalanced_of_trailingGroup? {cs before inside : List Char}
    (h : trailingGroup? cs = some (before, inside)) : IsBalanced inside := by
  unfold trailingGroup? at h
  split at h
  · rename_i r _
    obtain ⟨⟨a, b⟩, found, heq⟩ := Option.map_eq_some_iff.1 h
    obtain ⟨-, rfl⟩ := Prod.mk.inj heq
    have closed : closeGroup? 0 (r.map mirrored) = some (a.map mirrored, b.map mirrored) := by
      rw [closeGroup?_map_mirrored, found]
      rfl
    have balanced := (isBalanced_of_closeGroup? closed).mirror
    simpa [Function.comp_def, mirrored_mirrored] using balanced
  · cases h

end Text

namespace Source

open Text

/-! ## Commands with arguments -/

/-- Whether a text is one group in parentheses. -/
def IsGroup (cs : List Char) : Prop := ∃ inside, IsBalanced inside ∧ cs = '(' :: (inside ++ [')'])

theorem stripGroup_group {inside : List Char} (h : IsBalanced inside) :
    stripGroup ('(' :: (inside ++ [')'])) = trim inside := by
  have found := h.trailingGroup?_append []
  rw [List.nil_append] at found
  rw [stripGroup, found]

theorem stripGroup_of_not_isGroup {cs : List Char} (h : ¬ IsGroup cs) : stripGroup cs = cs := by
  unfold stripGroup
  split
  · rename_i inside found
    have heq := trailingGroup?_eq_some found
    exact absurd ⟨inside, isBalanced_of_trailingGroup? found, by simpa using heq⟩ h
  · rfl

section Spellings

variable {command arguments : List Char} (ne : command ≠ []) (balanced : IsBalanced command)
  (unbroken : IsUnbroken command)

include ne unbroken

/-- Nothing is trimmed off a command with something behind it. -/
theorem trim_command_append (rest : List Char) {d : Char} (hd : ¬ isBlank d) :
    trim (command ++ (rest ++ [d])) = command ++ (rest ++ [d]) := by
  obtain ⟨c, command, rfl⟩ := List.exists_cons_of_ne_nil ne
  have hc : ¬ isBlank c := unbroken.not_isBlank (List.nil_append _).symm rfl
  simpa using trim_eq_self hc hd (command ++ rest)

include balanced

/-- Arguments behind a blank. -/
theorem separate_blank (rest : List Char) {d : Char} (hd : ¬ isBlank d) :
    separate (command ++ ' ' :: (rest ++ [d])) = (command, stripGroup (trim (rest ++ [d]))) := by
  have row : trim (command ++ ' ' :: (rest ++ [d])) = command ++ ' ' :: (rest ++ [d]) :=
    trim_command_append ne unbroken (' ' :: rest) hd
  have blank : isBlank ' ' := rfl
  have cut : cutOutside? isBlank 0 (command ++ ' ' :: (rest ++ [d])) =
      some (command, ' ' :: (rest ++ [d])) := by
    rw [balanced.cutOutside?_append unbroken]
    simp [cutOutside?, blank]
  have front : trim ([' '] ++ (rest ++ [d])) = trim (rest ++ [d]) :=
    trim_append_of_isBlank (by simpa using blank)
  rw [List.singleton_append] at front
  rw [separate, row]
  simp only [cut, front, unbroken.trimEnd_eq balanced]

/-- Arguments in parentheses right behind the command. -/
theorem separate_group (inner : IsBalanced arguments) :
    separate (command ++ '(' :: (arguments ++ [')'])) = (command, trim arguments) := by
  have row : trim (command ++ '(' :: (arguments ++ [')'])) =
      command ++ '(' :: (arguments ++ [')']) :=
    trim_command_append ne unbroken ('(' :: arguments) (by decide)
  have cut : cutOutside? isBlank 0 (command ++ '(' :: (arguments ++ [')'])) = none := by
    rw [balanced.cutOutside?_append unbroken, inner.cutOutside?_group]
    rfl
  have found := inner.trailingGroup?_append command
  have whole := unbroken.trimEnd_eq balanced
  rw [separate, row]
  simp only [cut, found]
  cases command with
  | nil => exact absurd rfl ne
  | cons c command => simp only [whole]

/-- A command and its arguments are told apart in each of the three spellings: with the arguments
behind a blank, in parentheses, and in parentheses behind a blank. -/
theorem separate_spellings (nonempty : arguments ≠ []) (trimmed : trim arguments = arguments)
    (inner : IsBalanced arguments) (single : ¬ IsGroup arguments) :
    separate (command ++ ' ' :: arguments) = (command, arguments) ∧
      separate (command ++ '(' :: (arguments ++ [')'])) = (command, arguments) ∧
      separate (command ++ ' ' :: '(' :: (arguments ++ [')'])) = (command, arguments) := by
  refine ⟨?_, ?_, ?_⟩
  · obtain ⟨rest, d, heq⟩ := (List.eq_nil_or_concat' arguments).resolve_left nonempty
    have hd : ¬ isBlank d := not_isBlank_of_trim_eq (trimmed.trans heq)
    rw [heq, separate_blank ne balanced unbroken rest hd, ← heq, trimmed,
      stripGroup_of_not_isGroup single]
  · rw [separate_group ne balanced unbroken inner, trimmed]
  · have apart : separate (command ++ ' ' :: '(' :: (arguments ++ [')'])) =
        (command, stripGroup (trim ('(' :: arguments ++ [')']))) :=
      separate_blank ne balanced unbroken ('(' :: arguments) (by decide)
    rw [apart, trim_group, List.cons_append, stripGroup_group inner, trimmed]

end Spellings

/-- Groups of their own, with a blank in them, in the command and in the arguments. -/
theorem separate_spellings_indexed :
    let command := "Structure.Rail( (0) ).Load".toList
    let arguments := "(a b).x (c)".toList
    separate (command ++ ' ' :: arguments) = (command, arguments) ∧
      separate (command ++ '(' :: (arguments ++ [')'])) = (command, arguments) ∧
      separate (command ++ ' ' :: '(' :: (arguments ++ [')'])) = (command, arguments) := by
  refine separate_spellings (by decide) (by decide) (by decide) (by decide) (by decide)
    (by decide) ?_
  rintro ⟨inside, balanced, heq⟩
  -- The parenthesis in front is closed ahead of the end.
  have split : "a b).x (c".toList ++ [')'] = inside ++ [')'] := (List.cons.inj heq).2
  obtain rfl := List.append_cancel_right split
  exact absurd balanced (by decide)

end Source

end RailRoute
