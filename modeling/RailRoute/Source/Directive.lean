import RailRoute.Text.Basic

/-!
# Directives

A directive is a dollar sign, a name in any case, and an argument in parentheses. Inline directives
stand inside an expression and are replaced by their values; block directives are expressions of
their own, and so are the definitions of substitutions. This module only recognizes them.

Names are matched by the simple case folding of Unicode, under which a long s is an s as well. They
are then told apart by their ASCII letters alone; a name that only folding makes one of the list
counts as the last of the list.
-/

namespace RailRoute.Source

/-- Whether a character is a given lower-case letter up to case. -/
def foldsTo (letter c : Char) : Bool := c.toLower = letter || (letter = 's' && c = 'ſ')

/-- Splits off a word at the beginning of the text, in any case. -/
def takeWord? : List Char → List Char → Option (List Char × List Char)
  | [], cs => some ([], cs)
  | letter :: w, c :: cs =>
    if foldsTo letter c then (takeWord? w cs).map fun x => (c :: x.1, x.2) else none
  | _ :: _, [] => none

/-- Splits off the first of the words that the text begins with. -/
def takeOneOf? (words : List String) (cs : List Char) : Option (List Char × List Char) :=
  words.findSome? fun w => takeWord? w.toList cs

/-- The name of a directive at the beginning of the text, as it is written, and what follows its
opening parenthesis. -/
def directiveHead? (names : List String) : List Char → Option (List Char × List Char)
  | '$' :: cs =>
    match takeOneOf? names cs with
    | some (name, r) =>
      match Text.trimStart r with
      | '(' :: inside => some (name, inside)
      | _ => none
    | none => none
  | _ => none

/-! ## Inline directives -/

/-- What an inline directive computes. -/
inductive InlineName where
  | character
  | random
  | substitution
  deriving DecidableEq, Repr

/-- What the name of an inline directive stands for. -/
def InlineName.ofWritten (written : List Char) : InlineName :=
  if Text.lower written = "chr".toList then .character
  else if Text.lower written = "rnd".toList then .random
  else .substitution

/-- The first inline directive of a text. -/
inductive InlineScan where
  | absent
  /-- The directive is not closed by a parenthesis. -/
  | unclosed (written : List Char)
  | found (before written inside rest : List Char)
  deriving DecidableEq, Repr

/-- The text before the first inline directive, the name of the directive, and what follows its
opening parenthesis. -/
def findInline? : List Char → Option (List Char × List Char × List Char)
  | [] => none
  | c :: r =>
    match directiveHead? ["chr", "rnd", "sub"] (c :: r) with
    | some (name, inside) => some ([], name, inside)
    | none => (findInline? r).map fun x => (c :: x.1, x.2)

/-- Looks for the first inline directive of a text. -/
def scanInline (cs : List Char) : InlineScan :=
  match findInline? cs with
  | none => .absent
  | some (before, written, inside) =>
    match Text.closeGroup? 0 inside with
    | none => .unclosed written
    | some (argument, rest) => .found before written argument rest

/-! ## Block directives -/

/-- What a block directive does. -/
inductive BlockName where
  | openIf
  | openElse
  | closeIf
  | includeFile
  deriving DecidableEq, Repr

/-- What the name of a block directive stands for. -/
def BlockName.ofWritten (written : List Char) : BlockName :=
  if Text.lower written = "if".toList then .openIf
  else if Text.lower written = "else".toList then .openElse
  else if Text.lower written = "endif".toList then .closeIf
  else .includeFile

/-- A text read as a block directive. -/
inductive BlockScan where
  | absent
  /-- No parenthesis closes the directive at the end of the text. -/
  | unclosed (written : List Char)
  | found (name : BlockName) (inside : List Char)
  deriving DecidableEq, Repr

/-- Reads a trimmed text as a block directive. -/
def scanBlock (cs : List Char) : BlockScan :=
  match directiveHead? ["if", "else", "endif", "include"] cs with
  | none => .absent
  | some (written, inside) =>
    match Text.closeGroup? 0 inside with
    | some (argument, rest) =>
      if (Text.trim rest).isEmpty then .found (.ofWritten written) argument else .unclosed written
    | none => .unclosed written

/-! ## Definitions of substitutions -/

/-- Whether a character is a parenthesis. -/
def isParenthesis (c : Char) : Bool := c = '(' || c = ')'

/-- Reads a trimmed text as `$Sub(index) = value`; the value must not contain a line feed. -/
def definition? (cs : List Char) : Option (List Char × List Char) :=
  match directiveHead? ["sub"] cs with
  | none => none
  | some (_, inside) =>
    match inside.dropWhile (!isParenthesis ·) with
    | ')' :: r =>
      match Text.trimStart r with
      | '=' :: value =>
        if value.contains '\n' then none
        else some (inside.takeWhile (!isParenthesis ·), Text.trim value)
      | _ => none
    | _ => none

/-! ## Sizes -/

theorem takeWord?_length {w cs a b : List Char} (h : takeWord? w cs = some (a, b)) :
    b.length ≤ cs.length := by
  induction w generalizing cs a with
  | nil => simp_all [takeWord?]
  | cons l w ih =>
    cases cs with
    | nil => simp [takeWord?] at h
    | cons c cs =>
      simp only [takeWord?] at h
      split at h
      · obtain ⟨x, hx, hxy⟩ := Option.map_eq_some_iff.1 h
        cases hxy
        exact Nat.le_succ_of_le (ih hx)
      · cases h

theorem directiveHead?_length {names : List String} {cs a b : List Char}
    (h : directiveHead? names cs = some (a, b)) : b.length < cs.length := by
  unfold directiveHead? at h
  split at h
  · next r =>
    split at h
    · next name tail hw =>
      split at h
      · next inside ht =>
        cases h
        obtain ⟨w, _, hw⟩ := List.exists_of_findSome?_eq_some hw
        have h₁ := takeWord?_length hw
        have h₂ : (Text.trimStart tail).length ≤ tail.length := (List.dropWhile_suffix _).length_le
        rw [ht] at h₂
        simp only [List.length_cons] at h₂ ⊢
        omega
      · cases h
    · cases h
  · cases h

theorem findInline?_length {cs a b c : List Char} (h : findInline? cs = some (a, b, c)) :
    c.length < cs.length := by
  induction cs generalizing a with
  | nil => simp [findInline?] at h
  | cons x r ih =>
    simp only [findInline?] at h
    split at h
    · next hd =>
      cases h
      exact directiveHead?_length hd
    · obtain ⟨⟨y₁, y₂, y₃⟩, hy, hyz⟩ := Option.map_eq_some_iff.1 h
      cases hyz
      exact Nat.lt_succ_of_lt (ih hy)

theorem closeGroup?_length {depth : Nat} {cs a b : List Char}
    (h : Text.closeGroup? depth cs = some (a, b)) : a.length + b.length < cs.length := by
  induction cs generalizing depth a with
  | nil => simp [Text.closeGroup?] at h
  | cons c r ih =>
    simp only [Text.closeGroup?] at h
    split at h
    · obtain ⟨x, hx, hxy⟩ := Option.map_eq_some_iff.1 h
      cases hxy
      have := ih hx
      simp only [List.length_cons]
      omega
    · split at h
      · split at h
        · cases h
          simp
        · obtain ⟨x, hx, hxy⟩ := Option.map_eq_some_iff.1 h
          cases hxy
          have := ih hx
          simp only [List.length_cons]
          omega
      · obtain ⟨x, hx, hxy⟩ := Option.map_eq_some_iff.1 h
        cases hxy
        have := ih hx
        simp only [List.length_cons]
        omega

/-- The argument of a directive and what follows the directive are together shorter than the text
it was found in. -/
theorem scanInline_length {cs before written inside rest : List Char}
    (h : scanInline cs = .found before written inside rest) :
    inside.length + rest.length < cs.length := by
  unfold scanInline at h
  split at h
  · cases h
  · next hf =>
    split at h
    · cases h
    · next hc =>
      cases h
      have h₁ := findInline?_length hf
      have h₂ := closeGroup?_length hc
      omega

end RailRoute.Source
