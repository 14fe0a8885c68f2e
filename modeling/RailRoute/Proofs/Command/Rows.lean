import Mathlib
import RailRoute.Proofs.Arithmetic
import RailRoute.Proofs.Command.Spelling

/-!
# Rows of RW

A row `key = value` means what a command of CSV means: in the section of the signals and in that of
the cycles the key is an index, and in the section of the objects it is the name of a kind with an
index. Main statement: `interpret_row`.
-/

namespace RailRoute

open Text Source

/-! ## Numbers -/

section Digits

variable {n : List Char}

/-- A run of digits. -/
structure IsNumeral (n : List Char) : Prop where
  ne : n ≠ []
  digits : ∀ c ∈ n, isDigit c

namespace IsNumeral

theorem solid (h : IsNumeral n) : ∀ c ∈ n, ¬ isBlank c :=
  fun c hc hb => (isForeign_of_isBlank hb).1 (h.digits c hc)

theorem not_mem {c : Char} (h : IsNumeral n) (hc : ¬ isDigit c) : c ∉ n :=
  fun hmem => hc (h.digits c hmem)

theorem isPlain (h : IsNumeral n) : Text.IsPlain n := by
  rintro c hc
  constructor <;> rintro rfl <;> exact h.not_mem (by decide) hc

theorem trim_eq (h : IsNumeral n) : trim n = n := by
  have start : trimStart n = n := List.dropWhile_eq_self_iff.2 fun hlt =>
    h.solid _ (List.getElem_mem hlt)
  rw [trim, start, trimEnd_eq_self h.solid]

theorem isSome_parseNumber {R : Type} [Scalar R] (h : IsNumeral n) :
    (parseNumber n : Option R).isSome := by
  have whole : leadingDigits n = n := List.takeWhile_eq_self_iff.2 h.digits
  have rest : afterDigits n = [] := List.dropWhile_eq_nil_iff.2 h.digits
  have unsigned : takeSign n = (false, n) := by
    unfold takeSign
    split
    · exact absurd (List.mem_cons_self ..) (h.not_mem (by decide))
    · exact absurd (List.mem_cons_self ..) (h.not_mem (by decide))
    · rfl
  have number : takeNumber n = some (⟨false, digitsValue n, 0⟩, []) := by
    simp [takeNumber, unsigned, whole, rest, takeFraction, takeExponent, h.ne]
  rw [parseNumber, h.trim_eq, number]
  rfl

end IsNumeral

end Digits

/-! ## Rows -/

/-- What a row has in front of its `=`: a key in one piece. -/
structure IsKey (key : List Char) : Prop where
  start : ∃ c inner, key = c :: inner ∧ c ≠ '@' ∧ ¬ isBlank c
  trimmed : trim key = key
  uncut : ∀ rest, cutOutside? (· = '=') 0 (key ++ ' ' :: '=' :: rest) =
    some (key ++ [' '], '=' :: rest)

theorem isBlank_space : isBlank ' ' := rfl

theorem rowText_of_isKey {key : List Char} (h : IsKey key) {v : List Char} (hv : trim v = v)
    (ne : v ≠ []) (R : Type) [Scalar R] (heading : List Char) (alwaysPrefixed : Bool) :
    rowText R heading alwaysPrefixed (key ++ ' ' :: '=' :: ' ' :: v) =
      rowKey R heading alwaysPrefixed key ++ ' ' :: v := by
  obtain ⟨c, inner, rfl, hat, hc⟩ := h.start
  obtain ⟨front, z, rfl⟩ := (List.eq_nil_or_concat' v).resolve_left ne
  have hz : ¬ isBlank z := not_isBlank_of_trim_eq hv
  have row : trim (c :: inner ++ ' ' :: '=' :: ' ' :: (front ++ [z])) =
      c :: (inner ++ ' ' :: '=' :: ' ' :: (front ++ [z])) := by
    have whole := trim_eq_self hc hz (inner ++ ' ' :: '=' :: ' ' :: front)
    simpa using whole
  have key : trim (c :: (inner ++ [' '])) = c :: inner := by
    have blank : ∀ d ∈ [' '], isBlank d := by simp [isBlank_space]
    have start : trimStart (c :: (inner ++ [' '])) = trimStart (c :: inner) ++ [' '] := by
      simp [trimStart, hc]
    rw [trim, start, trimEnd_append_of_isBlank blank]
    exact h.trimmed
  have value : trim (' ' :: (front ++ [z])) = front ++ [z] := by
    rw [← List.singleton_append, trim_append_of_isBlank (by simp [isBlank_space]), hv]
  have cut := h.uncut (' ' :: (front ++ [z]))
  rw [List.cons_append] at cut
  unfold rowText
  rw [row]
  split
  · rename_i marked
    exact absurd (List.cons.inj marked).1 hat
  · dsimp only
    rw [cut]
    simp [key, value]

theorem IsNumeral.isKey {n : List Char} (h : IsNumeral n) : IsKey n := by
  obtain ⟨c, inner, rfl⟩ := List.exists_cons_of_ne_nil h.ne
  refine ⟨⟨c, inner, rfl, ?_, h.solid c (List.mem_cons_self ..)⟩, h.trim_eq, fun rest => ?_⟩
  · rintro rfl
    exact h.not_mem (by decide) (List.mem_cons_self ..)
  · have apart : ∀ d ∈ c :: inner, ¬ (d = '=' : Bool) := fun d hd heq =>
      h.not_mem (c := '=') (by decide) (of_decide_eq_true heq ▸ hd)
    rw [cutOutside?_append h.isPlain apart]
    simp [cutOutside?]

/-- How a row is written as a command. -/
theorem ofRow_eq {R : Type} [Scalar R] {key v : List Char} (h : IsKey key) (hv : trim v = v)
    (ne : v ≠ []) (heading : String) (alwaysPrefixed : Bool) (location : Location) :
    Expression.ofRow R heading alwaysPrefixed
        ⟨location, String.ofList (key ++ ' ' :: '=' :: ' ' :: v)⟩ =
      ⟨location, String.ofList (rowKey R heading.toList alwaysPrefixed key ++ ' ' :: v)⟩ := by
  rw [Expression.ofRow, String.toList_ofList, rowText_of_isKey h hv ne]

theorem IsName.isKey {name n : List Char} (h : IsName name) (ne : name ≠ []) (hn : IsNumeral n) :
    IsKey (grouped name n []) := by
  obtain ⟨c, inner, rfl⟩ := List.exists_cons_of_ne_nil ne
  have solid := h.solid c (List.mem_cons_self ..)
  refine ⟨⟨c, inner ++ '(' :: (n ++ [')']), rfl, h.cons_ne.2, solid⟩, ?_, fun rest => ?_⟩
  · have whole := trim_eq_self solid (by decide : ¬ isBlank ')') (inner ++ '(' :: n)
    simpa [grouped] using whole
  · have apart : ∀ d ∈ c :: inner, ¬ (d = '=' : Bool) := fun d hd heq =>
      h.not_mem (c := '=') (by decide) (by decide) (of_decide_eq_true heq ▸ hd)
    have text : grouped (c :: inner) n [] ++ ' ' :: '=' :: rest =
        (c :: inner) ++ '(' :: (n ++ ')' :: ' ' :: '=' :: rest) := by simp [grouped]
    rw [text, cutOutside?_append h.isPlain apart]
    simp [cutOutside?, cutOutside?_append_of_depth hn.isPlain, grouped]

/-! ## Kinds of rows -/

/-- What the rows of a section are about. -/
inductive RowKind where
  | signal
  | cycle
  /-- An object, with the name of its kind as it is written. -/
  | object (kind : StructureKind) (name : List Char) (spelled : sameWord name kind.name.toList)

namespace RowKind

/-- The header of the section. -/
def header : RowKind → String
  | signal => "Signal"
  | cycle => "Cycle"
  | object .. => "Object"

/-- The namespace that the section stands for. -/
def root : RowKind → String
  | signal => "Signal"
  | cycle => "Cycle"
  | object .. => "Structure"

/-- The key of a row about a number. -/
def key (n : List Char) : RowKind → List Char
  | signal | cycle => n
  | object _ name _ => grouped name n []

/-- What stands before the number when the row is written as a command. -/
def rowHead : RowKind → List Char
  | signal => ".Void".toList
  | cycle => ".Ground".toList
  | object _ name _ => name

/-- What stands before the number in the command of CSV. -/
def commandHead : RowKind → List Char
  | signal => "Signal".toList
  | cycle => "Cycle.Ground".toList
  | object _ name _ => "Structure.".toList ++ name

/-- What stands behind the number in the command of CSV. -/
def commandTail : RowKind → List Char
  | signal => ".Load".toList
  | cycle => ".Params".toList
  | object .. => []

/-- The command of CSV about a number. -/
def command (n : List Char) (kind : RowKind) : List Char :=
  grouped kind.commandHead n kind.commandTail

theorem lower_name {kind : StructureKind} {w : List Char} (h : sameWord w kind.name.toList) :
    lower w = kind.name.toList := by
  have fixed : lower kind.name.toList = kind.name.toList := by cases kind <;> decide
  exact (eq_of_beq h).trans fixed

theorem lower_append (v w : List Char) : lower (v ++ w) = lower v ++ lower w := List.map_append

theorem isName_rowHead (kind : RowKind) : IsName kind.rowHead ∧ kind.rowHead ≠ [] := by
  cases kind with
  | signal => exact (by decide : IsName ".Void".toList ∧ ".Void".toList ≠ [])
  | cycle => exact (by decide : IsName ".Ground".toList ∧ ".Ground".toList ≠ [])
  | object kind name spelled =>
    have same := lower_name spelled
    constructor
    · change (lower name).all isNameChar
      rw [same]
      cases kind <;> decide
    · rintro rfl
      revert same
      cases kind <;> decide

theorem isName_commandHead (kind : RowKind) :
    IsName kind.commandHead ∧ kind.commandHead ≠ [] := by
  cases kind with
  | signal => exact (by decide : IsName "Signal".toList ∧ "Signal".toList ≠ [])
  | cycle => exact (by decide : IsName "Cycle.Ground".toList ∧ "Cycle.Ground".toList ≠ [])
  | object kind name spelled =>
    constructor
    · change (lower ("Structure.".toList ++ name)).all isNameChar
      rw [lower_append, lower_name spelled]
      cases kind <;> decide
    · exact List.append_ne_nil_of_left_ne_nil (by decide) name

theorem isName_commandTail (kind : RowKind) : IsName kind.commandTail := by
  cases kind with
  | signal => exact (by decide : IsName ".Load".toList)
  | cycle => exact (by decide : IsName ".Params".toList)
  | object kind name spelled => exact (by decide : IsName [])

theorem alwaysPrefixed_ofHeader (header : String) :
    (Scope.ofHeader header).alwaysPrefixed = true := by
  unfold Scope.ofHeader
  split_ifs <;> rfl

/-- The scope behind a header depends on the letters of the header up to case. -/
theorem lower_ofHeader {header header' : String}
    (h : lower header.toList = lower header'.toList) :
    lower (Scope.ofHeader header).heading.toList =
      lower (Scope.ofHeader header').heading.toList := by
  have same (w : List Char) : sameWord header.toList w = sameWord header'.toList w := by
    rw [sameWord, sameWord, h]
  simp only [Scope.ofHeader, same]
  split_ifs
  · rfl
  · rfl
  · exact h

variable (kind : RowKind) {header : String} (hheader : sameWord header.toList kind.header.toList)
  {n : List Char} (hn : IsNumeral n)

include hheader in
theorem lower_heading : lower (Scope.ofHeader header).heading.toList = lower kind.root.toList := by
  rw [lower_ofHeader (eq_of_beq hheader)]
  cases kind with
  | signal =>
    exact (by decide : lower (Scope.ofHeader "Signal").heading.toList = lower "Signal".toList)
  | cycle =>
    exact (by decide : lower (Scope.ofHeader "Cycle").heading.toList = lower "Cycle".toList)
  | object kind name spelled =>
    exact (by decide : lower (Scope.ofHeader "Object").heading.toList = lower "Structure".toList)

include hn in
theorem isKey : IsKey (kind.key n) := by
  cases kind with
  | signal => exact hn.isKey
  | cycle => exact hn.isKey
  | object kind name spelled =>
    have h := (object kind name spelled).isName_rowHead
    exact h.1.isKey h.2 hn

include hheader hn in
theorem rowKey_eq (R : Type) [Scalar R] :
    rowKey R (Scope.ofHeader header).heading.toList true (kind.key n) =
      grouped kind.rowHead n [] := by
  have same := lower_heading kind hheader
  rw [rowKey, sameWord, sameWord, same, Bool.true_and]
  cases kind with
  | signal =>
    have cycle : (lower "Signal".toList == lower "cycle".toList) = false := by decide
    have signal : (lower "Signal".toList == lower "signal".toList) = true := by decide
    change (if (parseNumber n : Option R).isSome then
      if lower "Signal".toList == lower "cycle".toList then _ else
        if lower "Signal".toList == lower "signal".toList then _ else _ else _) = _
    rw [cycle, signal, hn.isSome_parseNumber]
    rfl
  | cycle =>
    have cycle : (lower "Cycle".toList == lower "cycle".toList) = true := by decide
    change (if (parseNumber n : Option R).isSome then
      if lower "Cycle".toList == lower "cycle".toList then _ else _ else _) = _
    rw [cycle, hn.isSome_parseNumber]
    rfl
  | object kind name spelled =>
    have cycle : (lower "Structure".toList == lower "cycle".toList) = false := by decide
    have signal : (lower "Structure".toList == lower "signal".toList) = false := by decide
    change (if _ then if lower "Structure".toList == lower "cycle".toList then _ else
      if lower "Structure".toList == lower "signal".toList then _ else _ else _) = _
    rw [cycle, signal]
    simp only [Bool.false_eq_true, if_false, ite_self]
    rfl

include hheader in
/-- Both spellings are brought to the one that the tables know. -/
theorem canonical_row :
    Alias.canonical (prefixed (Scope.ofHeader header) (grouped kind.rowHead n [])) =
      Alias.canonical (prefixed .initial (kind.command n)) := by
  have heading := lower_heading kind hheader
  have scope (command : List Char) : prefixed (Scope.ofHeader header) command =
      prefixed ⟨kind.root, true⟩ command :=
    prefixed_congr heading (alwaysPrefixed_ofHeader header) rfl
  rw [scope]
  cases kind with
  | signal =>
    have row : Alias.canonical (prefixed ⟨"Signal", true⟩ (grouped ".Void".toList n [])) =
        grouped "signal".toList (erase ".void".toList (lower n)) [] :=
      canonical_prefixed (by decide) (by decide) (by decide) (by decide) (by decide)
    have command : Alias.canonical (prefixed .initial (grouped "Signal".toList n ".Load".toList)) =
        grouped "signal".toList (erase ".void".toList (lower n)) [] :=
      canonical_prefixed (by decide) (by decide) (by decide) (by decide) (by decide)
    exact row.trans command.symm
  | cycle =>
    have row : Alias.canonical (prefixed ⟨"Cycle", true⟩ (grouped ".Ground".toList n [])) =
        grouped "cycle.ground".toList (erase ".void".toList (lower n)) [] :=
      canonical_prefixed (by decide) (by decide) (by decide) (by decide) (by decide)
    have command :
        Alias.canonical (prefixed .initial (grouped "Cycle.Ground".toList n ".Params".toList)) =
          grouped "cycle.ground".toList (erase ".void".toList (lower n)) [] :=
      canonical_prefixed (by decide) (by decide) (by decide) (by decide) (by decide)
    exact row.trans command.symm
  | object kind name spelled =>
    have same : lower name = lower kind.name.toList := eq_of_beq spelled
    have head : prefixed ⟨"Structure", true⟩ name =
        prefixed .initial ("Structure.".toList ++ name) :=
      calc prefixed ⟨"Structure", true⟩ name
          = prefixed ⟨"Structure", true⟩ kind.name.toList := prefixed_congr rfl rfl same
        _ = prefixed .initial ("Structure.".toList ++ kind.name.toList) := by
          cases kind <;> decide
        _ = prefixed .initial ("Structure.".toList ++ name) :=
          prefixed_congr rfl rfl (by rw [lower_append, lower_append, same])
    have row := (object kind name spelled).isName_rowHead.2
    have command := (object kind name spelled).isName_commandHead.2
    have rooted : '(' ∉ lower "Structure".toList := by decide
    have unrooted : '(' ∉ lower Scope.initial.heading.toList := by decide
    refine congrArg Alias.canonical ?_
    exact (prefixed_grouped rooted row).trans
      ((congrArg (grouped · _ _) head).trans (prefixed_grouped unrooted command).symm)

end RowKind

/-- A row means what the command of CSV about the same number means, whatever the value is. -/
theorem interpret_row {R : Type} [Scalar R] (kind : RowKind) {header : String}
    (hheader : sameWord header.toList kind.header.toList) {n v : List Char} (hn : IsNumeral n)
    (hv : trim v = v) (ne : v ≠ []) (dialect : Dialect) (factors : List R)
    (location location' : Location) :
    let s := Scope.ofHeader header
    let row : Expression := ⟨location, String.ofList (kind.key n ++ ' ' :: '=' :: ' ' :: v)⟩
    interpret .rw factors s (row.ofRow R s.heading s.alwaysPrefixed) =
      interpret dialect factors .initial
        ⟨location', String.ofList (kind.command n ++ ' ' :: v)⟩ := by
  intro s row
  have nonblank : trim v ≠ [] := by rwa [hv]
  have text : row.ofRow R s.heading s.alwaysPrefixed =
      ⟨location, String.ofList (grouped kind.rowHead n [] ++ ' ' :: v)⟩ := by
    rw [RowKind.alwaysPrefixed_ofHeader, ofRow_eq (kind.isKey hn) hv ne,
      kind.rowKey_eq hheader hn]
  rw [text, RowKind.command,
    interpret_grouped kind.isName_rowHead.1 kind.isName_rowHead.2 hn.isPlain (by decide) nonblank,
    interpret_grouped kind.isName_commandHead.1 kind.isName_commandHead.2 hn.isPlain
      kind.isName_commandTail nonblank, readCommand_congr (kind.canonical_row hheader)]
  rfl

/-- A signal of which the value has an equals sign of its own. -/
theorem interpret_row_signal :
    let s := Scope.ofHeader "SIGNAL"
    let row : Expression := ⟨⟨"", 1, 1⟩, "7 = a=b;c"⟩
    let command : Expression := ⟨⟨"", 2, 1⟩, "Signal(7).Load a=b;c"⟩
    (sameWord "SIGNAL".toList "Signal".toList ∧ IsNumeral "7".toList ∧
        trim "a=b;c".toList = "a=b;c".toList ∧ "a=b;c".toList ≠ []) ∧
      interpret .rw ([1] : List ℚ) s (row.ofRow ℚ s.heading s.alwaysPrefixed) =
        interpret .csv ([1] : List ℚ) .initial command := by
  intro s row command
  have header : sameWord "SIGNAL".toList "Signal".toList := by decide
  have number : IsNumeral "7".toList :=
    ⟨by decide, List.all_eq_true.1 (by decide : "7".toList.all isDigit)⟩
  have trimmed : trim "a=b;c".toList = "a=b;c".toList := by decide
  have rowText : "7 = a=b;c" = String.ofList (RowKind.signal.key "7".toList ++
    ' ' :: '=' :: ' ' :: "a=b;c".toList) := by decide
  have commandText : "Signal(7).Load a=b;c" = String.ofList (RowKind.signal.command "7".toList ++
    ' ' :: "a=b;c".toList) := by decide
  refine ⟨⟨header, number, trimmed, by decide⟩, ?_⟩
  have means := interpret_row (R := ℚ) .signal header number trimmed (by decide) .csv [1]
    ⟨"", 1, 1⟩ ⟨"", 2, 1⟩
  rw [← rowText, ← commandText] at means
  exact means

end RailRoute
