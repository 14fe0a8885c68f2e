import Mathlib
import RailRoute.Proofs.Arithmetic
import RailRoute.Proofs.Command.Spelling
import RailRoute.Tables.Structures

/-!
# The suffix of registrations

Commands that register a signal, an object, a pole or a background may end in `.load` behind their
indices. The tables of older spellings drop the suffix under the root of the structures, of signals
and of backgrounds; under the root of the textures it becomes a part of the name, and `back` is a
background only with the suffix. Main statement: `interpret_load_iff`.
-/

namespace RailRoute

open Text

/-! ## Reading around equal groups -/

section Reading

variable (R : Type) [Scalar R]

/-- The command is only named in problems: what the indices are does not depend on it. -/
theorem exists_readIndices_eq (texts : List (List Char)) :
    ∃ x : Except String (List Int), ∀ command, readIndices R command texts =
      x.mapError fun text => .badIndex text (String.ofList command) := by
  induction texts with
  | nil => exact ⟨.ok [], fun _ => rfl⟩
  | cons text texts ih =>
    obtain ⟨x, hx⟩ := ih
    cases ht : Source.parseInt R text with
    | none =>
      refine ⟨.error (String.ofList (trim text)), fun command => ?_⟩
      rw [readIndices, ht]
      rfl
    | some i =>
      refine ⟨x.map (i :: ·), fun command => ?_⟩
      rw [readIndices, ht, hx]
      cases x <;> rfl

/-- The root and the name in a spelling without indices. -/
def rootAndName (spelling : List Char) : String × String :=
  let name := match cutAt? (· = '.') spelling with
    | some (root, rest) => (root, rest.drop 1)
    | none => ([], spelling)
  (if "signal".toList.isPrefixOf name.1 then "" else String.ofList name.1, String.ofList name.2)

variable {R}

theorem grouped_inj {head inside tail head' tail' : List Char} (hhead : '(' ∉ head')
    (hinside : '(' ∉ inside) (htail : '(' ∉ tail')
    (h : grouped head inside tail = grouped head' inside tail') : head = head' ∧ tail = tail' := by
  have closed : '(' ∉ inside ++ ')' :: tail' := by simp [hinside, htail]
  obtain ⟨hheads, -, htails⟩ := (List.append_cons_inj_of_notMem hhead closed).1 h.symm
  exact ⟨hheads.symm, (List.cons.inj (List.append_cancel_left htails)).2.symm⟩

/-- Spellings with the same indices and different names are told apart, also where the indices
cannot be read. -/
theorem readCommand_ne {s : Scope} {c c' head inside tail head' tail' : List Char}
    (hc : Alias.canonical (prefixed s c) = grouped head inside tail)
    (hc' : Alias.canonical (prefixed s c') = grouped head' inside tail')
    (hhead : '(' ∉ head) (hhead' : '(' ∉ head') (hinside : IsPlain inside) (htail' : '(' ∉ tail')
    (ne : rootAndName (head ++ trim tail) ≠ rootAndName (head' ++ trim tail'))
    (raw : List Char) : readCommand R s c raw ≠ readCommand R s c' raw := by
  have hopen : '(' ∉ inside := fun h => (hinside _ h).1 rfl
  have hclose : ')' ∉ inside := fun h => (hinside _ h).2 rfl
  obtain ⟨x, hx⟩ := exists_readIndices_eq R (parts (· = ';') inside)
  intro heq
  rw [readCommand, readCommand, hc, hc', takeIndices_grouped hhead hclose,
    takeIndices_grouped hhead' hclose, hx, hx] at heq
  cases x with
  | error text =>
    have named := (Problem.badIndex.inj (Except.error.inj heq)).2
    obtain ⟨rfl, rfl⟩ := grouped_inj hhead' hopen htail' (String.ofList_injective named)
    exact ne rfl
  | ok indices =>
    have same := Except.ok.inj heq
    exact ne (Prod.ext (congrArg Command.root same) (congrArg Command.name same))

omit [Scalar R] in
theorem map_command_injective : Function.Injective
    (Except.map .command : Except Problem Command → Except Problem (Interpretation R)) := by
  rintro (p | c) (p' | c') h <;> cases h <;> rfl

end Reading

/-! ## Registrations -/

/-- The two roots that objects are registered under. -/
inductive AssetRoot where
  | structures
  | textures
  deriving DecidableEq

/-- The root as it is written. -/
def AssetRoot.name : AssetRoot → List Char
  | structures => "structure".toList
  | textures => "texture".toList

/-- The commands that register something under an index. -/
inductive Registration where
  | signal
  | object (root : AssetRoot) (kind : StructureKind)
  | pole (root : AssetRoot)
  | background (root : AssetRoot)
  | back (root : AssetRoot)

namespace Registration

/-- What stands before the indices. -/
def head : Registration → List Char
  | signal => "signal".toList
  | object root kind => root.name ++ '.' :: kind.name.toList
  | pole root => root.name ++ ".pole".toList
  | background root => root.name ++ ".background".toList
  | back root => root.name ++ ".back".toList

/-- Whether the command means the same with and without the suffix. -/
def loadIsOptional : Registration → Bool
  | signal | background _ => true
  | object root _ | pole root => root = .structures
  | back _ => false

/-- What stands before and behind the indices in the spelling that the tables know of the command
without the suffix. -/
def bare : Registration → List Char × List Char
  | signal => ("signal".toList, [])
  | object _ kind => ("structure.".toList ++ kind.name.toList, [])
  | pole _ => ("structure.pole".toList, [])
  | background _ => ("structure.background".toList, [])
  | back _ => ("structure.back".toList, [])

/-- What stands before and behind the indices in the spelling that the tables know of the command
with the suffix. -/
def loaded : Registration → List Char × List Char
  | back .structures => ("structure.background".toList, [])
  | r => (r.bare.1, if r.loadIsOptional then [] else ".load".toList)

/-- All registrations. -/
def all : List Registration :=
  signal :: [AssetRoot.structures, .textures].flatMap fun root =>
    pole root :: background root :: back root :: StructureKind.all.map (object root)

theorem mem_all (r : Registration) : r ∈ all := by
  have root (s : AssetRoot) : s ∈ [AssetRoot.structures, .textures] := by cases s <;> simp
  cases r with
  | signal => exact List.mem_cons_self ..
  | object s kind =>
    have listed : kind ∈ StructureKind.all := by cases kind <;> simp [StructureKind.all]
    exact List.mem_cons_of_mem _ (List.mem_flatMap.2 ⟨s, root s, by simp [listed]⟩)
  | pole s | background s | back s =>
    exact List.mem_cons_of_mem _ (List.mem_flatMap.2 ⟨s, root s, by simp⟩)

/-- What can be computed of one registration can be checked for all of them. -/
instance {p : Registration → Prop} [DecidablePred p] : Decidable (∀ r, p r) :=
  decidable_of_iff (∀ r ∈ all, p r) ⟨fun h r => h r r.mem_all, fun h r _ => h r⟩

theorem lower_head : ∀ r : Registration, lower r.head = r.head := by decide

theorem isName_head : ∀ r : Registration, IsName r.head := by decide

theorem head_ne : ∀ r : Registration, r.head ≠ [] := by decide

/-- How the tables know the command without the suffix. -/
theorem canonical_bare : ∀ r : Registration,
    Alias.canonical (grouped (prefixed .initial r.head) [] []) =
      grouped r.bare.1 [] r.bare.2 := by decide

/-- How the tables know the command with the suffix. -/
theorem canonical_loaded : ∀ r : Registration,
    Alias.canonical (grouped (prefixed .initial r.head) [] ".load".toList) =
      grouped r.loaded.1 [] r.loaded.2 := by decide

theorem not_mem_spellings : ∀ r : Registration,
    ('(' ∉ r.bare.1 ∧ '(' ∉ r.bare.2) ∧ '(' ∉ r.loaded.1 ∧ '(' ∉ r.loaded.2 := by decide

theorem loaded_eq_bare : ∀ r : Registration, r.loadIsOptional → r.loaded = r.bare := by
  decide

theorem rootAndName_ne : ∀ r : Registration, ¬ r.loadIsOptional →
    rootAndName (r.loaded.1 ++ trim r.loaded.2) ≠ rootAndName (r.bare.1 ++ trim r.bare.2) := by
  decide

/-! ## Any case of letters, and any indices -/

variable {word load : List Char} {r : Registration} (hword : sameWord word r.head)

include hword in
theorem lower_word : lower word = r.head := (eq_of_beq hword).trans r.lower_head

include hword in
theorem isName_word : IsName word := by
  have same := (eq_of_beq hword : lower word = lower r.head)
  rw [IsName, same]
  exact r.isName_head

include hword in
theorem word_ne : word ≠ [] := by
  rintro rfl
  exact r.head_ne (lower_word hword).symm

include hword in
/-- How the tables know the command without the suffix. -/
theorem canonical_word (inside : List Char) :
    Alias.canonical (prefixed .initial (grouped word inside [])) =
      grouped r.bare.1 (erase ".void".toList (lower inside)) r.bare.2 := by
  obtain ⟨⟨hhead, htail⟩, -⟩ := r.not_mem_spellings
  have same : prefixed .initial word = prefixed .initial r.head :=
    prefixed_congr rfl rfl (eq_of_beq hword)
  exact canonical_prefixed (by decide) (word_ne hword) hhead htail (same ▸ r.canonical_bare)

include hword in
/-- How the tables know the command with the suffix. -/
theorem canonical_word_load (hload : sameWord load ".load".toList) (inside : List Char) :
    Alias.canonical (prefixed .initial (grouped word inside load)) =
      grouped r.loaded.1 (erase ".void".toList (lower inside)) r.loaded.2 := by
  obtain ⟨-, hhead, htail⟩ := r.not_mem_spellings
  have same : prefixed .initial word = prefixed .initial r.head :=
    prefixed_congr rfl rfl (eq_of_beq hword)
  have suffix : erase ".void".toList (lower load) = ".load".toList := by
    rw [eq_of_beq hload]
    decide
  refine canonical_prefixed (by decide) (word_ne hword) hhead htail ?_
  rw [suffix, same, r.canonical_loaded]

end Registration

/-- What is left of indices in lower case without `.void` has no parentheses when they have none. -/
theorem isPlain_erase_lower {inside w : List Char} (h : IsPlain inside) :
    IsPlain (erase w (lower inside)) := by
  intro c hc
  obtain ⟨d, hd, rfl⟩ := List.mem_map.1 (mem_of_mem_eraseFrom hc)
  constructor <;> intro hmark
  · exact (h d hd).1 (eq_of_toLower hmark (by decide))
  · exact (h d hd).2 (eq_of_toLower hmark (by decide))

/-- A registration means the same with and without the suffix exactly when its suffix is optional,
in whatever case it is written, whatever its indices are, and whatever it registers. -/
theorem interpret_load_iff {R : Type} [Scalar R] (r : Registration) {word load inside a : List Char}
    (hword : sameWord word r.head) (hload : sameWord load ".load".toList) (plain : IsPlain inside)
    (nonblank : trim a ≠ []) (dialect : Dialect) (factors : List R)
    (location location' : Location) :
    interpret dialect factors .initial
        ⟨location, String.ofList (grouped word inside load ++ ' ' :: a)⟩ =
      interpret dialect factors .initial
        ⟨location', String.ofList (grouped word inside [] ++ ' ' :: a)⟩ ↔
    r.loadIsOptional := by
  have name := Registration.isName_word hword
  have ne := Registration.word_ne hword
  have suffix : IsName load := by
    rw [IsName, eq_of_beq hload]
    decide
  have spelling := Registration.canonical_word hword inside
  have spelling' := Registration.canonical_word_load hword hload inside
  rw [interpret_grouped name ne plain suffix nonblank,
    interpret_grouped name ne plain (by decide) nonblank]
  constructor
  · intro means
    by_contra required
    obtain ⟨⟨hhead, htail⟩, hhead', -⟩ := r.not_mem_spellings
    exact readCommand_ne spelling' spelling hhead' hhead (isPlain_erase_lower plain) htail
      (r.rootAndName_ne required) (Source.stripGroup (trim a)) (map_command_injective means)
  · intro optional
    have same := spelling'.trans ((r.loaded_eq_bare optional).symm ▸ spelling.symm)
    exact congrArg (Except.map Interpretation.command) (readCommand_congr same _)

/-- The suffix of an object under the root of the structures is optional. -/
theorem interpret_load_rail :
    (sameWord "STRUCTURE.Rail".toList (Registration.object .structures .rail).head ∧
        sameWord ".Load".toList ".load".toList ∧ IsPlain "0".toList ∧ trim "a".toList ≠ []) ∧
      interpret .csv ([1] : List ℚ) .initial ⟨⟨"", 1, 1⟩, "STRUCTURE.Rail(0).Load a"⟩ =
        interpret .csv ([1] : List ℚ) .initial ⟨⟨"", 1, 1⟩, "STRUCTURE.Rail(0) a"⟩ := by
  have word : sameWord "STRUCTURE.Rail".toList (Registration.object .structures .rail).head := by
    decide
  have load : sameWord ".Load".toList ".load".toList := by decide
  have plain : IsPlain "0".toList := by simp [IsPlain]
  have nonblank : trim "a".toList ≠ [] := by decide
  have loadedText : "STRUCTURE.Rail(0).Load a" = String.ofList
      (grouped "STRUCTURE.Rail".toList "0".toList ".Load".toList ++ ' ' :: "a".toList) := by
    decide
  have bareText : "STRUCTURE.Rail(0) a" = String.ofList
      (grouped "STRUCTURE.Rail".toList "0".toList [] ++ ' ' :: "a".toList) := by decide
  have means := interpret_load_iff (.object .structures .rail) word load plain nonblank .csv
    ([1] : List ℚ) ⟨"", 1, 1⟩ ⟨"", 1, 1⟩
  rw [← loadedText, ← bareText] at means
  exact ⟨⟨word, load, plain, nonblank⟩, means.2 rfl⟩

deriving instance DecidableEq for Interpretation

/-- Under the root of the textures `load` becomes a part of the name of an object, and `back` is a
background only with the suffix. Where nothing but blanks stands behind a signal, its index is taken
for the arguments unless the suffix follows it. -/
theorem interpret_load_ne :
    let read (text : String) := interpret .csv ([1] : List ℚ) .initial ⟨⟨"", 1, 1⟩, text⟩
    (read "Texture.Rail(0).Load a" = .ok (.command ⟨"structure", "rail.load", [0], ["a"], "a"⟩) ∧
        read "Texture.Rail(0) a" = .ok (.command ⟨"structure", "rail", [0], ["a"], "a"⟩)) ∧
      (read "Structure.Back(0).Load a" =
          .ok (.command ⟨"structure", "background", [0], ["a"], "a"⟩) ∧
        read "Structure.Back(0) a" = .ok (.command ⟨"structure", "back", [0], ["a"], "a"⟩)) ∧
      (read "Signal(0).Load  " = .ok (.command ⟨"", "signal", [0], [], ""⟩) ∧
        read "Signal(0)  " = .ok (.command ⟨"", "signal", [], ["0"], "0"⟩)) := by
  decide +kernel

end RailRoute
