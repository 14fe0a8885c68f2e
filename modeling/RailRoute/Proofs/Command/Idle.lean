import Mathlib
import RailRoute.Proofs.Command.Suffixes
import RailRoute.Proofs.Compile.FirstPass
import RailRoute.Proofs.Compile.Scopes
import RailRoute.Proofs.Source.Directives

/-!
# Commands that wait for the second pass

Commands of the track are none that options are read from and none that the tables take. Neither is
a number with an underscore behind it, which is read as a command. Main statements:
`isIdle_of_trackHead` and `isIdle_of_marks`.
-/

namespace RailRoute

open Text Source

/-! ## What a command is told by -/

/-- The namespaces whose commands are dealt with ahead of the second pass. Signals have none. -/
def settledRoots : List String := ["options", "route", "train", "structure", "texture", "cycle"]

/-- Whether a command is of no namespace that is dealt with ahead of the second pass, and no
signal. -/
structure Command.IsIdle (c : Command) : Prop where
  root : c.root ∉ settledRoots
  signal : c.root = "" → c.name ≠ "signal"

/-- The tables are not changed by a command that is idle. -/
theorem Command.IsIdle.value?_update {R : Type} [Scalar R] {c : Command} (h : c.IsIdle)
    {preview : Bool} {part : Tables.Part} (target : Compile.targetPart? preview c = some part)
    (assets : Assets) (folders : Folders) (t : Tables R) :
    (t.update assets folders part c).value? = none := by
  have hpart := Compile.ofRoot?_of_targetPart? target
  obtain ⟨-, route, train, structures, textures, cycle⟩ :
      c.root ≠ "options" ∧ c.root ≠ "route" ∧ c.root ≠ "train" ∧ c.root ≠ "structure" ∧
        c.root ≠ "texture" ∧ c.root ≠ "cycle" := by simpa [settledRoots] using h.root
  unfold Tables.Part.ofRoot? at hpart
  rw [if_neg route, if_neg train, if_neg (by tauto), if_neg cycle] at hpart
  split_ifs at hpart with none
  obtain rfl := Option.some.inj hpart
  have name := h.signal none
  simp only [Tables.update, SignalDefinition.update, if_pos name]
  rfl

section Spellings

theorem prefix_of_append_cons {w x y : List Char} {c : Char} (h : w <+: x ++ c :: y)
    (hc : c ∉ w) : w <+: x := by
  rw [← List.isPrefixOf_iff_prefix, isPrefixOf_append_cons hc] at h
  exact List.isPrefixOf_iff_prefix.1 h

theorem cutAt?_eq_some {p : Char → Bool} {cs a b : List Char} (h : cutAt? p cs = some (a, b)) :
    cs = a ++ b ∧ (∀ c ∈ a, ¬ p c) ∧ ∃ c r, b = c :: r ∧ p c := by
  unfold cutAt? at h
  cases hdrop : cs.dropWhile (!p ·) with
  | nil => simp [hdrop] at h
  | cons c r =>
    obtain ⟨rfl, rfl⟩ : cs.takeWhile (!p ·) = a ∧ c :: r = b := by simpa [hdrop] using h
    have first := List.head?_dropWhile_not (!p ·) cs
    refine ⟨hdrop ▸ List.takeWhile_append_dropWhile.symm, fun d hd => ?_, c, r, rfl, ?_⟩
    · simpa using List.mem_takeWhile_imp hd
    · simpa [hdrop] using first

variable {R : Type} [Scalar R]

/-- Indices are taken out behind what stands ahead of them. -/
theorem of_takeIndices {command rest : List Char} {indices : List Int}
    (h : takeIndices R command = .ok (indices, rest)) :
    (∀ w, w <+: command → '(' ∉ w → w <+: rest) ∧ ∀ c ∈ rest, c ∈ command := by
  unfold takeIndices at h
  split at h
  · obtain rfl := (Prod.mk.inj (Except.ok.inj h)).2
    exact ⟨fun _ hw _ => hw, fun _ hc => hc⟩
  · rename_i before group hopen
    obtain ⟨rfl, solid, c, r, rfl, hc⟩ := cutAt?_eq_some hopen
    split at h
    · cases h
    · rename_i opened tail hclose
      obtain ⟨hgroup, -⟩ := cutAt?_eq_some hclose
      cases hread : readIndices R (before ++ c :: r) (parts (· = ';') (opened.drop 1)) with
      | error p =>
        rw [hread] at h
        cases h
      | ok is =>
        rw [hread] at h
        obtain rfl := (Prod.mk.inj (Except.ok.inj h)).2
        refine ⟨fun w hprefix plain => ?_, fun d hd => ?_⟩
        · obtain rfl := of_decide_eq_true hc
          exact (prefix_of_append_cons hprefix plain).trans (List.prefix_append ..)
        · rcases List.mem_append.1 hd with hd | hd
          · exact List.mem_append_left _ hd
          · refine List.mem_append_right _ (hgroup ▸ List.mem_append_right _ ?_)
            exact List.mem_of_mem_drop ((trim_isInfix _).subset hd)

/-- A command has the root and the name that its spelling has without the indices. -/
theorem exists_of_readCommand {s : Scope} {spelling raw : List Char} {c : Command}
    (h : readCommand R s spelling raw = .ok c) :
    ∃ indices rest, takeIndices R (Alias.canonical (prefixed s spelling)) = .ok (indices, rest) ∧
      (c.root, c.name) = rootAndName rest := by
  unfold readCommand at h
  cases htake : takeIndices R (Alias.canonical (prefixed s spelling)) with
  | error p => simp [htake, Except.map] at h
  | ok x =>
    obtain ⟨indices, rest⟩ := x
    rw [htake] at h
    obtain rfl := Except.ok.inj h
    exact ⟨indices, rest, rfl, rfl⟩

/-- The root of a spelling is what stands ahead of its first point, if there is one. -/
theorem rootAndName_cases (spelling : List Char) :
    rootAndName spelling = ("", String.ofList spelling) ∨
      ∃ root name, spelling = root ++ '.' :: name ∧ '.' ∉ root ∧
        rootAndName spelling =
          (if "signal".toList.isPrefixOf root then "" else String.ofList root,
            String.ofList name) := by
  unfold rootAndName
  cases hcut : cutAt? (· = '.') spelling with
  | none => exact Or.inl rfl
  | some x =>
    obtain ⟨root, b⟩ := x
    obtain ⟨rfl, solid, c, name, rfl, hc⟩ := cutAt?_eq_some hcut
    obtain rfl : c = '.' := of_decide_eq_true hc
    exact Or.inr ⟨root, name, rfl, fun h => solid _ h rfl, rfl⟩

theorem prefixed_initial (spelling : List Char) :
    prefixed .initial spelling = erase ".void".toList (lower spelling) := by
  have heading : lower Scope.initial.heading.toList = [] := rfl
  have bare : Scope.initial.alwaysPrefixed = false := rfl
  simp [prefixed, heading, bare]

/-- No spelling has an older form that does not begin with the letter of one. -/
theorem canonical_cons {c : Char} (h : c ∉ ['s', 't', 'c', 'r']) (r : List Char) :
    Alias.canonical (c :: r) = c :: r := by
  obtain ⟨hs, ht, hc, hr⟩ : 's' ≠ c ∧ 't' ≠ c ∧ 'c' ≠ c ∧ 'r' ≠ c := by simpa [eq_comm] using h
  simp [Alias.canonical, Alias.rules, Alias.structureRule, Alias.backgroundRule,
    Alias.timetableRule, Alias.dropSuffix?, Alias.replaceHead?, afterHead?, Alias.startsWith,
    List.isPrefixOf, hs, ht, hc, hr]

/-- A command is idle if nothing that may be the root of its spelling is settled, and nothing that
may be the name of a signal is `signal`. -/
theorem isIdle_of_rootAndName {c : Command} {rest : List Char}
    (h : (c.root, c.name) = rootAndName rest) (whole : String.ofList rest ≠ "signal")
    (parted : ∀ root name, rest = root ++ '.' :: name → '.' ∉ root →
      String.ofList root ∉ settledRoots ∧
        (root = [] ∨ "signal".toList <+: root → String.ofList name ≠ "signal")) : c.IsIdle := by
  rcases rootAndName_cases rest with heq | ⟨root, name, hrest, solid, heq⟩
  · obtain ⟨hroot, hname⟩ := Prod.mk.inj (h.trans heq)
    exact ⟨hroot ▸ by decide, fun _ => hname ▸ whole⟩
  · obtain ⟨settled, signal⟩ := parted root name hrest solid
    obtain ⟨hroot, hname⟩ := Prod.mk.inj (h.trans heq)
    by_cases head : "signal".toList.isPrefixOf root
    · rw [if_pos head] at hroot
      exact ⟨hroot ▸ by decide,
        fun _ => hname ▸ signal (Or.inr (List.isPrefixOf_iff_prefix.1 head))⟩
    · rw [if_neg head] at hroot
      refine ⟨hroot ▸ settled, fun none => hname ▸ signal (Or.inl ?_)⟩
      simpa using congrArg String.toList (hroot.symm.trans none)

end Spellings

/-! ## Commands of the track -/

theorem exists_prefixed_track {spelling : List Char} (head : "track.".toList <+: lower spelling) :
    ∃ z, prefixed .initial spelling = "track".toList ++ z := by
  obtain ⟨r, hr⟩ := head
  rw [prefixed_initial, ← hr]
  exact ⟨erase ".void".toList ('.' :: r), rfl⟩

theorem ofList_ne_of_track {cs : List Char} (h : "track".toList <+: cs) {w : String}
    (hw : ¬ "track".toList <+: w.toList) : String.ofList cs ≠ w := by
  rintro rfl
  exact hw (by simpa using h)

/-- Whatever follows the namespace of the track, the command is idle. -/
theorem isIdle_of_trackHead {R : Type} [Scalar R] {spelling raw : List Char} {c : Command}
    (head : "track.".toList <+: lower spelling)
    (h : readCommand R .initial spelling raw = .ok c) : c.IsIdle := by
  obtain ⟨indices, rest, htake, hname⟩ := exists_of_readCommand h
  obtain ⟨z, hz⟩ := exists_prefixed_track head
  have known : Alias.canonical ("track".toList ++ z) = "track".toList ++ z := rfl
  rw [hz, known] at htake
  have track := (of_takeIndices htake).1 _ (List.prefix_append ..) (by decide)
  refine isIdle_of_rootAndName hname (ofList_ne_of_track track (by decide)) ?_
  rintro root name rfl -
  have hroot := prefix_of_append_cons track (by decide)
  refine ⟨?_, ?_⟩
  · simp only [settledRoots, List.mem_cons, List.not_mem_nil, or_false, not_or]
    refine ⟨?_, ?_, ?_, ?_, ?_, ?_⟩ <;> exact ofList_ne_of_track hroot (by decide)
  · rintro (rfl | signal)
    · exact absurd hroot (by decide)
    · rcases List.prefix_or_prefix_of_prefix signal hroot with h | h <;>
        exact absurd h (by decide)

/-! ## Numbers with an underscore -/

/-- Whether a character has a place in a number with an underscore, in lower case. -/
def isMark (c : Char) : Bool := isDigit c || c ∈ ['-', '+', '.', 'e', '_']

theorem ofList_ne_of_marks {cs : List Char} (marks : ∀ d ∈ cs, isMark d) {w : String}
    (hw : ¬ w.toList.all isMark) : String.ofList cs ≠ w := by
  rintro rfl
  exact hw (by simpa using marks)

/-- Whatever is made of the characters of a number with an underscore, the command is idle. -/
theorem isIdle_of_marks {R : Type} [Scalar R] {spelling raw : List Char} {c : Command}
    (marks : ∀ d ∈ lower spelling, isMark d)
    (h : readCommand R .initial spelling raw = .ok c) : c.IsIdle := by
  obtain ⟨indices, rest, htake, hname⟩ := exists_of_readCommand h
  rw [prefixed_initial] at htake
  have erased : ∀ d ∈ erase ".void".toList (lower spelling), isMark d :=
    fun d hd => marks d (mem_of_mem_eraseFrom hd)
  have known : Alias.canonical (erase ".void".toList (lower spelling)) =
      erase ".void".toList (lower spelling) := by
    cases hsp : erase ".void".toList (lower spelling) with
    | nil => rfl
    | cons d r =>
      refine canonical_cons (fun hd => ?_) r
      have mark := erased d (hsp ▸ List.mem_cons_self ..)
      simp only [List.mem_cons, List.not_mem_nil, or_false] at hd
      rcases hd with rfl | rfl | rfl | rfl <;> exact absurd mark (by decide)
  rw [known] at htake
  have marks : ∀ d ∈ rest, isMark d := fun d hd => erased d ((of_takeIndices htake).2 d hd)
  refine isIdle_of_rootAndName hname (ofList_ne_of_marks marks (by decide)) ?_
  rintro root name rfl -
  obtain ⟨hroot, hname⟩ := List.forall_mem_append.1 marks
  refine ⟨?_, fun _ => ofList_ne_of_marks (fun d hd => hname d (List.mem_cons_of_mem _ hd))
    (by decide)⟩
  simp only [settledRoots, List.mem_cons, List.not_mem_nil, or_false, not_or]
  refine ⟨?_, ?_, ?_, ?_, ?_, ?_⟩ <;> exact ofList_ne_of_marks hroot (by decide)

end RailRoute
