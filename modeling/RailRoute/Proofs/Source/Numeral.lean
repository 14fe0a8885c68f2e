import Mathlib
import RailRoute.Compile
import RailRoute.Proofs.Source.Separation

/-!
# Bare numbers

An expression of a CSV route that is a number is a track position in every section and whatever
the unit of length. Main statements: `interpret_csv` and `marker?_eq`.
-/

namespace RailRoute

namespace Text

theorem trim_trim (cs : List Char) : trim (trim cs) = trim cs := by
  have start : trimStart (trim cs) = trim cs := List.dropWhile_eq_self_iff.2 fun hlt => by
    obtain ⟨rest, hrest⟩ : trim cs <+: trimStart cs := List.rdropWhile_prefix _ _
    have hlt' : 0 < (trimStart cs).length := by
      rw [← hrest, List.length_append]
      omega
    have first : (trimStart cs)[0] = (trim cs)[0] := by
      simp only [← hrest, List.getElem_append_left hlt]
    rw [← first]
    exact List.dropWhile_get_zero_not _ _ hlt'
  calc trim (trim cs) = trimEnd (trim cs) := by rw [trim, start]
    _ = trim cs := List.rdropWhile_idempotent ..

theorem parts_eq_of_not_mem {separates : Char → Bool} {cs : List Char}
    (h : ∀ c ∈ cs, ¬ separates c) : parts separates cs = [cs] := by
  unfold parts
  induction cs with
  | nil => rfl
  | cons c cs ih =>
    obtain ⟨hc, hcs⟩ := List.forall_mem_cons.1 h
    rw [List.foldr_cons, ih hcs, if_neg hc]

end Text

namespace Source

open Text

theorem isForeign_of_isBlank {c : Char} (h : isBlank c) : IsForeign c := by
  refine ⟨fun hd => ?_, fun hc => ?_⟩
  · have digit : 48 ≤ c.toNat ∧ c.toNat ≤ 57 := by
      simpa [isDigit, Char.le_def, UInt32.le_iff_toNat_le] using hd
    simp only [isBlank, blankRanges, List.any_cons, List.any_nil, Bool.or_eq_true,
      Bool.and_eq_true, decide_eq_true_eq, Bool.or_false] at h
    omega
  · simp only [List.mem_cons, List.not_mem_nil, or_false] at hc
    rcases hc with rfl | rfl | rfl | rfl | rfl <;> revert h <;> decide

/-- A text that is a number as a whole begins with no longer one. -/
theorem parseLenient_of_parseNumber {R : Type} [Scalar R] {cs : List Char} {x : R}
    (h : parseNumber cs = some x) : parseLenient cs = some x := by
  unfold parseNumber at h
  unfold parseLenient
  split at h
  · rename_i d hd
    rw [hd]
    exact h
  · cases h

/-- Whether an expression is a number and nothing else. -/
structure IsNumber {R : Type} [Scalar R] (e : Expression) (x : R) : Prop where
  value : parseNumber e.text.toList = some x
  trimmed : trim e.text.toList = e.text.toList

namespace IsNumber

variable {R : Type} [Scalar R] {e : Expression} {x : R} (h : IsNumber e x)

include h

/-- A number has no characters but those that numbers are made of. -/
theorem not_mem {c : Char} (hc : IsForeign c) : c ∉ e.text.toList := by
  intro hmem
  have value := h.value
  unfold parseNumber at value
  rw [h.trimmed] at value
  split at value
  · rename_i d hn
    simpa using mem_of_takeNumber hc hn hmem
  · cases value

theorem text_ne : e.text ≠ "" := by
  intro he
  have value := h.value
  rw [he] at value
  cases value

theorem header?_eq_none : e.header? = none := by
  unfold Expression.header? headerName? between?
  rw [h.trimmed]
  cases ht : e.text.toList with
  | nil => rfl
  | cons c r =>
    have : c ≠ '[' := by
      rintro rfl
      exact h.not_mem (c := '[') ⟨by decide, by decide⟩ (by simp [ht])
    simp [this]

theorem solid : ∀ c ∈ e.text.toList, ¬ isBlank c :=
  fun _ hc hb => h.not_mem (isForeign_of_isBlank hb) hc

theorem separate_eq : separate e.text.toList = (e.text.toList, []) := by
  have plain : IsPlain e.text.toList := by
    rintro c hc
    constructor <;> rintro rfl <;> exact h.not_mem ⟨by decide, by decide⟩ hc
  have plain : IsPlain (trim e.text.toList) := h.trimmed.symm ▸ plain
  have separated := separate_of_isPlain plain (h.trimmed.symm ▸ h.solid)
  rwa [h.trimmed] at separated

/-- Its length is the number in the last unit. -/
theorem parseLength_eq {factors : List R} {f : R} (hf : factors.getLast? = some f) :
    parseLength factors e.text.toList = some (0 + x * f) := by
  obtain ⟨front, rfl⟩ := List.getLast?_eq_some_iff.1 hf
  have whole : parts (· = ':') e.text.toList = [e.text.toList] :=
    parts_eq_of_not_mem fun c hc hcolon =>
      h.not_mem (c := ':') ⟨by decide, by decide⟩ (of_decide_eq_true hcolon ▸ hc)
  simp [parseLength, whole, weightedSum, h.value]

theorem marker?_eq {factors : List R} {f : R} (hf : factors.getLast? = some f) :
    marker? factors e = some (0 + x * f) := by
  rw [marker?, h.trimmed, h.parseLength_eq hf]

/-- It is read as a track position, under whatever section. -/
theorem interpret_csv {factors : List R} {f : R} (hf : factors.getLast? = some f) (s : Scope) :
    interpret .csv factors s e = .ok (.position (0 + x * f) false) := by
  refine (interpret_eq_position h.header?_eq_none s).2 ?_
  rw [barePosition?, h.separate_eq]
  exact h.parseLength_eq hf

/-- Fixing line endings leaves it alone. -/
theorem fixEnding_eq (fixes : Bool) : Compile.fixEnding fixes e = e := by
  have other : beforeTail? ['_'] e.text.toList = none := if_neg fun htail => by
    obtain ⟨front, hfront⟩ := List.isSuffixOf_iff_suffix.1 htail
    exact h.not_mem (c := '_') ⟨by decide, by decide⟩ (by simp [← hfront])
  simp [Compile.fixEnding, other]

end IsNumber

/-! ## Splitting -/

theorem trimmed_of_mem_splitFrom {file : String} {dialect : Dialect} {line : Nat} {onTrack : Bool}
    {lines : List (List Char)} {e : Expression}
    (he : e ∈ splitFrom file dialect line onTrack lines) :
    trim e.text.toList = e.text.toList := by
  have piece {line : Nat} {p : Nat × List Char} (hp : pieceExpression? file line p = some e) :
      trim e.text.toList = e.text.toList := by
    unfold pieceExpression? at hp
    split at hp
    · cases hp
    · rename_i c r htrim
      split_ifs at hp
      obtain rfl := Option.some.inj hp
      rw [String.toList_ofList, ← htrim, trim_trim]
  induction lines generalizing line onTrack with
  | nil => simp [splitFrom] at he
  | cons cs lines ih =>
    unfold splitFrom at he
    split at he
    · rcases List.mem_cons.1 he with rfl | he
      · rw [String.toList_ofList, trim_trim]
      · exact ih he
    · rcases List.mem_append.1 he with he | he
      · obtain ⟨p, -, hp⟩ := List.mem_filterMap.1 he
        exact piece hp
      · exact ih he

end Source

end RailRoute
