import Mathlib
import RailRoute.Proofs.Source.Separation
import RailRoute.Source.Expand

/-!
# One expression more

The expansion of an expression may put expressions behind those that are there, and depends on them
in no way. So an expression without directives is there in the result as it is written, if it is
read at all, and makes no difference otherwise. Main statement: `expand_insert`.
-/

namespace RailRoute.Source

/-- A layout with expressions in front of the result. -/
def Layout.behind (front : Array Expression) (l : Layout) : Layout :=
  { l with output := front ++ l.output }

variable (R : Type) [Scalar R]

section Behind

variable (includeFile : Expression → List Char → Expansion (List Expression))
  (front : Array Expression) (l : Layout)

theorem expandBlock_behind (e : Expression) (name : BlockName) (inside : List Char) :
    expandBlock R includeFile e name inside (l.behind front) =
      Layout.behind front <$> expandBlock R includeFile e name inside l := by
  obtain ⟨branches, output⟩ := l
  cases name with
  | openIf =>
    cases h : isActive branches <;> simp [expandBlock, Layout.behind, h]
  | openElse =>
    cases branches with
    | nil => rfl
    | cons b rest => cases h : b.seenElse <;> simp [expandBlock, Layout.behind, h]
  | closeIf => cases branches <;> rfl
  | includeFile =>
    cases h : isActive branches with
    | false => simp [expandBlock, Layout.behind, h]
    | true =>
      simp only [expandBlock, Layout.behind, h, if_true, map_bind]
      refine congrArg _ (funext fun text? => ?_)
      cases text? <;> simp [Layout.behind, Array.append_assoc]

theorem expandOne_behind (e : Expression) :
    expandOne R includeFile (l.behind front) e =
      Layout.behind front <$> expandOne R includeFile l e := by
  unfold expandOne
  dsimp only
  split
  · rfl
  · exact expandBlock_behind ..
  · change (if !isActive l.branches then _ else _) = _
    split_ifs
    · simp
    · split
      · simp
      · simp only [map_bind]
        refine congrArg _ (funext fun text? => ?_)
        cases text? with
        | none => simp
        | some text =>
          dsimp only
          split_ifs <;> simp [Layout.behind]

theorem foldlM_expandOne_behind (es : List Expression) :
    es.foldlM (expandOne R includeFile) (l.behind front) =
      Layout.behind front <$> es.foldlM (expandOne R includeFile) l := by
  induction es generalizing l with
  | nil => simp
  | cons e es ih => simp only [List.foldlM_cons, expandOne_behind, bind_map_left, map_bind, ih]

end Behind

/-! ## Texts without directives -/

theorem directiveHead?_of_head {cs : List Char} (h : cs.head? ≠ some '$') (names : List String) :
    directiveHead? names cs = none := by
  unfold directiveHead?
  split
  · simp at h
  · rfl

theorem expandText_of_absent {cs : List Char} (h : scanInline cs = .absent) (d : Dictionary) :
    expandText R cs d = (.ok cs, d) := by
  rw [expandText]
  split <;> simp_all

section Plain

variable {cs : List Char} (h : '$' ∉ cs)

include h

theorem directiveHead?_eq_none (names : List String) : directiveHead? names cs = none :=
  directiveHead?_of_head (fun hc => h (List.mem_of_head? hc)) names

theorem findInline?_eq_none : findInline? cs = none := by
  induction cs with
  | nil => rfl
  | cons c cs ih =>
    have behind : '$' ∉ cs := fun hc => h (List.mem_cons_of_mem c hc)
    rw [findInline?, directiveHead?_eq_none h]
    simp [ih behind]

theorem scanInline_of_plain : scanInline cs = .absent := by
  rw [scanInline, findInline?_eq_none h]

theorem expandText_of_plain (d : Dictionary) : expandText R cs d = (.ok cs, d) :=
  expandText_of_absent R (scanInline_of_plain h) d

end Plain

section Verbatim

variable {e : Expression} (trimmed : Text.trim e.text.toList = e.text.toList) (ne : e.text ≠ "")
  (includeFile : Expression → List Char → Expansion (List Expression)) (l : Layout)

include trimmed ne

/-- An expression with no directive in it and none at its head is there in the result if it is
read. -/
theorem expandOne_of_absent (head : e.text.toList.head? ≠ some '$')
    (absent : scanInline e.text.toList = .absent) : expandOne R includeFile l e =
      pure (if isActive l.branches then { l with output := l.output.push e } else l) := by
  have block : scanBlock e.text.toList = .absent := by
    rw [scanBlock, directiveHead?_of_head head]
  have undefined : definition? e.text.toList = none := by
    rw [definition?, directiveHead?_of_head head]
  have text : textOf? R e e.text.toList = pure (some e.text.toList) := by
    funext s
    simp [textOf?, tryText, expandText_of_absent R absent]
  unfold expandOne
  simp only [trimmed, block, undefined, text]
  cases isActive l.branches <;> simp [trimmed, ne]

/-- An expression without directives is there in the result if it is read. -/
theorem expandOne_of_plain (plain : '$' ∉ e.text.toList) : expandOne R includeFile l e =
    pure (if isActive l.branches then { l with output := l.output.push e } else l) :=
  expandOne_of_absent R trimmed ne includeFile l (fun hc => plain (List.mem_of_head? hc))
    (scanInline_of_plain plain)

end Verbatim

/-- The rest of an expansion begins where the first part ends, unless this meets a fault. -/
theorem Expansion.bind_apply {α β : Type} (x : Expansion α) (f : α → Expansion β) (s : Session) :
    (x >>= f) s = match x s with
      | .ok a s' => f a s'
      | .error error s' => .error error s' := by
  change EStateM.bind x f s = _
  unfold EStateM.bind
  cases x s <;> rfl

/-- What a layout comes to in the end. -/
def closeLayout (l : Layout) : Expansion (List Expression) :=
  match l.branches with
  | b :: _ => throw ⟨.openIf, b.location⟩
  | [] => pure l.output.toList

theorem expandList_append (includeFile : Expression → List Char → Expansion (List Expression))
    (xs ys : List Expression) : expandList R includeFile (xs ++ ys) =
      xs.foldlM (expandOne R includeFile) ⟨[], #[]⟩ >>= fun l =>
        ys.foldlM (expandOne R includeFile) l >>= closeLayout := by
  rw [expandList, List.foldlM_append, bind_assoc]
  rfl

/-- With one expression more that is without directives, the expansion of a list comes to the same,
or the expression is there in the result besides. -/
theorem expandList_insert {e : Expression} (plain : '$' ∉ e.text.toList)
    (trimmed : Text.trim e.text.toList = e.text.toList) (ne : e.text ≠ "")
    (includeFile : Expression → List Char → Expansion (List Expression))
    (pre post : List Expression) (s : Session) :
    expandList R includeFile (pre ++ e :: post) s = expandList R includeFile (pre ++ post) s ∨
      ∃ A B s', expandList R includeFile (pre ++ e :: post) s = .ok (A ++ e :: B) s' ∧
        expandList R includeFile (pre ++ post) s = .ok (A ++ B) s' := by
  rw [expandList_append, expandList_append, Expansion.bind_apply, Expansion.bind_apply]
  cases pre.foldlM (expandOne R includeFile) ⟨[], #[]⟩ s with
  | error x s₁ => exact Or.inl rfl
  | ok l s₁ =>
    dsimp only
    rw [List.foldlM_cons, expandOne_of_plain R trimmed ne _ _ plain, pure_bind]
    cases isActive l.branches with
    | false => exact Or.inl rfl
    | true =>
      -- What comes behind is laid out alike, behind one expression more or less.
      have behind (front : Array Expression) :
          (post.foldlM (expandOne R includeFile) ⟨l.branches, front⟩ >>= closeLayout) s₁ =
            match post.foldlM (expandOne R includeFile) ⟨l.branches, #[]⟩ s₁ with
            | .ok r s' => closeLayout (r.behind front) s'
            | .error error s' => .error error s' := by
        have apart : post.foldlM (expandOne R includeFile) ⟨l.branches, front⟩ =
            Layout.behind front <$> post.foldlM (expandOne R includeFile) ⟨l.branches, #[]⟩ := by
          rw [← foldlM_expandOne_behind, Layout.behind, Array.append_empty]
        rw [apart, bind_map_left, Expansion.bind_apply]
        cases post.foldlM (expandOne R includeFile) ⟨l.branches, #[]⟩ s₁ <;> rfl
      have without : (post.foldlM (expandOne R includeFile) l >>= closeLayout) s₁ = _ :=
        behind l.output
      rw [if_pos rfl, behind (l.output.push e), without]
      cases post.foldlM (expandOne R includeFile) ⟨l.branches, #[]⟩ s₁ with
      | error x s₂ => exact Or.inl rfl
      | ok r s₂ =>
        obtain ⟨_ | ⟨b, rest⟩, output⟩ := r
        · refine Or.inr ⟨l.output.toList, output.toList, s₂, ?_, ?_⟩ <;>
            simp [closeLayout, Layout.behind] <;> rfl
        · exact Or.inl rfl

/-- With one expression more that is without directives, an expansion comes to the same, or the
expression is there in the result besides. -/
theorem expand_insert {e : Expression} (plain : '$' ∉ e.text.toList)
    (trimmed : Text.trim e.text.toList = e.text.toList) (ne : e.text ≠ "")
    (settings : ExpansionSettings) (seed : UInt64) (pre post : List Expression) :
    expand R settings seed (pre ++ e :: post) = expand R settings seed (pre ++ post) ∨
      ∃ A B ms, expand R settings seed (pre ++ e :: post) = ⟨ms, .ok (A ++ e :: B)⟩ ∧
        expand R settings seed (pre ++ post) = ⟨ms, .ok (A ++ B)⟩ := by
  unfold expand
  dsimp only
  rcases expandList_insert R plain trimmed ne (includeAt R settings maxIncludeDepth) pre post
      ⟨⟨Generator.ofSeed seed, ∅⟩, #[]⟩ with same | ⟨A, B, s, longer, shorter⟩
  · exact Or.inl (by rw [same])
  · exact Or.inr ⟨A, B, s.messages.toList, by rw [longer], by rw [shorter]⟩

end RailRoute.Source
