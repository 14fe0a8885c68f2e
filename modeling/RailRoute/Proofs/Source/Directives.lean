import Mathlib
import RailRoute.Proofs.Source.Expansion

/-!
# Directives in a text

What the recognizers of directives split off a text, and what replacing the directives of a text may
depend on. Main statements: `scanInline_eq_found`, and `expandText_of_drawless`, that a text without
random numbers depends on the substitutions alone.
-/

namespace RailRoute.Source

open Text

/-! ## Recognizing -/

theorem takeWord?_eq_some {w cs a b : List Char} (h : takeWord? w cs = some (a, b)) :
    cs = a ++ b ∧ List.Forall₂ (fun letter c => foldsTo letter c) w a := by
  induction w generalizing cs a with
  | nil =>
    obtain ⟨rfl, rfl⟩ := Prod.mk.inj (Option.some.inj h)
    exact ⟨rfl, .nil⟩
  | cons letter w ih =>
    cases cs with
    | nil => cases h
    | cons c cs =>
      unfold takeWord? at h
      split_ifs at h with hc
      obtain ⟨a, hx, rfl⟩ := exists_of_map_cons h
      obtain ⟨rfl, hw⟩ := ih hx
      exact ⟨rfl, .cons hc hw⟩

theorem eq_of_foldsTo {letter c : Char} (h : foldsTo letter c) (fixed : c.toLower = c)
    (hc : c ≠ 'ſ') : letter = c := by
  simpa [foldsTo, fixed, hc, eq_comm] using h

/-- A character that is no letter is in a word only if it is in the spelling. -/
theorem not_mem_of_spelled {w a : List Char} {c : Char}
    (h : List.Forall₂ (fun letter c => foldsTo letter c) w a) (fixed : c.toLower = c)
    (hc : c ≠ 'ſ') (hw : c ∉ w) : c ∉ a := by
  induction h with
  | nil => exact hw
  | cons folds _ ih =>
    intro hmem
    rcases List.mem_cons.1 hmem with rfl | hmem
    · exact hw (by simp [eq_of_foldsTo folds fixed hc])
    · exact ih (fun h => hw (List.mem_cons_of_mem _ h)) hmem

theorem takeWord?_append {w a : List Char}
    (h : List.Forall₂ (fun letter c => foldsTo letter c) w a) (b : List Char) :
    takeWord? w (a ++ b) = some (a, b) := by
  induction h with
  | nil => rfl
  | cons hc _ ih => simp [takeWord?, hc, ih]

/-- A directive is a dollar sign, a word in any case, perhaps blanks, and a parenthesis. -/
theorem directiveHead?_eq_some {names : List String} {cs name inside : List Char}
    (h : directiveHead? names cs = some (name, inside)) :
    ∃ w ∈ names, List.Forall₂ (fun letter c => foldsTo letter c) w.toList name ∧
      ∃ gap, cs = '$' :: (name ++ (gap ++ '(' :: inside)) ∧ ∀ c ∈ gap, isBlank c := by
  unfold directiveHead? at h
  split at h
  · split at h
    · rename_i name r hone
      split at h
      · rename_i inside hopen
        obtain ⟨rfl, rfl⟩ := Prod.mk.inj (Option.some.inj h)
        obtain ⟨w, hw, hword⟩ := List.exists_of_findSome?_eq_some hone
        obtain ⟨rfl, spelled⟩ := takeWord?_eq_some hword
        refine ⟨w, hw, spelled, r.takeWhile isBlank, ?_, fun c hc => List.mem_takeWhile_imp hc⟩
        rw [← hopen, trimStart, List.takeWhile_append_dropWhile]
      · cases h
    · cases h
  · cases h

theorem directiveHead?_of_spelled {w : String} {name gap : List Char}
    (spelled : List.Forall₂ (fun letter c => foldsTo letter c) w.toList name)
    (blank : ∀ c ∈ gap, isBlank c) (inside : List Char) :
    directiveHead? [w] ('$' :: (name ++ (gap ++ '(' :: inside))) = some (name, inside) := by
  have opened : trimStart (gap ++ '(' :: inside) = '(' :: inside := by
    rw [trimStart, List.dropWhile_append_of_pos blank]
    rfl
  simp [directiveHead?, takeOneOf?, takeWord?_append spelled, opened]

theorem closeGroup?_eq_some {depth : Nat} {cs a b : List Char}
    (h : closeGroup? depth cs = some (a, b)) : cs = a ++ ')' :: b := by
  induction cs generalizing depth a with
  | nil => cases h
  | cons c cs ih =>
    have further {depth : Nat}
        (h : (closeGroup? depth cs).map (fun x => (c :: x.1, x.2)) = some (a, b)) :
        c :: cs = a ++ ')' :: b := by
      obtain ⟨a, hx, rfl⟩ := exists_of_map_cons h
      exact congrArg (c :: ·) (ih hx)
    unfold closeGroup? at h
    split_ifs at h with hopen hclose
    · exact further h
    · cases depth with
      | zero =>
        obtain ⟨rfl, rfl⟩ := Prod.mk.inj (Option.some.inj h)
        rw [hclose, List.nil_append]
      | succ depth => exact further h
    · exact further h

theorem closeGroup?_append {depth : Nat} {cs a b : List Char}
    (h : closeGroup? depth cs = some (a, b)) (tail : List Char) :
    closeGroup? depth (cs ++ tail) = some (a, b ++ tail) := by
  induction cs generalizing depth a with
  | nil => cases h
  | cons c cs ih =>
    rw [List.cons_append]
    unfold closeGroup? at h ⊢
    split_ifs at h ⊢ with hopen hclose
    · obtain ⟨a, hx, rfl⟩ := exists_of_map_cons h
      simp [ih hx]
    · cases depth with
      | zero =>
        obtain ⟨rfl, rfl⟩ := Prod.mk.inj (Option.some.inj h)
        rfl
      | succ depth =>
        obtain ⟨a, hx, rfl⟩ := exists_of_map_cons h
        simp [ih hx]
    · obtain ⟨a, hx, rfl⟩ := exists_of_map_cons h
      simp [ih hx]

theorem findInline?_eq_some {cs before written after : List Char}
    (h : findInline? cs = some (before, written, after)) :
    ∃ head, cs = before ++ head ∧
      directiveHead? ["chr", "rnd", "sub"] head = some (written, after) := by
  induction cs generalizing before with
  | nil => cases h
  | cons c cs ih =>
    unfold findInline? at h
    split at h
    · rename_i hhead
      obtain ⟨rfl, rfl, rfl⟩ : [] = before ∧ _ = written ∧ _ = after := by simpa using h
      exact ⟨c :: cs, rfl, hhead⟩
    · obtain ⟨⟨before', written', after'⟩, hx, heq⟩ := Option.map_eq_some_iff.1 h
      obtain ⟨rfl, rfl, rfl⟩ : c :: before' = before ∧ written' = written ∧ after' = after := by
        simpa using heq
      obtain ⟨head, rfl, hhead⟩ := ih hx
      exact ⟨head, rfl, hhead⟩

/-- The first inline directive of a text and what stands around it. -/
theorem scanInline_eq_found {cs before written inside rest : List Char}
    (h : scanInline cs = .found before written inside rest) :
    ∃ head, cs = before ++ head ∧
      directiveHead? ["chr", "rnd", "sub"] head = some (written, inside ++ ')' :: rest) := by
  unfold scanInline at h
  split at h
  · cases h
  · rename_i hfind
    split at h
    · cases h
    · rename_i hclose
      cases h
      obtain ⟨head, hcs, hhead⟩ := findInline?_eq_some hfind
      exact ⟨head, hcs, closeGroup?_eq_some hclose ▸ hhead⟩

/-- What holds of a text if it holds of the argument of its first directive and of what follows the
directive, holds of all texts. -/
theorem scan_induction {P : List Char → Prop} (absent : ∀ cs, scanInline cs = .absent → P cs)
    (unclosed : ∀ cs written, scanInline cs = .unclosed written → P cs)
    (found : ∀ cs before written inside rest, scanInline cs = .found before written inside rest →
      P inside → P rest → P cs) (cs : List Char) : P cs := by
  induction hn : cs.length using Nat.strong_induction_on generalizing cs with
  | _ n ih =>
    subst hn
    cases h : scanInline cs with
    | absent => exact absent cs h
    | unclosed written => exact unclosed cs written h
    | found before written inside rest =>
      have shorter := scanInline_length h
      exact found cs before written inside rest h (ih _ (by omega) inside rfl)
        (ih _ (by omega) rest rfl)

/-- A definition is no directive in its index, which has no parentheses. -/
theorem scanInline_of_isPlain {cs : List Char} (h : IsPlain cs) : scanInline cs = .absent := by
  have none : findInline? cs = none := by
    cases hfind : findInline? cs with
    | none => rfl
    | some x =>
      obtain ⟨before, written, after⟩ := x
      obtain ⟨head, rfl, hhead⟩ := findInline?_eq_some hfind
      obtain ⟨w, -, -, gap, rfl, -⟩ := directiveHead?_eq_some hhead
      exact absurd rfl (h '(' (by simp)).1
  rw [scanInline, none]

/-! ## Parts of a text -/

theorem trim_isInfix (cs : List Char) : trim cs <:+: cs := by
  obtain ⟨before, after, heq, -, -⟩ := exists_trim cs
  exact ⟨before, after, heq.symm⟩

theorem suffix_of_directiveHead? {names : List String} {cs name inside : List Char}
    (h : directiveHead? names cs = some (name, inside)) : inside <:+ cs := by
  obtain ⟨w, -, -, gap, rfl, -⟩ := directiveHead?_eq_some h
  exact ⟨'$' :: (name ++ (gap ++ ['('])), by simp⟩

theorem scanBlock_eq_found {cs inside : List Char} {name : BlockName}
    (h : scanBlock cs = .found name inside) :
    ∃ written argument rest,
      directiveHead? ["if", "else", "endif", "include"] cs = some (written, argument) ∧
        closeGroup? 0 argument = some (inside, rest) ∧ ∀ c ∈ rest, isBlank c := by
  unfold scanBlock at h
  split at h
  · cases h
  · rename_i written argument hhead
    split at h
    · rename_i hclose
      split_ifs at h with blank
      cases h
      exact ⟨written, argument, _, hhead, hclose, trim_eq_nil_iff.1 (List.isEmpty_iff.1 blank)⟩
    · cases h

theorem infix_of_scanBlock {cs inside : List Char} {name : BlockName}
    (h : scanBlock cs = .found name inside) : inside <:+: cs := by
  obtain ⟨written, argument, rest, hhead, hclose, -⟩ := scanBlock_eq_found h
  have closed : inside <+: argument := ⟨_, (closeGroup?_eq_some hclose).symm⟩
  exact closed.isInfix.trans (suffix_of_directiveHead? hhead).isInfix

theorem infix_of_definition? {cs index value : List Char}
    (h : definition? cs = some (index, value)) : index <:+: cs ∧ value <:+: cs := by
  unfold definition? at h
  split at h
  · cases h
  · rename_i inside hhead
    have argument := (suffix_of_directiveHead? hhead).isInfix
    split at h
    · rename_i r hr
      split at h
      · rename_i v hv
        split_ifs at h
        obtain ⟨rfl, rfl⟩ := Prod.mk.inj (Option.some.inj h)
        have behind : ')' :: r <:+ inside := hr ▸ List.dropWhile_suffix _
        have assigned : '=' :: v <:+ r := hv ▸ List.dropWhile_suffix _
        have tail : v <:+: inside := ((List.suffix_cons '=' v).trans
          (assigned.trans ((List.suffix_cons ')' r).trans behind))).isInfix
        exact ⟨(List.takeWhile_prefix _).isInfix.trans argument,
          (trim_isInfix v).trans (tail.trans argument)⟩
      · cases h
    · cases h

theorem isPlain_of_definition? {cs index value : List Char}
    (h : definition? cs = some (index, value)) : IsPlain index := by
  unfold definition? at h
  split at h
  · cases h
  · split at h
    · split at h
      · split_ifs at h
        obtain ⟨rfl, rfl⟩ := Prod.mk.inj (Option.some.inj h)
        intro c hc
        have := List.mem_takeWhile_imp hc
        simpa [isParenthesis] using this
      · cases h
    · cases h

/-! ## Replacing -/

section Replacing

variable (R : Type) [Scalar R]

theorem expandText_of_unclosed {cs written : List Char} (h : scanInline cs = .unclosed written)
    (d : Dictionary) : expandText R cs d =
      (.error (.fatal (.unclosed (String.ofList (Text.lower written)))), d) := by
  rw [expandText]
  split <;> simp_all

theorem expandText_of_found {cs before written inside rest : List Char}
    (h : scanInline cs = .found before written inside rest) (d : Dictionary) :
    expandText R cs d =
      match expandText R inside d with
      | (.error e, d) => (.error e, d)
      | (.ok argument, d) =>
        match evaluate R (.ofWritten written) argument d with
        | (.error e, d) => (.error e, d)
        | (.ok value, d) =>
          match expandText R rest d with
          | (.error e, d) => (.error e, d)
          | (.ok tail, d) => (.ok (before ++ value ++ tail), d) := by
  rw [expandText]
  split
  · simp_all
  · simp_all
  · rename_i h'
    obtain ⟨rfl, rfl, rfl, rfl⟩ : _ ∧ _ ∧ _ ∧ _ := by simpa using h.symm.trans h'
    rfl

theorem evaluate_ne_fatal (name : InlineName) (argument : List Char) (d d' : Dictionary)
    (fault : StructureFault) : evaluate R name argument d ≠ (.error (.fatal fault), d') := by
  intro h
  unfold evaluate at h
  dsimp only at h
  split at h
  · split at h <;> cases h
  · split at h <;> cases h
  · split at h
    · split at h <;> cases h
    · cases h

theorem evaluate_substitutions (name : InlineName) (argument : List Char) (d : Dictionary) :
    (evaluate R name argument d).2.substitutions = d.substitutions := by
  unfold evaluate
  dsimp only
  split
  · split <;> rfl
  · split <;> rfl
  · split
    · split <;> rfl
    · rfl

/-- Replacing directives defines nothing. -/
theorem expandText_substitutions (cs : List Char) (d : Dictionary) :
    (expandText R cs d).2.substitutions = d.substitutions := by
  induction cs using scan_induction generalizing d with
  | absent cs h => rw [expandText_of_absent R h]
  | unclosed cs written h => rw [expandText_of_unclosed R h]
  | found cs before written inside rest h ihInside ihRest =>
    have inside_eq := ihInside d
    rw [expandText_of_found R h]
    rcases he : expandText R inside d with ⟨_ | argument, d₁⟩ <;> rw [he] at inside_eq
    · exact inside_eq
    · have value_eq := evaluate_substitutions R (.ofWritten written) argument d₁
      dsimp only
      rcases hv : evaluate R (.ofWritten written) argument d₁ with ⟨_ | value, d₂⟩ <;>
        rw [hv] at value_eq
      · exact value_eq.trans inside_eq
      · have rest_eq := (ihRest d₂).trans (value_eq.trans inside_eq)
        dsimp only
        rcases hr : expandText R rest d₂ with ⟨_ | tail, d₃⟩ <;> rw [hr] at rest_eq <;>
          exact rest_eq

end Replacing

/-! ## Texts without random numbers -/

/-- Whether no directive for a random number stands in a text. -/
def IsDrawless (cs : List Char) : Prop := ∀ r, r <:+ cs → directiveHead? ["rnd"] r = none

theorem isDrawless_of_plain {cs : List Char} (plain : '$' ∉ cs) : IsDrawless cs :=
  fun _ hr => directiveHead?_eq_none (fun h => plain (hr.subset h)) _

theorem IsDrawless.of_isInfix {cs xs : List Char} (h : IsDrawless cs) (hx : xs <:+: cs) :
    IsDrawless xs := by
  intro r hr
  obtain ⟨front, back, rfl⟩ := hx
  obtain ⟨skipped, rfl⟩ := hr
  cases hhead : directiveHead? ["rnd"] r with
  | none => rfl
  | some x =>
    obtain ⟨w, hw, spelled, gap, rfl, blank⟩ := directiveHead?_eq_some hhead
    obtain rfl := List.mem_singleton.1 hw
    have longer := h ('$' :: (x.1 ++ (gap ++ '(' :: x.2)) ++ back) ⟨front ++ skipped, by simp⟩
    have found := directiveHead?_of_spelled spelled blank (x.2 ++ back)
    simp_all

theorem IsDrawless.ofWritten_ne {cs written after : List Char} (h : IsDrawless cs)
    (hhead : directiveHead? ["chr", "rnd", "sub"] cs = some (written, after)) :
    InlineName.ofWritten written ≠ .random := by
  obtain ⟨w, hw, spelled, gap, rfl, blank⟩ := directiveHead?_eq_some hhead
  intro hrandom
  have lowered : Text.lower written = "rnd".toList := by
    unfold InlineName.ofWritten at hrandom
    split_ifs at hrandom with h₁ h₂
    exact h₂
  simp only [List.mem_cons, List.not_mem_nil, or_false] at hw
  rcases hw with rfl | rfl | rfl
  · have chr : "chr".toList = ['c', 'h', 'r'] := rfl
    obtain ⟨c, r, first, -, rfl⟩ := List.forall₂_cons_left_iff.1 (chr ▸ spelled)
    have : c.toLower = 'c' := by simpa [foldsTo] using first
    simp [Text.lower, this] at lowered
  · have found := directiveHead?_of_spelled spelled blank after
    rw [h _ List.suffix_rfl] at found
    cases found
  · have sub : "sub".toList = ['s', 'u', 'b'] := rfl
    obtain ⟨c, r, -, others, rfl⟩ := List.forall₂_cons_left_iff.1 (sub ▸ spelled)
    obtain ⟨c', r, second, -, rfl⟩ := List.forall₂_cons_left_iff.1 others
    have : c'.toLower = 'u' := by simpa [foldsTo] using second
    simp [Text.lower, this] at lowered

section Drawless

variable (R : Type) [Scalar R]

theorem exists_evaluate_eq {name : InlineName} (h : name ≠ .random) (argument : List Char)
    (substitutions : Std.TreeMap Int (List Char) compare) :
    ∃ x, ∀ g, evaluate R name argument ⟨g, substitutions⟩ = (x, ⟨g, substitutions⟩) := by
  cases name with
  | character =>
    cases hc : characterOf? R argument with
    | none => exact ⟨_, fun g => by simp only [evaluate, hc]; rfl⟩
    | some c => exact ⟨_, fun g => by simp only [evaluate, hc]; rfl⟩
  | random => exact absurd rfl h
  | substitution =>
    cases hn : wholeNumber? R argument with
    | none => exact ⟨_, fun g => by simp only [evaluate, hn]; rfl⟩
    | some i =>
      cases hi : substitutions[i]? with
      | none => exact ⟨_, fun g => by simp only [evaluate, hn, hi]; rfl⟩
      | some value => exact ⟨_, fun g => by simp only [evaluate, hn, hi]; rfl⟩

/-- Without random numbers, what a text comes to depends on the substitutions alone, and nothing is
drawn. -/
theorem expandText_of_drawless {cs : List Char} (h : IsDrawless cs)
    (substitutions : Std.TreeMap Int (List Char) compare) :
    ∃ x, ∀ g, expandText R cs ⟨g, substitutions⟩ = (x, ⟨g, substitutions⟩) := by
  induction cs using scan_induction with
  | absent cs hscan => exact ⟨_, fun g => expandText_of_absent R hscan _⟩
  | unclosed cs written hscan => exact ⟨_, fun g => expandText_of_unclosed R hscan _⟩
  | found cs before written inside rest hscan ihInside ihRest =>
    obtain ⟨head, rfl, hhead⟩ := scanInline_eq_found hscan
    have headDrawless : IsDrawless head := h.of_isInfix (List.suffix_append ..).isInfix
    obtain ⟨w, -, -, gap, rfl, -⟩ := directiveHead?_eq_some hhead
    obtain ⟨x, hx⟩ := ihInside (headDrawless.of_isInfix ⟨'$' :: (written ++ (gap ++ ['('])),
      ')' :: rest, by simp⟩)
    obtain ⟨z, hz⟩ := ihRest (headDrawless.of_isInfix ⟨'$' :: (written ++ (gap ++ '(' ::
      (inside ++ [')']))), [], by simp⟩)
    have found := expandText_of_found R hscan
    cases x with
    | error e => exact ⟨.error e, fun g => by simp only [found, hx]⟩
    | ok argument =>
      obtain ⟨y, hy⟩ :=
        exists_evaluate_eq R (headDrawless.ofWritten_ne hhead) argument substitutions
      cases y with
      | error e => exact ⟨.error e, fun g => by simp only [found, hx, hy]⟩
      | ok value =>
        cases z with
        | error e => exact ⟨.error e, fun g => by simp only [found, hx, hy, hz]⟩
        | ok tail =>
          exact ⟨.ok (before ++ value ++ tail), fun g => by simp only [found, hx, hy, hz]⟩

end Drawless

end RailRoute.Source
