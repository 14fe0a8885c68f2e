import Mathlib
import RailRoute.Command.Interpret
import RailRoute.Source.Order

/-!
# Two ways to tell a track position

Sorting takes an expression for a track position if the whole of it is a length. The passes separate
the command from its arguments first, and take the expression for a position without arguments if
the command is a length and the arguments are empty. These differ in two cases only, an empty group
behind a length and a blank inside of one. Main statements: `barePosition?_eq_some` and
`marker?_eq_barePosition?`.
-/

namespace RailRoute

namespace Text

variable {cs : List Char}

/-! ## Blanks -/

theorem trimEnd_eq_rdropWhile (cs : List Char) : trimEnd cs = cs.rdropWhile isBlank := rfl

/-- A text is blanks, its trimmed part, and blanks. -/
theorem exists_trim (cs : List Char) :
    ∃ before after, cs = before ++ trim cs ++ after ∧ (∀ c ∈ before, isBlank c) ∧
      ∀ c ∈ after, isBlank c := by
  refine ⟨cs.takeWhile isBlank, (trimStart cs).rtakeWhile isBlank, ?_, ?_, ?_⟩
  · rw [List.append_assoc, trim, trimEnd_eq_rdropWhile, List.rdropWhile_append_rtakeWhile]
    exact List.takeWhile_append_dropWhile.symm
  · exact fun c hc => List.mem_takeWhile_imp hc
  · exact fun c hc => List.mem_rtakeWhile_imp hc

theorem mem_trim {c : Char} (h : c ∈ cs) (hc : ¬ isBlank c) : c ∈ trim cs := by
  obtain ⟨before, after, heq, hb, ha⟩ := exists_trim cs
  rw [heq, List.mem_append, List.mem_append] at h
  rcases h with (h | h) | h
  · exact absurd (hb c h) hc
  · exact h
  · exact absurd (ha c h) hc

theorem trim_eq_nil_iff : trim cs = [] ↔ ∀ c ∈ cs, isBlank c := by
  constructor
  · intro h c hc
    by_contra hb
    have := mem_trim hc hb
    simp [h] at this
  · intro h
    have start : trimStart cs = [] := List.dropWhile_eq_nil_iff.2 h
    rw [trim, start]
    rfl

theorem not_isBlank_getLast_trim (h : trim cs ≠ []) : ¬ isBlank ((trim cs).getLast h) :=
  List.rdropWhile_last_not _ _ h

theorem not_isBlank_of_trim_eq {xs : List Char} {c : Char} (h : trim cs = xs ++ [c]) :
    ¬ isBlank c := by
  have hne : trim cs ≠ [] := by simp [h]
  have := not_isBlank_getLast_trim hne
  simpa [h] using this

theorem trim_prefix_trimStart (cs : List Char) : trim cs <+: trimStart cs :=
  List.rdropWhile_prefix _ _

theorem not_isBlank_of_trim_eq_cons {c : Char} {r : List Char} (h : trim cs = c :: r) :
    ¬ isBlank c := by
  obtain ⟨rest, hrest⟩ := trim_prefix_trimStart cs
  have start : cs.dropWhile isBlank = c :: (r ++ rest) := by
    rw [← List.cons_append, ← h]
    exact hrest.symm
  have first := List.head_dropWhile_not isBlank (l := cs) (by simp [start])
  simpa [start] using first

/-- What a trimmed text ends with has no blanks at its end either. -/
theorem exists_trim_of_suffix {xs ys : List Char} (h : trim cs = xs ++ ys) (hy : ys ≠ []) :
    trim ys ≠ [] ∧ ∃ before, ys = before ++ trim ys ∧ ∀ c ∈ before, isBlank c := by
  have last (init : List Char) (c : Char) (hys : ys = init ++ [c]) : ¬ isBlank c :=
    not_isBlank_of_trim_eq (by rw [h, hys, List.append_assoc])
  obtain ⟨before, after, heq, hbefore, hafter⟩ := exists_trim ys
  constructor
  · intro hnil
    obtain ⟨init, c, hys⟩ := (List.eq_nil_or_concat' ys).resolve_left hy
    exact last init c hys (trim_eq_nil_iff.1 hnil c (by simp [hys]))
  · rcases List.eq_nil_or_concat' after with rfl | ⟨after, c, rfl⟩
    · exact ⟨before, by rwa [List.append_nil] at heq, hbefore⟩
    · rw [← List.append_assoc] at heq
      exact absurd (hafter c (by simp)) (last _ c heq)

theorem trim_append_of_isBlank {before : List Char} (h : ∀ c ∈ before, isBlank c) :
    trim (before ++ cs) = trim cs := by
  rw [trim, trimStart, List.dropWhile_append_of_pos h]
  rfl

theorem trimEnd_eq_self (h : ∀ c ∈ cs, ¬ isBlank c) : trimEnd cs = cs :=
  List.rdropWhile_eq_self_iff.2 fun hl => h _ (List.getLast_mem hl)

theorem trim_group (inside : List Char) :
    trim ('(' :: inside ++ [')']) = '(' :: inside ++ [')'] := by
  have start : trimStart ('(' :: inside ++ [')']) = '(' :: inside ++ [')'] := rfl
  rw [trim, start, trimEnd_eq_rdropWhile, List.rdropWhile_concat_neg _ _ _ (by decide)]

/-! ## Parentheses -/

/-- Whether a text is without parentheses. -/
def IsPlain (cs : List Char) : Prop := ∀ c ∈ cs, c ≠ '(' ∧ c ≠ ')'

instance (cs : List Char) : Decidable (IsPlain cs) := List.decidableBAll _ cs

theorem isPlain_of_isBlank (h : ∀ c ∈ cs, isBlank c) : IsPlain cs := by
  rintro c hc
  constructor <;> rintro rfl <;> exact absurd (h _ hc) (by decide)

theorem exists_of_map_cons {x? : Option (List Char × List Char)} {c : Char} {a b : List Char}
    (h : x?.map (fun x => (c :: x.1, x.2)) = some (a, b)) :
    ∃ a', x? = some (a', b) ∧ a = c :: a' := by
  obtain ⟨⟨a', b'⟩, hx, heq⟩ := Option.map_eq_some_iff.1 h
  obtain ⟨rfl, rfl⟩ := Prod.mk.inj heq
  exact ⟨a', hx, rfl⟩

section Cut

variable {p : Char → Bool} {xs : List Char}

theorem cutOutside?_append (h : IsPlain xs) (hp : ∀ c ∈ xs, ¬ p c) (depth : Nat) (ys : List Char) :
    cutOutside? p depth (xs ++ ys) = (cutOutside? p depth ys).map fun x => (xs ++ x.1, x.2) := by
  induction xs with
  | nil => simp
  | cons c xs ih =>
    obtain ⟨hc, hxs⟩ := List.forall_mem_cons.1 h
    obtain ⟨hpc, hpxs⟩ := List.forall_mem_cons.1 hp
    simp [cutOutside?, hc.1, hc.2, hpc, ih hxs hpxs, Function.comp_def]

theorem cutOutside?_append_of_depth (h : IsPlain xs) (depth : Nat) (ys : List Char) :
    cutOutside? p (depth + 1) (xs ++ ys) =
      (cutOutside? p (depth + 1) ys).map fun x => (xs ++ x.1, x.2) := by
  induction xs with
  | nil => simp
  | cons c xs ih =>
    obtain ⟨hc, hxs⟩ := List.forall_mem_cons.1 h
    simp [cutOutside?, hc.1, hc.2, ih hxs, Function.comp_def]

theorem cutOutside?_group {inside : List Char} (h : IsPlain inside) :
    cutOutside? p 0 ('(' :: inside ++ [')']) = none := by
  simp [cutOutside?, cutOutside?_append_of_depth h]

/-- A text is cut before the first character that satisfies `p` if no parenthesis stands in front
of it. -/
theorem cutOutside?_of_mem (h : IsPlain xs) {c : Char} (hc : c ∈ xs) (hp : p c) (ys : List Char) :
    ∃ a b, xs = a ++ b ∧ b ≠ [] ∧ (∀ c ∈ a, ¬ p c) ∧
      cutOutside? p 0 (xs ++ ys) = some (a, b ++ ys) := by
  have uncut : ∀ c ∈ xs.takeWhile (!p ·), ¬ p c := fun c hc => by
    simpa using List.mem_takeWhile_imp hc
  have hnil : xs.dropWhile (!p ·) ≠ [] := fun hnil => by
    simpa [hp] using List.dropWhile_eq_nil_iff.1 hnil c hc
  refine ⟨xs.takeWhile (!p ·), xs.dropWhile (!p ·), List.takeWhile_append_dropWhile.symm, hnil,
    uncut, ?_⟩
  obtain ⟨d, r, hd⟩ := List.exists_cons_of_ne_nil hnil
  have cut : p d := by
    have := List.head_dropWhile_not (!p ·) hnil
    simpa [hd] using this
  have plain : d ≠ '(' ∧ d ≠ ')' :=
    h d ((List.dropWhile_suffix _).subset (hd ▸ List.mem_cons_self ..))
  conv_lhs => rw [← List.takeWhile_append_dropWhile (p := (!p ·)) (l := xs), List.append_assoc]
  rw [cutOutside?_append (fun c hc => h c ((List.takeWhile_prefix _).subset hc)) uncut, hd]
  simp [cutOutside?, plain.1, plain.2, cut]

theorem cutOutside?_eq_some {depth : Nat} {cs a b : List Char}
    (h : cutOutside? p depth cs = some (a, b)) : cs = a ++ b ∧ ∃ c r, b = c :: r ∧ p c := by
  induction cs generalizing depth a with
  | nil => cases h
  | cons c cs ih =>
    have further {depth : Nat}
        (h : (cutOutside? p depth cs).map (fun x => (c :: x.1, x.2)) = some (a, b)) :
        c :: cs = a ++ b ∧ ∃ c r, b = c :: r ∧ p c := by
      obtain ⟨a, hx, rfl⟩ := exists_of_map_cons h
      exact (ih hx).imp_left (congrArg (c :: ·))
    rw [cutOutside?] at h
    split_ifs at h with hopen hclose hcut
    · exact further h
    · exact further h
    · obtain ⟨rfl, rfl⟩ := Prod.mk.inj (Option.some.inj h)
      exact ⟨rfl, c, cs, rfl, hcut.2⟩
    · exact further h

end Cut

theorem openGroup?_append {xs : List Char} (h : IsPlain xs) (ys : List Char) :
    openGroup? 0 (xs ++ '(' :: ys) = some (xs, ys) := by
  induction xs with
  | nil => simp [openGroup?]
  | cons c xs ih =>
    obtain ⟨hc, hxs⟩ := List.forall_mem_cons.1 h
    simp [openGroup?, hc.1, hc.2, ih hxs]

theorem openGroup?_eq_some {depth : Nat} {cs a b : List Char}
    (h : openGroup? depth cs = some (a, b)) : cs = a ++ '(' :: b := by
  induction cs generalizing depth a with
  | nil => cases h
  | cons c cs ih =>
    have further {depth : Nat}
        (h : (openGroup? depth cs).map (fun x => (c :: x.1, x.2)) = some (a, b)) :
        c :: cs = a ++ '(' :: b := by
      obtain ⟨a, hx, rfl⟩ := exists_of_map_cons h
      exact congrArg (c :: ·) (ih hx)
    unfold openGroup? at h
    split_ifs at h with hclose hopen
    · exact further h
    · cases depth with
      | zero =>
        obtain ⟨rfl, rfl⟩ := Prod.mk.inj (Option.some.inj h)
        rw [hopen, List.nil_append]
      | succ depth => exact further h
    · exact further h

theorem trailingGroup?_eq_none {cs : List Char} (h : ')' ∉ cs) : trailingGroup? cs = none := by
  unfold trailingGroup?
  split
  · rename_i r hr
    have : ')' ∈ cs := by
      rw [← List.mem_reverse, hr]
      exact List.mem_cons_self ..
    exact absurd this h
  · rfl

theorem trailingGroup?_append {inside : List Char} (h : IsPlain inside) (before : List Char) :
    trailingGroup? (before ++ '(' :: inside ++ [')']) = some (before, inside) := by
  have plain : IsPlain inside.reverse := fun c hc => h c (List.mem_reverse.1 hc)
  simp [trailingGroup?, openGroup?_append plain]

theorem trailingGroup?_eq_some {before inside : List Char}
    (h : trailingGroup? cs = some (before, inside)) : cs = before ++ '(' :: inside ++ [')'] := by
  unfold trailingGroup? at h
  split at h
  · rename_i r hr
    obtain ⟨⟨a, b⟩, hx, heq⟩ := Option.map_eq_some_iff.1 h
    obtain ⟨rfl, rfl⟩ := Prod.mk.inj heq
    rw [← List.reverse_reverse cs, hr, openGroup?_eq_some hx]
    simp
  · cases h

end Text

namespace Source

open Text

/-! ## Characters of lengths -/

/-- Whether a character has no place in a number: it is no digit, sign or point, and no letter that
begins an exponent. -/
def IsForeign (c : Char) : Prop := ¬ isDigit c ∧ c ∉ ['-', '+', '.', 'e', 'E']

section Characters

variable {x : Char} {cs : List Char}

theorem mem_afterDigits (hx : IsForeign x) (h : x ∈ cs) : x ∈ afterDigits cs := by
  rw [← List.takeWhile_append_dropWhile (p := isDigit) (l := cs), List.mem_append] at h
  exact h.resolve_left fun hd => hx.1 (List.mem_takeWhile_imp hd)

theorem mem_takeSign (hx : IsForeign x) (h : x ∈ cs) : x ∈ (takeSign cs).2 := by
  unfold takeSign
  split
  · rcases List.mem_cons.1 h with rfl | h
    · exact absurd hx.2 (by decide)
    · exact h
  · rcases List.mem_cons.1 h with rfl | h
    · exact absurd hx.2 (by decide)
    · exact h
  · exact h

theorem mem_takeFraction (hx : IsForeign x) (h : x ∈ cs) (whole : List Char) :
    x ∈ (takeFraction whole cs).2 := by
  unfold takeFraction
  split
  · split_ifs
    · exact h
    · rcases List.mem_cons.1 h with rfl | h
      · exact absurd hx.2 (by decide)
      · exact mem_afterDigits hx h
  · exact h

theorem mem_takeExponent (hx : IsForeign x) (h : x ∈ cs) : x ∈ (takeExponent cs).2 := by
  unfold takeExponent
  split
  · split
    · rename_i hc
      dsimp only
      split
      · exact h
      · rcases List.mem_cons.1 h with rfl | h
        · rcases hc with rfl | rfl <;> exact absurd hx.2 (by decide)
        · exact mem_afterDigits hx (mem_takeSign hx h)
    · exact h
  · exact h

theorem mem_of_takeNumber (hx : IsForeign x) {d : Decimal} {rest : List Char}
    (hn : takeNumber cs = some (d, rest)) (h : x ∈ cs) : x ∈ rest := by
  unfold takeNumber at hn
  dsimp only at hn
  split_ifs at hn
  obtain ⟨-, rfl⟩ := Prod.mk.inj (Option.some.inj hn)
  exact mem_takeExponent hx (mem_takeFraction hx (mem_afterDigits hx (mem_takeSign hx h)) _)

theorem exists_mem_parts {separates : Char → Bool} (hx : ¬ separates x) (h : x ∈ cs) :
    ∃ p ∈ parts separates cs, x ∈ p := by
  induction cs with
  | nil => simp at h
  | cons c cs ih =>
    unfold parts at ih ⊢
    rw [List.foldr_cons]
    generalize List.foldr _ [[]] cs = ps at ih ⊢
    rcases List.mem_cons.1 h with rfl | h
    · rw [if_neg hx]
      cases ps <;> simp
    · obtain ⟨q, hq, hxq⟩ := ih h
      split_ifs
      · exact ⟨q, List.mem_cons_of_mem _ hq, hxq⟩
      · cases ps with
        | nil => simp at hq
        | cons p ps =>
          rcases List.mem_cons.1 hq with rfl | hq
          · exact ⟨c :: q, List.mem_cons_self .., List.mem_cons_of_mem _ hxq⟩
          · exact ⟨q, List.mem_cons_of_mem _ hq, hxq⟩

variable {R : Type} [Scalar R]

theorem not_mem_of_parseNumber (hx : IsForeign x) (hb : ¬ isBlank x)
    (h : (parseNumber cs : Option R).isSome) : x ∉ cs := by
  intro hmem
  unfold parseNumber at h
  split at h
  · rename_i d hn
    simpa using mem_of_takeNumber hx hn (mem_trim hmem hb)
  · cases h

theorem parseNumber_isSome_of_mem {l : List (List Char × R)} {total v : R}
    (h : weightedSum l total = some v) : ∀ p ∈ l, (parseNumber p.1 : Option R).isSome := by
  induction l generalizing total with
  | nil => simp
  | cons p l ih =>
    unfold weightedSum at h
    split at h
    · rename_i x hx
      exact List.forall_mem_cons.2 ⟨by simp [hx], ih h⟩
    · cases h

theorem not_mem_of_parseLength (hx : IsForeign x) (hb : ¬ isBlank x) (hs : x ≠ ':')
    {factors : List R} {v : R} (h : parseLength factors cs = some v) : x ∉ cs := by
  unfold parseLength at h
  dsimp only at h
  split_ifs at h with hlen
  have numbers : ∀ p ∈ parts (· = ':') cs, (parseNumber p : Option R).isSome := by
    intro p hp
    have fits : (parts (· = ':') cs).length ≤
        (factors.drop (factors.length - (parts (· = ':') cs).length)).length := by
      rw [List.length_drop]
      omega
    rw [← List.map_fst_zip fits] at hp
    obtain ⟨y, hy, rfl⟩ := List.mem_map.1 hp
    exact parseNumber_isSome_of_mem h y hy
  intro hmem
  obtain ⟨p, hp, hxp⟩ : ∃ p ∈ parts (· = ':') cs, x ∈ p :=
    exists_mem_parts (by simpa using hs) hmem
  exact not_mem_of_parseNumber (R := R) hx hb (numbers p hp) hxp

theorem isPlain_of_parseLength {factors : List R} {v : R} (h : parseLength factors cs = some v) :
    IsPlain cs := by
  rintro c hc
  constructor <;> rintro rfl <;>
    exact not_mem_of_parseLength ⟨by decide, by decide⟩ (by decide) (by decide) h hc

theorem parseLength_nil (factors : List R) : parseLength factors [] = none := by
  change (if factors.length < 1 then none
    else weightedSum ([[]].zip (factors.drop (factors.length - 1))) 0) = none
  split_ifs with h
  · rfl
  · cases hf : factors.drop (factors.length - 1) with
    | nil =>
      have := List.drop_eq_nil_iff.1 hf
      omega
    | cons f fs => rfl

end Characters

/-! ## Positions without arguments -/

variable {R : Type} [Scalar R]

/-- The track position that an expression is, if its command is a length and it has no
arguments. -/
def barePosition? (factors : List R) (e : Expression) : Option R :=
  let parts := separate e.text.toList
  if parts.2.isEmpty then parseLength factors parts.1 else none

/-- Whether an expression is a text without blanks, perhaps blanks, and a group with nothing but
blanks. -/
structure HasEmptyGroup (e : Expression) (length gap inside : List Char) : Prop where
  text : trim e.text.toList = length ++ gap ++ '(' :: inside ++ [')']
  length : ∀ c ∈ length, ¬ isBlank c
  gap : ∀ c ∈ gap, isBlank c
  inside : ∀ c ∈ inside, isBlank c

variable {factors : List R} {e : Expression} {v : R}

theorem separate_of_isPlain {cs : List Char} (plain : IsPlain (trim cs))
    (solid : ∀ c ∈ trim cs, ¬ isBlank c) : separate cs = (trim cs, []) := by
  have uncut : cutOutside? isBlank 0 (trim cs) = none := by
    have := cutOutside?_append plain solid 0 []
    rwa [List.append_nil] at this
  have ungrouped : trailingGroup? (trim cs) = none :=
    trailingGroup?_eq_none fun hmem => (plain _ hmem).2 rfl
  simp only [separate, uncut, ungrouped]

theorem HasEmptyGroup.separate {length gap inside : List Char}
    (h : HasEmptyGroup e length gap inside) (plain : IsPlain length) (ne : length ≠ []) :
    separate e.text.toList = (length, []) := by
  have blank : trim inside = [] := trim_eq_nil_iff.2 h.inside
  have trimmed : trimEnd length = length := trimEnd_eq_self h.length
  have hinside : IsPlain inside := isPlain_of_isBlank h.inside
  unfold Source.separate
  cases gap with
  | nil =>
    obtain ⟨c, command, rfl⟩ := List.exists_cons_of_ne_nil ne
    have text : trim e.text.toList = (c :: command) ++ '(' :: inside ++ [')'] := by
      rw [h.text, List.append_nil]
    have uncut : cutOutside? isBlank 0 (trim e.text.toList) = none := by
      rw [text, List.append_assoc, cutOutside?_append plain h.length, cutOutside?_group hinside]
      rfl
    have group : trailingGroup? (trim e.text.toList) = some (c :: command, inside) := by
      rw [text, trailingGroup?_append hinside]
    simp only [uncut, group, trimmed, blank]
  | cons g gap =>
    have hg : isBlank g := h.gap g (List.mem_cons_self ..)
    have text : trim e.text.toList = length ++ (g :: gap ++ ('(' :: inside ++ [')'])) := by
      rw [h.text]
      simp
    have plainGap : IsPlain (g :: gap) := isPlain_of_isBlank h.gap
    have cut : cutOutside? isBlank 0 (trim e.text.toList) =
        some (length, g :: gap ++ ('(' :: inside ++ [')'])) := by
      obtain ⟨hopen, hclose⟩ := plainGap g (List.mem_cons_self ..)
      rw [text, cutOutside?_append plain h.length, List.cons_append, cutOutside?]
      simp [hopen, hclose, hg]
    have group : trailingGroup? ('(' :: inside ++ [')']) = some ([], inside) :=
      trailingGroup?_append hinside []
    simp only [cut, trimmed, trim_append_of_isBlank h.gap, trim_group, stripGroup, group, blank]

theorem isPlain_of_trimEnd {cs : List Char} (h : IsPlain (trimEnd cs)) : IsPlain cs := by
  rw [← List.rdropWhile_append_rtakeWhile (p := isBlank) (l := cs)]
  intro c hc
  rcases List.mem_append.1 hc with hc | hc
  · exact h c hc
  · exact isPlain_of_isBlank (fun c hc => List.mem_rtakeWhile_imp hc) c hc

theorem stripGroup_eq_nil {cs : List Char} (h : stripGroup cs = []) (ne : cs ≠ []) :
    ∃ inside, cs = '(' :: inside ++ [')'] ∧ ∀ c ∈ inside, isBlank c := by
  unfold stripGroup at h
  split at h
  · rename_i inside hg
    exact ⟨inside, trailingGroup?_eq_some hg, trim_eq_nil_iff.1 h⟩
  · exact absurd h ne

/-- A text is cut at its first blank, so a beginning of it that is not cut has none. -/
theorem not_isBlank_of_uncut {cs xs ys : List Char} (hcs : cs = xs ++ ys) (plain : IsPlain xs)
    (uncut : ∀ a b, cutOutside? isBlank 0 cs = some (a, b) → a = xs) : ∀ c ∈ xs, ¬ isBlank c := by
  intro c hc hb
  obtain ⟨a, b, hab, hne, -, hcut⟩ := cutOutside?_of_mem plain hc hb ys
  rw [← hcs] at hcut
  obtain rfl := uncut a _ hcut
  exact hne (List.append_right_eq_self.1 hab.symm)

/-- An expression with blanks is a position without arguments only if an empty group stands behind
the first blanks. -/
theorem HasEmptyGroup.of_cut {command rest : List Char}
    (hcut : cutOutside? isBlank 0 (trim e.text.toList) = some (command, rest))
    (empty : stripGroup (trim rest) = []) (hv : parseLength factors (trimEnd command) = some v) :
    ∃ gap inside, HasEmptyGroup e command gap inside ∧ parseLength factors command = some v := by
  obtain ⟨htext, c, r, rfl, -⟩ := cutOutside?_eq_some hcut
  have solid : ∀ c ∈ command, ¬ isBlank c :=
    not_isBlank_of_uncut htext (isPlain_of_trimEnd (isPlain_of_parseLength hv)) fun a b h => by
      rw [hcut] at h
      exact (Prod.mk.inj (Option.some.inj h)).1.symm
  obtain ⟨ne, gap, hrest, hgap⟩ := exists_trim_of_suffix htext (List.cons_ne_nil c r)
  obtain ⟨inside, hgroup, hinside⟩ := stripGroup_eq_nil empty ne
  rw [trimEnd_eq_self solid] at hv
  refine ⟨gap, inside, ⟨?_, solid, hgap, hinside⟩, hv⟩
  rw [htext, hrest, hgroup]
  simp

/-- An expression with a group at its end and no blanks in front of it is a position without
arguments only if the group is empty. -/
theorem HasEmptyGroup.of_uncut {command inside : List Char}
    (hcut : cutOutside? isBlank 0 (trim e.text.toList) = none)
    (hgroup : trailingGroup? (trim e.text.toList) = some (command, inside))
    (empty : trim inside = []) (hv : parseLength factors (trimEnd command) = some v) :
    HasEmptyGroup e command [] inside ∧ parseLength factors command = some v := by
  have htext := trailingGroup?_eq_some hgroup
  have solid : ∀ c ∈ command, ¬ isBlank c :=
    not_isBlank_of_uncut (htext.trans (List.append_assoc ..))
      (isPlain_of_trimEnd (isPlain_of_parseLength hv)) fun a b h => by simp [hcut] at h
  rw [trimEnd_eq_self solid] at hv
  refine ⟨⟨?_, solid, by simp, trim_eq_nil_iff.1 empty⟩, hv⟩
  rw [htext, List.append_nil]

/-- An expression is a position without arguments if it is a length without blanks, or such a
length with an empty group behind it. -/
theorem barePosition?_eq_some : barePosition? factors e = some v ↔
    (marker? factors e = some v ∧ ∀ c ∈ trim e.text.toList, ¬ isBlank c) ∨
      ∃ length gap inside, HasEmptyGroup e length gap inside ∧
        parseLength factors length = some v := by
  constructor
  · intro h
    unfold barePosition? Source.separate at h
    dsimp only at h
    split at h
    · rename_i command rest hcut
      split_ifs at h with empty
      exact Or.inr ⟨command, HasEmptyGroup.of_cut hcut (List.isEmpty_iff.1 empty) h⟩
    · rename_i hcut
      split at h
      · rename_i c command inside hgroup
        split_ifs at h with empty
        exact Or.inr ⟨c :: command, [], inside,
          HasEmptyGroup.of_uncut hcut hgroup (List.isEmpty_iff.1 empty) h⟩
      · simp only [List.isEmpty_nil, if_true] at h
        refine Or.inl ⟨h, not_isBlank_of_uncut (List.append_nil _).symm
          (isPlain_of_parseLength h) fun a b hab => ?_⟩
        simp [hcut] at hab
  · rintro (⟨hm, solid⟩ | ⟨length, gap, inside, h, hv⟩)
    · have plain : IsPlain (trim e.text.toList) := isPlain_of_parseLength hm
      rw [barePosition?, separate_of_isPlain plain solid]
      simpa [marker?] using hm
    · have ne : length ≠ [] := by
        rintro rfl
        rw [parseLength_nil] at hv
        cases hv
      rw [barePosition?, h.separate (isPlain_of_parseLength hv) ne]
      simpa using hv

/-- Whether an expression is a length without blanks that an empty group follows. -/
def IsLengthWithGroup (factors : List R) (e : Expression) : Prop :=
  ∃ length gap inside, HasEmptyGroup e length gap inside ∧ (parseLength factors length).isSome

/-- Whether an expression is a length with a blank inside. -/
def IsLengthWithBlank (factors : List R) (e : Expression) : Prop :=
  (marker? factors e).isSome ∧ ∃ c ∈ trim e.text.toList, isBlank c

theorem marker?_of_isLengthWithGroup (h : IsLengthWithGroup factors e) :
    marker? factors e = none := by
  obtain ⟨length, gap, inside, h, -⟩ := h
  cases hm : marker? factors e with
  | none => rfl
  | some v =>
    have plain : IsPlain (trim e.text.toList) := isPlain_of_parseLength hm
    exact absurd rfl (plain '(' (by simp [h.text])).1

theorem marker?_of_barePosition? (h : barePosition? factors e = some v)
    (hgroup : ¬ IsLengthWithGroup factors e) : marker? factors e = some v := by
  rcases barePosition?_eq_some.1 h with ⟨hm, -⟩ | ⟨length, gap, inside, hg, hv⟩
  · exact hm
  · exact absurd ⟨length, gap, inside, hg, by simp [hv]⟩ hgroup

/-- Sorting and the passes agree about an expression unless it is a length with an empty group
behind it or with a blank inside. -/
theorem marker?_eq_barePosition? : marker? factors e = barePosition? factors e ↔
    ¬ IsLengthWithGroup factors e ∧ ¬ IsLengthWithBlank factors e := by
  constructor
  · intro heq
    constructor
    · intro hgroup
      have hnone := marker?_of_isLengthWithGroup hgroup
      obtain ⟨length, gap, inside, h, hv⟩ := hgroup
      obtain ⟨v, hv⟩ := Option.isSome_iff_exists.1 hv
      rw [hnone, barePosition?_eq_some.2 (Or.inr ⟨length, gap, inside, h, hv⟩)] at heq
      cases heq
    · rintro ⟨hm, c, hc, hb⟩
      obtain ⟨v, hm⟩ := Option.isSome_iff_exists.1 hm
      have bare := heq.symm.trans hm
      rcases barePosition?_eq_some.1 bare with ⟨-, solid⟩ | ⟨length, gap, inside, h, hv⟩
      · exact solid c hc hb
      · have hnone : marker? factors e = none :=
          marker?_of_isLengthWithGroup ⟨length, gap, inside, h, by simp [hv]⟩
        rw [hnone] at hm
        cases hm
  · rintro ⟨hgroup, hblank⟩
    cases hb : barePosition? factors e with
    | some v => exact marker?_of_barePosition? hb hgroup
    | none =>
      cases hm : marker? factors e with
      | none => rfl
      | some v =>
        have solid : ∀ c ∈ trim e.text.toList, ¬ isBlank c := fun c hc hblankc =>
          hblank ⟨by simp [hm], c, hc, hblankc⟩
        rw [barePosition?_eq_some.2 (Or.inl ⟨hm, solid⟩)] at hb
        cases hb

/-- What the passes take for a position without arguments in a CSV route, under whatever section. -/
theorem interpret_eq_position (he : e.header? = none) (s : Scope) :
    interpret .csv factors s e = .ok (.position v false) ↔ barePosition? factors e = some v := by
  unfold interpret barePosition?
  rw [he]
  dsimp only
  cases hp : parseLength factors (Source.separate e.text.toList).1 with
  | none =>
    simp only [decide_true, Bool.true_or, ite_self]
    split_ifs
    · simp
    · cases readCommand R s (Source.separate e.text.toList).1 (Source.separate e.text.toList).2 <;>
        simp [Except.map]
  | some w =>
    cases (Source.separate e.text.toList).2.isEmpty <;> simp

end Source

end RailRoute
