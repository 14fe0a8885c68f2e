import Mathlib
import RailRoute.Proofs.Source.Numeral

/-!
# Spellings around a group

A command with indices is a text, a group in parentheses and another text. Reading such a command
never looks for a word across the group: the rules for older spellings act on the texts around it
and leave the group alone. Main statements: `actsAround_canonical` and `interpret_grouped`.
-/

namespace RailRoute

open Text

/-! ## A character that is not in a word -/

namespace Text

variable {w x : List Char} {c : Char}

theorem isPrefixOf_append_cons (hc : c ∉ w) (y : List Char) :
    w.isPrefixOf (x ++ c :: y) = w.isPrefixOf x := by
  induction w generalizing x with
  | nil => simp
  | cons d w ih =>
    obtain ⟨hd, hw⟩ := not_or.1 (mt List.mem_cons.2 hc)
    cases x with
    | nil => simp [List.isPrefixOf, Ne.symm hd]
    | cons e x => simp [List.isPrefixOf, ih hw]

theorem isSuffixOf_append_cons (hc : c ∉ w) (y : List Char) :
    w.isSuffixOf (x ++ c :: y) = w.isSuffixOf y := by
  have turned : (x ++ c :: y).reverse = y.reverse ++ c :: x.reverse := by simp
  have absent : c ∉ w.reverse := fun h => hc (List.mem_reverse.1 h)
  rw [List.isSuffixOf, List.isSuffixOf, turned, isPrefixOf_append_cons absent]

theorem afterHead?_append_cons (hc : c ∉ w) (y : List Char) :
    afterHead? w (x ++ c :: y) = (afterHead? w x).map (· ++ c :: y) := by
  rw [afterHead?, afterHead?, isPrefixOf_append_cons hc]
  split_ifs with h
  · obtain ⟨r, rfl⟩ := List.isPrefixOf_iff_prefix.1 h
    simp
  · rfl

theorem beforeTail?_append_cons (hc : c ∉ w) (y : List Char) :
    beforeTail? w (x ++ c :: y) = (beforeTail? w y).map (x ++ c :: ·) := by
  rw [beforeTail?, beforeTail?, isSuffixOf_append_cons hc]
  split_ifs with h
  · obtain ⟨r, rfl⟩ := List.isSuffixOf_iff_suffix.1 h
    have before : x ++ c :: (r ++ w) = (x ++ c :: r) ++ w := by simp
    have count : (x ++ c :: (r ++ w)).length - w.length = (x ++ c :: r).length := by
      rw [before, List.length_append]
      omega
    rw [count, before, List.take_left]
    simp
  · rfl

theorem eraseFrom_append_cons (hc : c ∉ w) (hw : w ≠ []) {skip : Nat} (h : skip ≤ x.length)
    (y : List Char) :
    eraseFrom w skip (x ++ c :: y) = eraseFrom w skip x ++ c :: eraseFrom w 0 y := by
  induction x generalizing skip with
  | nil =>
    obtain rfl : skip = 0 := Nat.le_zero.1 h
    have other := isPrefixOf_append_cons (x := []) hc y
    obtain ⟨d, r, rfl⟩ := List.exists_cons_of_ne_nil hw
    rw [List.nil_append] at other ⊢
    simp [eraseFrom, other]
  | cons d x ih =>
    cases skip with
    | succ skip => exact ih (Nat.le_of_succ_le_succ h)
    | zero =>
      rw [List.cons_append, eraseFrom, eraseFrom, ← List.cons_append, isPrefixOf_append_cons hc]
      split_ifs with first
      · have fits := (List.isPrefixOf_iff_prefix.1 first).length_le
        rw [List.length_cons] at fits
        exact ih (by omega)
      · rw [ih (Nat.zero_le _), List.cons_append]

theorem erase_append_cons (hc : c ∉ w) (hw : w ≠ []) (y : List Char) :
    erase w (x ++ c :: y) = erase w x ++ c :: erase w y :=
  eraseFrom_append_cons hc hw (Nat.zero_le _) y

theorem mem_of_mem_eraseFrom {d : Char} {skip : Nat} (h : d ∈ eraseFrom w skip x) : d ∈ x := by
  induction x generalizing skip with
  | nil => cases skip <;> simp [eraseFrom] at h
  | cons e x ih =>
    cases skip with
    | succ skip => exact List.mem_cons_of_mem _ (ih h)
    | zero =>
      rw [eraseFrom] at h
      split_ifs at h
      · exact List.mem_cons_of_mem _ (ih h)
      · rcases List.mem_cons.1 h with rfl | h
        · exact List.mem_cons_self ..
        · exact List.mem_cons_of_mem _ (ih h)

theorem cutAt?_append_cons {p : Char → Bool} (h : ∀ d ∈ x, ¬ p d) (hc : p c) (y : List Char) :
    cutAt? p (x ++ c :: y) = some (x, c :: y) := by
  have outside : ∀ d ∈ x, !p d := by simpa using h
  rw [cutAt?, List.dropWhile_append_of_pos outside, List.takeWhile_append_of_pos outside]
  simp [hc]

/-! ## Blanks around a character -/

/-- A blank has no case, and is no letter. -/
theorem toLower_of_isBlank {c : Char} (h : isBlank c) :
    c.toLower = c ∧ c ≠ '.' ∧ ¬ ('a' ≤ c ∧ c ≤ 'z') := by
  simp only [isBlank, blankRanges, List.any_cons, List.any_nil, Bool.or_eq_true, Bool.and_eq_true,
    decide_eq_true_eq, Bool.or_false] at h
  constructor
  · unfold Char.toLower
    split
    · rename_i upper
      have bounds : 65 ≤ c.toNat ∧ c.toNat ≤ 90 := by
        simpa [UInt32.le_iff_toNat_le] using upper
      omega
    · rfl
  · constructor
    · rintro rfl
      revert h
      decide
    · intro letter
      have bounds : 97 ≤ c.toNat ∧ c.toNat ≤ 122 := by
        simpa [Char.le_def, UInt32.le_iff_toNat_le] using letter
      omega

/-- What is no letter is no other character in small. -/
theorem eq_of_toLower {c d : Char} (h : c.toLower = d) (hd : ¬ ('a' ≤ d ∧ d ≤ 'z')) : c = d := by
  unfold Char.toLower at h
  split at h
  · rename_i upper
    have bounds : 65 ≤ c.val.toNat ∧ c.val.toNat ≤ 90 := by
      simpa [UInt32.le_iff_toNat_le] using upper
    have code : d.val.toNat = c.val.toNat + 32 := by
      rw [← h]
      change (c.val + 32).toNat = _
      have small : (32 : UInt32).toNat = 32 := rfl
      rw [UInt32.toNat_add, small, Nat.mod_eq_of_lt (by omega)]
    refine absurd ?_ hd
    rw [Char.le_def, Char.le_def, UInt32.le_iff_toNat_le, UInt32.le_iff_toNat_le, code]
    change 97 ≤ _ ∧ _ ≤ 122
    omega
  · exact h

theorem trimStart_append_cons (hc : ¬ isBlank c) (y : List Char) :
    trimStart (x ++ c :: y) = trimStart x ++ c :: y := by
  induction x with
  | nil => simp [trimStart, hc]
  | cons d x ih =>
    unfold trimStart at ih ⊢
    cases hd : isBlank d <;> simp [hd, ih]

theorem trimEnd_append_cons (hc : ¬ isBlank c) (y : List Char) :
    trimEnd (x ++ c :: y) = x ++ c :: trimEnd y := by
  have turned : (x ++ c :: y).reverse = y.reverse ++ c :: x.reverse := by simp
  rw [trimEnd, turned, trimStart_append_cons hc, trimEnd]
  simp

theorem trim_append_cons (hc : ¬ isBlank c) (y : List Char) :
    trim (x ++ c :: y) = trimStart x ++ c :: trimEnd y := by
  rw [trim, trimStart_append_cons hc, trimEnd_append_cons hc]

theorem trimEnd_append_of_isBlank {after : List Char} (h : ∀ d ∈ after, isBlank d) :
    trimEnd (x ++ after) = trimEnd x := by
  have turned : ∀ d ∈ after.reverse, isBlank d := fun d hd => h d (List.mem_reverse.1 hd)
  rw [trimEnd, List.reverse_append, trimStart, List.dropWhile_append_of_pos turned]
  rfl

/-- Between characters that are no blanks nothing is trimmed. -/
theorem trim_eq_self {d : Char} (hc : ¬ isBlank c) (hd : ¬ isBlank d) (inner : List Char) :
    trim (c :: (inner ++ [d])) = c :: (inner ++ [d]) := by
  have start : trimStart (c :: inner) = c :: inner := List.dropWhile_cons_of_neg hc
  rw [← List.cons_append, trim_append_cons hd, start]
  rfl

end Text

/-! ## Names -/

/-- Whether a character is a small ASCII letter or a point. -/
def isNameChar (c : Char) : Bool := c = '.' || ('a' ≤ c && c ≤ 'z')

/-- Whether a text is made of ASCII letters, of either case, and points. -/
def IsName (w : List Char) : Prop := (lower w).all isNameChar

instance (w : List Char) : Decidable (IsName w) :=
  inferInstanceAs (Decidable ((lower w).all isNameChar = true))

namespace IsName

variable {w : List Char}

theorem not_mem (h : IsName w) {c : Char} (fixed : c.toLower = c) (hc : ¬ isNameChar c) : c ∉ w :=
  fun hmem => hc (List.all_eq_true.1 h c (List.mem_map.2 ⟨c, hmem, fixed⟩))

theorem isPlain (h : IsName w) : IsPlain w := by
  rintro c hc
  constructor <;> rintro rfl <;> exact h.not_mem (by decide) (by decide) hc

theorem solid (h : IsName w) : ∀ c ∈ w, ¬ isBlank c := by
  intro c hc hb
  obtain ⟨fixed, point, letter⟩ := toLower_of_isBlank hb
  refine h.not_mem fixed (fun hname => ?_) hc
  simp only [isNameChar, Bool.or_eq_true, decide_eq_true_eq, Bool.and_eq_true] at hname
  exact hname.elim point letter

theorem cons_ne {c : Char} {r : List Char} (h : IsName (c :: r)) : c ≠ '[' ∧ c ≠ '@' := by
  constructor <;> rintro rfl <;> exact h.not_mem (by decide) (by decide) (List.mem_cons_self ..)

end IsName

/-- A spelling in which a group stands between two texts. -/
def grouped (head inside tail : List Char) : List Char := head ++ '(' :: (inside ++ ')' :: tail)

section Grouped

variable {head inside tail : List Char}

theorem grouped_eq : grouped head inside tail = (head ++ '(' :: inside) ++ ')' :: tail := by
  simp [grouped]

theorem lower_grouped :
    lower (grouped head inside tail) = grouped (lower head) (lower inside) (lower tail) := by
  have marks : '('.toLower = '(' ∧ ')'.toLower = ')' := by decide
  simp [lower, grouped, marks]

theorem erase_grouped {w : List Char} (hopen : '(' ∉ w) (hclose : ')' ∉ w) (hw : w ≠ []) :
    erase w (grouped head inside tail) =
      grouped (erase w head) (erase w inside) (erase w tail) := by
  rw [grouped, erase_append_cons hopen hw, erase_append_cons hclose hw, grouped]

theorem trimEnd_grouped :
    trimEnd (grouped head inside tail) = grouped head inside (trimEnd tail) := by
  rw [grouped_eq, trimEnd_append_cons (by decide), ← grouped_eq]

theorem trim_grouped :
    trim (grouped head inside tail) = grouped (trimStart head) inside (trimEnd tail) := by
  rw [trim, grouped, trimStart_append_cons (by decide), ← grouped, trimEnd_grouped]

/-! ## Separating -/

/-- A command with a group, and arguments behind a blank. -/
theorem separate_grouped {v : List Char} (ne : head ≠ []) (plainHead : IsPlain head)
    (solidHead : ∀ c ∈ head, ¬ isBlank c) (plain : IsPlain inside) (plainTail : IsPlain tail)
    (solidTail : ∀ c ∈ tail, ¬ isBlank c) (nonblank : trim v ≠ []) :
    Source.separate (grouped head inside tail ++ ' ' :: v) =
      (grouped head inside tail, Source.stripGroup (trim v)) := by
  obtain ⟨z, hz, solid⟩ : ∃ z ∈ v, ¬ isBlank z := by
    by_contra all
    exact nonblank (trim_eq_nil_iff.2 (by simpa using all))
  obtain ⟨v₁, v₂, rfl⟩ := List.append_of_mem hz
  obtain ⟨d, head, rfl⟩ := List.exists_cons_of_ne_nil ne
  have hd : ¬ isBlank d := solidHead d (List.mem_cons_self ..)
  have row : trim (grouped (d :: head) inside tail ++ ' ' :: (v₁ ++ z :: v₂)) =
      grouped (d :: head) inside tail ++ ' ' :: (v₁ ++ z :: trimEnd v₂) := by
    have apart : grouped (d :: head) inside tail ++ ' ' :: (v₁ ++ z :: v₂) =
        (grouped (d :: head) inside tail ++ ' ' :: v₁) ++ z :: v₂ := by simp
    have start : trimStart (grouped (d :: head) inside tail ++ ' ' :: v₁) =
        grouped (d :: head) inside tail ++ ' ' :: v₁ := List.dropWhile_cons_of_neg hd
    rw [apart, trim_append_cons solid, start]
    simp
  have blank : isBlank ' ' := rfl
  have cut : cutOutside? isBlank 0
      (grouped (d :: head) inside tail ++ ' ' :: (v₁ ++ z :: trimEnd v₂)) =
        some (grouped (d :: head) inside tail, ' ' :: (v₁ ++ z :: trimEnd v₂)) := by
    rw [grouped, List.append_assoc, cutOutside?_append plainHead solidHead]
    simp [cutOutside?, cutOutside?_append_of_depth plain, cutOutside?_append plainTail solidTail,
      blank]
  have command : trimEnd (grouped (d :: head) inside tail) = grouped (d :: head) inside tail := by
    rw [trimEnd_grouped, trimEnd_eq_self solidTail]
  have arguments : trim (' ' :: (v₁ ++ z :: trimEnd v₂)) = trim (v₁ ++ z :: v₂) := by
    have again : trimEnd (trimEnd v₂) = trimEnd v₂ := List.rdropWhile_idempotent ..
    have front : trim (' ' :: (v₁ ++ z :: trimEnd v₂)) = trim (v₁ ++ z :: trimEnd v₂) := by
      rw [← List.singleton_append, trim_append_of_isBlank (by simpa using blank)]
    rw [front, trim_append_cons solid, trim_append_cons solid, again]
  rw [Source.separate, row]
  simp only [cut, command, arguments]

end Grouped

/-! ## Rules -/

namespace Alias

/-- Whether a rule leaves a group alone and acts on the texts around it, whatever stands inside. -/
def ActsAround (rule : List Char → Option (List Char)) : Prop :=
  ∀ head tail, ∃ x? : Option (List Char × List Char), ∀ inside,
    rule (grouped head inside tail) = x?.map fun x => grouped x.1 inside x.2

namespace ActsAround

variable {f g : List Char → Option (List Char)}

theorem bind (hf : ActsAround f) (hg : ActsAround g) : ActsAround fun c => (f c).bind g := by
  intro head tail
  obtain ⟨x?, hx⟩ := hf head tail
  cases x? with
  | none => exact ⟨none, fun inside => by simp [hx]⟩
  | some x =>
    obtain ⟨y?, hy⟩ := hg x.1 x.2
    exact ⟨y?, fun inside => by simp [hx, hy]⟩

theorem findSome? {rules : List (List Char → Option (List Char))}
    (h : ∀ rule ∈ rules, ActsAround rule) : ActsAround fun c => rules.findSome? (· c) := by
  intro head tail
  induction rules with
  | nil => exact ⟨none, fun _ => rfl⟩
  | cons rule rules ih =>
    obtain ⟨first, others⟩ := List.forall_mem_cons.1 h
    obtain ⟨x?, hx⟩ := first head tail
    cases x? with
    | none =>
      obtain ⟨y?, hy⟩ := ih others
      exact ⟨y?, fun inside => by simpa [hx] using hy inside⟩
    | some x => exact ⟨some x, fun inside => by simp [hx]⟩

theorem ite {p : List Char → Bool} (hp : ∀ head inside inside' tail,
    p (grouped head inside tail) = p (grouped head inside' tail)) (hf : ActsAround f)
    (hg : ActsAround g) : ActsAround fun c => if p c then f c else g c := by
  intro head tail
  have same (inside : List Char) : p (grouped head inside tail) = p (grouped head [] tail) :=
    hp ..
  cases hc : p (grouped head [] tail) with
  | true =>
    obtain ⟨x?, hx⟩ := hf head tail
    exact ⟨x?, fun inside => by simp [same, hc, hx]⟩
  | false =>
    obtain ⟨x?, hx⟩ := hg head tail
    exact ⟨x?, fun inside => by simp [same, hc, hx]⟩

theorem none : ActsAround fun _ => none := fun _ _ => ⟨.none, fun _ => rfl⟩

theorem some : ActsAround .some := fun head tail => ⟨.some (head, tail), fun _ => rfl⟩

theorem prepend (w : List Char) : ActsAround fun c => Option.some (w ++ c) :=
  fun head tail => ⟨.some (w ++ head, tail), fun inside => by simp [grouped]⟩

theorem trim : ActsAround fun c => Option.some (Text.trim c) := fun head tail =>
  ⟨.some (trimStart head, trimEnd tail), fun _ => congrArg Option.some trim_grouped⟩

theorem afterHead? {w : List Char} (hw : '(' ∉ w) : ActsAround (afterHead? w) := fun head tail =>
  ⟨(Text.afterHead? w head).map (·, tail), fun inside => by
    rw [grouped, afterHead?_append_cons hw, Option.map_map]
    rfl⟩

theorem beforeSuffix? {suffix : String} (hs : ')' ∉ suffix.toList) :
    ActsAround (beforeSuffix? suffix) := fun head tail =>
  ⟨(beforeTail? suffix.toList tail).map fun tail => (head, trimEnd tail), fun inside => by
    rw [Alias.beforeSuffix?, grouped_eq, beforeTail?_append_cons hs, Option.map_map,
      Option.map_map]
    refine congrArg (Option.map · _) (funext fun tail => ?_)
    exact (congrArg trimEnd grouped_eq.symm).trans trimEnd_grouped⟩

theorem dropSuffix? {heads : List String} (hh : ∀ w ∈ heads, '(' ∉ w.toList) {suffix : String}
    (hs : ')' ∉ suffix.toList) : ActsAround (dropSuffix? heads suffix) := by
  refine ite (fun head inside inside' tail => ?_) (beforeSuffix? hs) none
  refine Bool.eq_iff_iff.2 ((List.any_eq_true.trans ?_).trans List.any_eq_true.symm)
  refine exists_congr fun w => and_congr_right fun hw => ?_
  rw [startsWith, startsWith, grouped, grouped, isPrefixOf_append_cons (hh w hw),
    isPrefixOf_append_cons (hh w hw)]

theorem congr (h : ∀ c, f c = g c) (hf : ActsAround f) : ActsAround g := funext h ▸ hf

theorem replaceHead? {old : String} (ho : '(' ∉ old.toList) (new : String) :
    ActsAround (replaceHead? old new) := by
  refine congr (fun c => ?_) ((afterHead? ho).bind (prepend new.toList))
  rw [Alias.replaceHead?, Option.map_eq_bind]
  rfl

end ActsAround

theorem actsAround_structureRule : ActsAround structureRule := by
  refine .ite (fun head inside inside' tail => ?_) .none (.dropSuffix? (by decide) (by decide))
  have hw : '(' ∉ "structure.back".toList := by decide
  rw [startsWith, startsWith, grouped, grouped, isPrefixOf_append_cons hw,
    isPrefixOf_append_cons hw]

/-- What follows the first of some words that a spelling begins with. -/
theorem actsAround_afterHeads {heads : List String} (hh : ∀ w ∈ heads, '(' ∉ w.toList) :
    ActsAround fun c => heads.findSome? fun w => afterHead? w.toList c := by
  have each : ActsAround fun c =>
      (heads.map fun w => afterHead? w.toList).findSome? (· c) := by
    refine .findSome? fun rule hrule => ?_
    obtain ⟨w, hw, rfl⟩ := List.mem_map.1 hrule
    exact .afterHead? (hh w hw)
  exact .congr (fun c => by rw [List.findSome?_map]; rfl) each

/-- A suffix in the place of which a beginning is put. -/
theorem actsAround_moves {g : List Char → List Char} (hg : ActsAround fun c => some (g c))
    {moves : List (String × String)} (h : ∀ m ∈ moves, ')' ∉ m.1.toList) :
    ActsAround fun c => moves.findSome? fun m => (beforeSuffix? m.1 c).map (m.2.toList ++ g ·) := by
  have each : ActsAround fun c => (moves.map fun m c =>
      (beforeSuffix? m.1 c).map (m.2.toList ++ g ·)).findSome? (· c) := by
    refine .findSome? fun rule hrule => ?_
    obtain ⟨m, hm, rfl⟩ := List.mem_map.1 hrule
    refine .congr (fun c => ?_)
      ((ActsAround.beforeSuffix? (h m hm)).bind (hg.bind (.prepend m.2.toList)))
    rw [Option.map_eq_bind]
    rfl
  exact .congr (fun c => by rw [List.findSome?_map]; rfl) each

theorem actsAround_backgroundRule : ActsAround backgroundRule := by
  have heads : ActsAround fun c =>
      ["texture.background", "structure.background", "structure.back"].findSome? fun w =>
        afterHead? w.toList c := actsAround_afterHeads (by decide)
  have moves : ActsAround fun c =>
      [(".load", "texture.background"), (".x", "texture.background.x"),
        (".aspect", "texture.background.aspect")].findSome? fun m =>
          (beforeSuffix? m.1 c).map (m.2.toList ++ ·) := actsAround_moves .some (by decide)
  refine .congr (fun c => ?_) (heads.bind moves)
  unfold backgroundRule
  dsimp only
  cases ["texture.background", "structure.background", "structure.back"].findSome? fun w =>
    afterHead? w.toList c <;> rfl

theorem actsAround_timetableRule : ActsAround timetableRule := by
  have head : ActsAround (afterHead? "train.timetable".toList) := .afterHead? (by decide)
  have moves : ActsAround fun c =>
      [(".day.load", "train.timetable.day"), (".night.load", "train.timetable.night"),
        (".day", "train.timetable.day"), (".night", "train.timetable.night")].findSome? fun m =>
          (beforeSuffix? m.1 c).map (m.2.toList ++ trim ·) := actsAround_moves .trim (by decide)
  refine .congr (fun c => ?_) (head.bind moves)
  unfold timetableRule
  cases afterHead? "train.timetable".toList c <;> rfl

theorem actsAround_rules : ∀ rule ∈ rules, ActsAround rule := by
  simp only [rules, List.forall_mem_cons]
  exact ⟨actsAround_structureRule, actsAround_backgroundRule, .dropSuffix? (by decide) (by decide),
    .dropSuffix? (by decide) (by decide), .dropSuffix? (by decide) (by decide),
    actsAround_timetableRule, .replaceHead? (by decide) _, .replaceHead? (by decide) _, by simp⟩

/-- The rules for older spellings do not read the group, and leave it as it is. -/
theorem actsAround_canonical : ActsAround fun c => some (canonical c) := by
  have orSame {f : List Char → Option (List Char)} (hf : ActsAround f) :
      ActsAround fun c => some ((f c).getD c) := by
    have either : ActsAround fun c => [f, some].findSome? (· c) :=
      .findSome? (by simp [hf, ActsAround.some])
    refine .congr (fun c => ?_) either
    cases hc : f c <;> simp [hc]
  exact .congr (fun c => rfl) ((orSame (.findSome? actsAround_rules)).bind
    (orSame (.replaceHead? (by decide) "structure.")))

/-- How a spelling with a group is read is told by the spelling with an empty group. -/
theorem canonical_grouped {head tail head' tail' : List Char} (hhead : '(' ∉ head')
    (htail : '(' ∉ tail') (h : canonical (grouped head [] tail) = grouped head' [] tail')
    (inside : List Char) :
    canonical (grouped head inside tail) = grouped head' inside tail' := by
  obtain ⟨x?, hx⟩ := actsAround_canonical head tail
  obtain ⟨x, rfl, hx'⟩ := Option.map_eq_some_iff.1 (hx []).symm
  have closed : '(' ∉ ')' :: tail' := by simp [htail]
  have parts : head' ++ '(' :: (')' :: tail') = x.1 ++ '(' :: (')' :: x.2) := (hx'.trans h).symm
  obtain ⟨rfl, -, htails⟩ := (List.append_cons_inj_of_notMem hhead closed).1 parts
  obtain rfl := List.cons.inj htails |>.2
  exact Option.some.inj (hx inside)

end Alias

/-! ## Reading -/

section Reading

variable {R : Type} [Scalar R] {head inside tail : List Char}

theorem takeIndices_grouped (hhead : '(' ∉ head) (hinside : ')' ∉ inside) :
    takeIndices R (grouped head inside tail) =
      (readIndices R (grouped head inside tail) (parts (· = ';') inside)).map fun indices =>
        (indices, head ++ trim tail) := by
  have opened : cutAt? (· = '(') (grouped head inside tail) =
      some (head, '(' :: (inside ++ ')' :: tail)) :=
    cutAt?_append_cons (fun d hd => by simpa using ne_of_mem_of_not_mem hd hhead) (by simp) _
  have closed : cutAt? (· = ')') ('(' :: (inside ++ ')' :: tail)) =
      some ('(' :: inside, ')' :: tail) := by
    rw [← List.cons_append]
    refine cutAt?_append_cons (fun d hd => ?_) (by simp) _
    rcases List.mem_cons.1 hd with rfl | hd
    · decide
    · simpa using ne_of_mem_of_not_mem hd hinside
  simp [takeIndices, opened, closed]

/-- A command with a group and arguments is read as one, under whatever scope. -/
theorem interpret_grouped (hhead : IsName head) (ne : head ≠ []) (plain : IsPlain inside)
    (htail : IsName tail) {v : List Char} (nonblank : trim v ≠ []) (dialect : Dialect)
    (factors : List R) (s : Scope) (location : Location) :
    interpret dialect factors s ⟨location, String.ofList (grouped head inside tail ++ ' ' :: v)⟩ =
      (readCommand R s (grouped head inside tail) (Source.stripGroup (trim v))).map .command := by
  have separated := separate_grouped ne hhead.isPlain hhead.solid plain htail.isPlain htail.solid
    nonblank
  have hopen : '(' ∈ grouped head inside tail := by simp [grouped]
  have noHeader : (Source.Expression.mk location
      (String.ofList (grouped head inside tail ++ ' ' :: v))).header? = none := by
    obtain ⟨c, head, rfl⟩ := List.exists_cons_of_ne_nil ne
    have first : trim (grouped (c :: head) inside tail ++ ' ' :: v) = c :: trimEnd _ :=
      trim_append_cons (x := []) (hhead.solid c (List.mem_cons_self ..)) _
    simp only [Source.Expression.header?, String.toList_ofList, Source.headerName?, first, between?,
      hhead.cons_ne.1, false_and, if_false, Option.map_none]
  have noLength : Source.parseLength factors (grouped head inside tail) = none := by
    cases hl : Source.parseLength factors (grouped head inside tail) with
    | none => rfl
    | some x => exact absurd rfl (Source.isPlain_of_parseLength hl _ hopen).1
  have noWith : sameWord (grouped head inside tail) "with".toList = false := by
    have opened : '(' ∈ lower (grouped head inside tail) :=
      List.mem_map.2 ⟨'(', hopen, by decide⟩
    have absent : '(' ∉ lower "with".toList := by decide
    exact beq_false_of_ne fun h => absent (h ▸ opened)
  rw [interpret, noHeader]
  dsimp only
  rw [String.toList_ofList, separated]
  simp only [noLength, noWith, ite_self, Bool.false_eq_true, if_false]

/-- The case of letters has no part in the prefix. -/
theorem prefixed_congr {s s' : Scope} (heading : lower s.heading.toList = lower s'.heading.toList)
    (always : s.alwaysPrefixed = s'.alwaysPrefixed) {command command' : List Char}
    (h : lower command = lower command') : prefixed s command = prefixed s' command' := by
  simp only [prefixed, heading, always, h]

/-- The namespace of the section is put in front of what stands before the group. -/
theorem prefixed_grouped {s : Scope} (hs : '(' ∉ lower s.heading.toList) (ne : head ≠ []) :
    prefixed s (grouped head inside tail) =
      grouped (prefixed s head) (erase ".void".toList (lower inside))
        (erase ".void".toList (lower tail)) := by
  have erased (front : List Char) :
      erase ".void".toList (grouped front (lower inside) (lower tail)) =
        grouped (erase ".void".toList front) (erase ".void".toList (lower inside))
          (erase ".void".toList (lower tail)) :=
    erase_grouped (by decide) (by decide) (by decide)
  have first : (lower (grouped head inside tail)).head? = (lower head).head? := by
    obtain ⟨c, r, rfl⟩ := List.exists_cons_of_ne_nil ne
    rfl
  have dotted : '(' ∉ lower s.heading.toList ++ ['.'] := by simp [hs]
  have rooted : (lower s.heading.toList ++ ['.']).isPrefixOf (lower (grouped head inside tail)) =
      (lower s.heading.toList ++ ['.']).isPrefixOf (lower head) := by
    rw [lower_grouped, grouped, isPrefixOf_append_cons dotted]
  have behind (front : List Char) : front ++ lower (grouped head inside tail) =
      grouped (front ++ lower head) (lower inside) (lower tail) := by
    rw [lower_grouped]
    simp [grouped]
  have dot : lower s.heading.toList ++ '.' :: lower (grouped head inside tail) =
      grouped (lower s.heading.toList ++ '.' :: lower head) (lower inside) (lower tail) := by
    rw [lower_grouped]
    simp [grouped]
  simp only [prefixed, first, rooted, behind, dot]
  split_ifs
  · exact erased _
  · exact erased _
  · rw [lower_grouped, erased]

/-- The spelling that the tables know of a command with a group. -/
theorem canonical_prefixed {s : Scope} (hs : '(' ∉ lower s.heading.toList) (ne : head ≠ [])
    {head' tail' : List Char} (hhead : '(' ∉ head') (htail : '(' ∉ tail')
    (h : Alias.canonical (grouped (prefixed s head) [] (erase ".void".toList (lower tail))) =
      grouped head' [] tail') :
    Alias.canonical (prefixed s (grouped head inside tail)) =
      grouped head' (erase ".void".toList (lower inside)) tail' := by
  rw [prefixed_grouped hs ne, Alias.canonical_grouped hhead htail h]

/-- What a command means depends on its spelling through the spelling that the tables know. -/
theorem readCommand_congr {s s' : Scope} {spelling spelling' : List Char}
    (h : Alias.canonical (prefixed s spelling) = Alias.canonical (prefixed s' spelling'))
    (raw : List Char) : readCommand R s spelling raw = readCommand R s' spelling' raw := by
  rw [readCommand, readCommand, h]

end Reading

end RailRoute
