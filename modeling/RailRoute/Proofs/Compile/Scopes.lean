import Mathlib
import RailRoute.Proofs.Compile.FirstPass
import RailRoute.Proofs.Source.Separation

/-!
# Which expressions open a scope

A header opens a scope, and so does a `With`. Which scope it is does not depend on the scope that
the expression is read under, nor on the factors of the unit of length, although rows are respelled
and numbers are recognized by the scope. So the scope behind some expressions is the one that the
last opening among them opens. Main statements: `behind_eq`, and `scope_readAhead`, `scope_gathered`
and `scope_lay`, that all three readings of a route go through these scopes.
-/

namespace RailRoute

open Text

/-! ## First letters -/

namespace Text

variable {c : Char} {cs r : List Char}

theorem eq_or_of_toLower {small capital : Char}
    (letter : capital.val + ('a'.val - 'A'.val) = small.val) (h : c.toLower = small) :
    c = small ∨ c = capital := by
  unfold Char.toLower at h
  split at h
  · right
    have shifted : c.val + ('a'.val - 'A'.val) = small.val := congrArg Char.val h
    refine Char.ext ?_
    calc c.val = c.val + ('a'.val - 'A'.val) - ('a'.val - 'A'.val) := by simp
      _ = capital.val := by rw [shifted, ← letter, UInt32.add_sub_cancel]
  · exact Or.inl h

theorem eq_of_trim_eq_cons {d : Char} {xs : List Char} (hd : ¬ isBlank d)
    (h : trim (d :: xs) = c :: r) : c = d := by
  have start : trimStart (d :: xs) = d :: xs := List.dropWhile_cons_of_neg hd
  obtain ⟨rest, hrest⟩ := trim_prefix_trimStart (d :: xs)
  rw [h, start] at hrest
  exact (List.cons.inj hrest).1

end Text

namespace Source

theorem separate_prefix (cs : List Char) : (separate cs).1 <+: trim cs := by
  have trimmed (xs : List Char) : trimEnd xs <+: xs := List.rdropWhile_prefix _ xs
  unfold separate
  dsimp only
  split
  · rename_i command rest hcut
    exact (trimmed command).trans ⟨rest, (cutOutside?_eq_some hcut).1.symm⟩
  · split
    · rename_i c command inside hgroup
      refine (trimmed _).trans ⟨'(' :: inside ++ [')'], ?_⟩
      rw [trailingGroup?_eq_some hgroup, List.append_assoc]
    · exact List.prefix_rfl

theorem exists_of_isWith {cs : List Char} (h : sameWord cs "with".toList) :
    ∃ c r, cs = c :: r ∧ (c = 'w' ∨ c = 'W') := by
  have spelled : lower cs = ['w', 'i', 't', 'h'] := (beq_iff_eq.1 h).trans (by decide)
  cases cs with
  | nil => cases spelled
  | cons c r => exact ⟨c, r, rfl, eq_or_of_toLower (by decide) (List.cons.inj spelled).1⟩

variable {R : Type} [Scalar R]

theorem parseLength_of_isWith {cs : List Char} (h : sameWord cs "with".toList)
    (factors : List R) : parseLength factors cs = none := by
  obtain ⟨c, r, rfl, hc⟩ := exists_of_isWith h
  cases hp : parseLength factors (c :: r) with
  | none => rfl
  | some v =>
    rcases hc with rfl | rfl <;>
      exact absurd (List.mem_cons_self ..) (not_mem_of_parseLength
        ⟨by decide, by decide⟩ (by decide) (by decide) hp)

/-! ## Opening a scope -/

/-- The scope that an expression opens as it is spelled: that of a header, or the one that a `With`
names. -/
def openedBy? (e : Expression) : Option Scope :=
  match e.header? with
  | some name => some (Scope.ofHeader name)
  | none =>
    let parts := separate e.text.toList
    if sameWord parts.1 "with".toList then
      some ⟨String.ofList ((splitArguments parts.2).headD []), false⟩
    else none

/-- An expression opens the scope that it is interpreted as, whatever scope it is read under. -/
theorem interpret_eq_scope_iff (dialect : Dialect) (factors : List R) (s : Scope)
    (e : Expression) (new : Scope) :
    interpret dialect factors s e = .ok (.scope new) ↔ openedBy? e = some new := by
  unfold interpret openedBy?
  cases e.header? with
  | some name => simp
  | none =>
    dsimp only
    by_cases h : sameWord (separate e.text.toList).1 "with".toList
    · rw [parseLength_of_isWith h, ite_self]
      dsimp only
      rw [if_pos h, if_pos h]
      simp
    · cases (if dialect = .csv || s.isTrack then
          parseLength factors (separate e.text.toList).1 else none) with
      | some v =>
        dsimp only
        rw [if_neg h]
        simp
      | none =>
        dsimp only
        rw [if_neg h, if_neg h]
        cases readCommand R s (separate e.text.toList).1 (separate e.text.toList).2 <;>
          simp [Except.map]

/-- What opens a scope begins with a bracket or with the first letter of `with`. -/
theorem exists_of_openedBy? {e : Expression} (h : (openedBy? e).isSome) :
    ∃ c r, trim e.text.toList = c :: r ∧ (c = '[' ∨ c = 'w' ∨ c = 'W') := by
  unfold openedBy? at h
  split at h
  · rename_i name hname
    unfold Expression.header? headerName? between? at hname
    cases ht : trim e.text.toList with
    | nil => simp [ht] at hname
    | cons c r =>
      rw [ht] at hname
      by_cases hc : c = '[' ∧ r.getLast? = some ']'
      · exact ⟨c, r, rfl, Or.inl hc.1⟩
      · simp [hc] at hname
  · by_cases hw : sameWord (separate e.text.toList).1 "with".toList
    · obtain ⟨c, r, hcommand, hc⟩ := exists_of_isWith hw
      obtain ⟨rest, hrest⟩ := separate_prefix e.text.toList
      rw [hcommand, List.cons_append] at hrest
      exact ⟨c, r ++ rest, hrest.symm, Or.inr hc⟩
    · rw [if_neg hw] at h
      cases h

theorem openedBy?_eq_none {d : Char} (blank : ¬ isBlank d)
    (other : ¬ (d = '[' ∨ d = 'w' ∨ d = 'W')) (location : Location) (r : List Char) :
    openedBy? ⟨location, String.ofList (d :: r)⟩ = none := by
  by_contra h
  obtain ⟨c, r', htrim, hc⟩ := exists_of_openedBy? (Option.isSome_iff_ne_none.2 h)
  rw [String.toList_ofList] at htrim
  exact other (eq_of_trim_eq_cons blank htrim ▸ hc)

/-- A number in a row begins with what opens no scope, respelled as an index or not. -/
theorem exists_rowKey {key : List Char} {before : List Char} (trimmed : key = trim before)
    (number : (parseNumber key : Option R).isSome) (heading : List Char) (isPrefixed : Bool) :
    ∃ d r, rowKey R heading isPrefixed key = d :: r ∧ ¬ isBlank d ∧
      ¬ (d = '[' ∨ d = 'w' ∨ d = 'W') := by
  obtain ⟨d, r, rfl⟩ : ∃ d r, key = d :: r := by
    refine List.exists_cons_of_ne_nil ?_
    rintro rfl
    cases number
  have solid : ¬ isBlank d := not_isBlank_of_trim_eq_cons trimmed.symm
  have other : ¬ (d = '[' ∨ d = 'w' ∨ d = 'W') := by
    rintro (rfl | rfl | rfl) <;>
      exact not_mem_of_parseNumber ⟨by decide, by decide⟩ (by decide) number
        (List.mem_cons_self ..)
  unfold rowKey
  split_ifs
  · exact ⟨'.', _, rfl, by decide, by decide⟩
  · exact ⟨'.', _, rfl, by decide, by decide⟩
  · exact ⟨d, r, rfl, solid, other⟩
  · exact ⟨d, r, rfl, solid, other⟩

/-- How a row is respelled by its section makes no difference to the scope that it opens. -/
theorem openedBy?_rowText (R : Type) [Scalar R] (location : Location)
    (heading heading' : List Char) (isPrefixed isPrefixed' : Bool) (cs : List Char) :
    openedBy? ⟨location, String.ofList (rowText R heading isPrefixed cs)⟩ =
      openedBy? ⟨location, String.ofList (rowText R heading' isPrefixed' cs)⟩ := by
  unfold rowText
  dsimp only
  split
  · rename_i before after hcut
    cases number : (parseNumber (trim before) : Option R).isSome with
    | false => simp only [rowKey, number, Bool.and_false, Bool.false_eq_true, if_false]
    | true =>
      have none (h : List Char) (b : Bool) (value : List Char) :
          openedBy? ⟨location, String.ofList (if value.isEmpty then rowKey R h b (trim before)
            else rowKey R h b (trim before) ++ ' ' :: value)⟩ = none := by
        obtain ⟨d, r, hkey, blank, other⟩ := exists_rowKey rfl number h b
        rw [hkey]
        split_ifs
        · exact openedBy?_eq_none blank other location r
        · exact openedBy?_eq_none blank other location _
      rw [none, none]
  · rfl

/-- The scope that an expression opens, wherever it stands. -/
def opened? (R : Type) [Scalar R] (dialect : Dialect) (e : Expression) : Option Scope :=
  openedBy? (e.normalized R dialect Scope.initial)

theorem opened?_of_header {e : Expression} {name : String} (h : e.header? = some name)
    (R : Type) [Scalar R] (dialect : Dialect) :
    opened? R dialect e = some (Scope.ofHeader name) := by
  simp [opened?, Expression.normalized, openedBy?, h]

theorem openedBy?_normalized (R : Type) [Scalar R] (dialect : Dialect) (s : Scope)
    (e : Expression) : openedBy? (e.normalized R dialect s) = opened? R dialect e := by
  unfold opened? Expression.normalized
  split_ifs
  · exact openedBy?_rowText ..
  · rfl

end Source

/-! ## Scopes in a reading -/

namespace Scope

open Source

variable {R : Type} [Scalar R]

/-- The scope behind expressions that are read one after the other. -/
def behind (dialect : Dialect) (factors : List R) (s : Scope) (es : List Expression) : Scope :=
  es.foldl (fun s e => s.after (interpret dialect factors s (e.normalized R dialect s))) s

theorem after_interpret (dialect : Dialect) (factors : List R) (s : Scope) (e : Expression) :
    s.after (interpret dialect factors s e) = (openedBy? e).getD s := by
  cases h : openedBy? e with
  | some new =>
    rw [(interpret_eq_scope_iff ..).2 h]
    rfl
  | none =>
    unfold after
    split
    · rename_i new hnew
      rw [interpret_eq_scope_iff, h] at hnew
      cases hnew
    · rfl

theorem after_interpret_normalized (dialect : Dialect) (factors : List R) (s : Scope)
    (e : Expression) : s.after (interpret dialect factors s (e.normalized R dialect s)) =
      (opened? R dialect e).getD s := by
  rw [after_interpret, openedBy?_normalized]

theorem getLast?_filterMap_cons (opens : Expression → Option Scope) (s : Scope) (e : Expression)
    (es : List Expression) : ((e :: es).filterMap opens).getLast?.getD s =
      (es.filterMap opens).getLast?.getD ((opens e).getD s) := by
  cases h : opens e with
  | none => simp [h]
  | some new => simp [h, List.getLast?_cons]

/-- The last of some expressions that opens a scope tells the scope behind them. -/
theorem behind_eq (dialect : Dialect) (factors : List R) (s : Scope) (es : List Expression) :
    behind dialect factors s es = ((es.filterMap (opened? R dialect)).getLast?).getD s := by
  unfold behind
  simp only [after_interpret_normalized]
  induction es generalizing s with
  | nil => rfl
  | cons e es ih =>
    rw [List.foldl_cons, ih, getLast?_filterMap_cons]

end Scope

/-! ### The readings of a route -/

section Readings

open Source

variable {R : Type} [Scalar R]

/-- Whatever else a reading carries along, its scope is the one behind what it has read. -/
theorem Scope.scope_foldl {α : Type} {step : α → Expression → α} {scope : α → Scope}
    {dialect : Dialect} (h : ∀ a e, scope (step a e) = (opened? R dialect e).getD (scope a))
    (factors : List R) (a : α) (es : List Expression) :
    scope (es.foldl step a) = Scope.behind dialect factors (scope a) es := by
  unfold Scope.behind
  induction es generalizing a with
  | nil => rfl
  | cons e es ih => rw [List.foldl_cons, List.foldl_cons, ih, h, Scope.after_interpret_normalized]

theorem Options.scope_readOne (dialect : Dialect) (r : Options.Reading R) (e : Expression) :
    (Options.readOne dialect r e).scope = (opened? R dialect e).getD r.scope := by
  rw [← Scope.after_interpret_normalized dialect r.options.unitOfLength]
  unfold Options.readOne
  dsimp only
  split
  · rename_i c hc
    rw [hc]
    split_ifs <;> rfl
  · rfl

/-- Reading options ahead goes through the same scopes, although the factors change on the way. -/
theorem Options.scope_readAhead (dialect : Dialect) (factors : List R) (es : List Expression) :
    (Options.readAhead (R := R) dialect es).scope =
      Scope.behind dialect factors Scope.initial es :=
  Scope.scope_foldl (Options.scope_readOne dialect) factors _ es

theorem Compile.scope_gatherOne (job : Compile.Job) (g : Compile.Gathering R) (e : Expression) :
    (Compile.gatherOne job g e).1.scope = (opened? R job.settings.dialect e).getD g.scope := by
  rw [← Scope.after_interpret_normalized job.settings.dialect g.tables.options.unitOfLength]
  unfold Compile.gatherOne
  dsimp only
  split
  · rfl
  · split <;> rfl
  · rfl

/-- The first pass goes through the same scopes, too. -/
theorem Compile.scope_gathered (job : Compile.Job) (tables : Tables R) (factors : List R)
    (es : List Expression) : (Compile.gathered job tables es).scope =
      Scope.behind job.settings.dialect factors Scope.initial es :=
  Scope.scope_foldl (Compile.scope_gatherOne job) factors _ es

theorem Compile.scope_layOne (job : Compile.Job) (t : Tables R) (b : Compile.Building R)
    (e : Expression) : (Compile.layOne job t b e).1.scope =
      (openedBy? (Compile.fixEnding job.settings.fixesLineEndings e)).getD b.scope := by
  rw [← Scope.after_interpret job.settings.dialect t.options.unitOfLength]
  unfold Compile.layOne
  dsimp only
  split <;> simp_all [Scope.after]

theorem Compile.interpreted_gatherOne (job : Compile.Job) (g : Compile.Gathering R)
    (e : Expression) : (Compile.gatherOne job g e).1.interpreted =
      g.interpreted.push (e.normalized R job.settings.dialect g.scope) := by
  unfold Compile.gatherOne
  dsimp only
  split
  · rfl
  · split <;> rfl
  · rfl

/-- Respelled by the first pass, expressions open the same scopes. -/
theorem Compile.openedBy?_interpreted (job : Compile.Job) (tables : Tables R)
    (es : List Expression) :
    (Compile.gathered job tables es).interpreted.toList.filterMap openedBy? =
      es.filterMap (opened? R job.settings.dialect) := by
  have general (g : Compile.Gathering R) :
      (es.foldl (fun g e => (Compile.gatherOne job g e).1) g).interpreted.toList.filterMap
          openedBy? =
        g.interpreted.toList.filterMap openedBy? ++
          es.filterMap (opened? R job.settings.dialect) := by
    induction es generalizing g with
    | nil => simp
    | cons e es ih =>
      rw [List.foldl_cons, ih, Compile.interpreted_gatherOne]
      cases hopen : opened? R job.settings.dialect e <;>
        simp [openedBy?_normalized, hopen]
  exact general _

theorem Compile.scope_layFrom {job : Compile.Job} (plain : job.settings.fixesLineEndings = false)
    {t : Tables R} {count j : Nat} {es : List Expression} {b b' : Compile.Building R}
    {log : CallLog R} (h : (Compile.layFrom job t count j es b log).1 = some b') :
    b'.scope = (es.filterMap openedBy?).getLast?.getD b.scope := by
  induction es generalizing j b log with
  | nil =>
    obtain rfl := Option.some.inj h
    rfl
  | cons e es ih =>
    unfold Compile.layFrom at h
    dsimp only at h
    split_ifs at h
    have whole : Compile.fixEnding job.settings.fixesLineEndings e = e := by
      simp [plain, Compile.fixEnding]
    rw [ih h, Compile.scope_layOne, whole, Scope.getLast?_filterMap_cons]

/-- The second pass, which reads what the first one has respelled, ends with the same scope if the
ends of lines are left alone. -/
theorem Compile.scope_lay {job : Compile.Job} (plain : job.settings.fixesLineEndings = false)
    {tables t : Tables R} {es : List Expression} {b : Compile.Building R} {log : CallLog R}
    (h : (Compile.lay job t (Compile.gathered job tables es).interpreted.toList log).1 = some b)
    (factors : List R) : b.scope = Scope.behind job.settings.dialect factors Scope.initial es := by
  rw [Scope.behind_eq, Compile.scope_layFrom plain h, Compile.openedBy?_interpreted]

end Readings

end RailRoute
