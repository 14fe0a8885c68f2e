import Mathlib
import RailRoute.Proofs.Arithmetic
import RailRoute.Proofs.Source.Reading

/-!
# Conditions as a tree

Expanding a list goes through its expressions once and keeps the open conditions on a stack. Read as
a tree, a condition has the expressions up to its `$Else` and those behind it, and one of these two
lists is read. Main statement: `expand_eq_ok_iff`, the stack comes to what the tree says.
-/

namespace RailRoute.Source

/-! ## Outlines -/

/-- A list of expressions with its conditions taken apart: what is read if the condition holds, what
is read otherwise, and what follows. -/
inductive Outline where
  | done
  | row (e : Expression) (rest : Outline)
  | condition (opening : Expression) (chosen otherwise rest : Outline)

/-- How the conditions of a list nest. Every one is closed and has at most one `$Else`, no `$Else`
and no `$EndIf` stands outside of a condition, and every block directive is closed by a parenthesis
that ends it. -/
inductive Nests : List Expression → Outline → Prop
  | done : Nests [] .done
  | row {e : Expression} {es : List Expression} {rest : Outline} (plain : e.block = .absent)
      (behind : Nests es rest) : Nests (e :: es) (.row e rest)
  | withoutElse {opening closing : Expression} {inside ignored : List Char}
      {xs es : List Expression} {chosen rest : Outline}
      (opens : opening.block = .found .openIf inside) (within : Nests xs chosen)
      (closes : closing.block = .found .closeIf ignored) (behind : Nests es rest) :
      Nests (opening :: (xs ++ closing :: es)) (.condition opening chosen .done rest)
  | withElse {opening other closing : Expression} {inside ignored ignored' : List Char}
      {xs ys es : List Expression} {chosen otherwise rest : Outline}
      (opens : opening.block = .found .openIf inside) (within : Nests xs chosen)
      (turns : other.block = .found .openElse ignored) (within' : Nests ys otherwise)
      (closes : closing.block = .found .closeIf ignored') (behind : Nests es rest) :
      Nests (opening :: (xs ++ other :: (ys ++ closing :: es)))
        (.condition opening chosen otherwise rest)

theorem exists_nests_of_plain {es : List Expression} (plain : ∀ e ∈ es, '$' ∉ e.text.toList) :
    ∃ o, Nests es o := by
  induction es with
  | nil => exact ⟨_, .done⟩
  | cons e es ih =>
    obtain ⟨first, others⟩ := List.forall_mem_cons.1 plain
    obtain ⟨o, h⟩ := ih others
    exact ⟨_, .row (Expression.block_of_plain first) h⟩

variable (R : Type) [Scalar R]

/-- The dictionary behind expressions that are read one after the other. -/
def Active.behindAll (d : Dictionary) (as : List Active) : Dictionary :=
  as.foldl (fun _ a => a.behind R) d

/-- The expressions that are read, in order. Of each condition it is one of the two lists, and the
other one leaves nothing behind. -/
def Outline.actives : Outline → Dictionary → List Active
  | .done, _ => []
  | .row e rest, d => ⟨e, d⟩ :: rest.actives (Active.behind R ⟨e, d⟩)
  | .condition opening chosen otherwise rest, d =>
    let a : Active := ⟨opening, d⟩
    let branch := if a.holds R then chosen.actives (a.behind R) else otherwise.actives (a.behind R)
    a :: branch ++ rest.actives (Active.behindAll R (a.behind R) branch)

/-! ## Runs -/

@[simp]
theorem isActive_cons (b : Branch) (rest : List Branch) : isActive (b :: rest) = b.active := rfl

section Runs

variable (includeFile : Expression → List Char → Expansion (List Expression))

theorem Active.dictionary_of_read {a : Active} {output output' : Array Expression}
    {s s' : Session} (h : a.read R output s = .ok output' s') : s'.dictionary = a.behind R := by
  unfold read at h
  split at h <;> cases h
  rfl

theorem foldlM_read_eq_ok_iff {as : List Active} {output output' : Array Expression}
    {s s' : Session} :
    as.foldlM (Active.read R) output s = .ok output' s' ↔
      (∀ a ∈ as, a.fault? R = none) ∧ output' = output ++ (as.filterMap (·.output? R)).toArray ∧
        s' = ⟨Active.behindAll R s.dictionary as,
          s.messages ++ (as.filterMap (·.message? R)).toArray⟩ := by
  induction as generalizing output s with
  | nil => simp [Active.behindAll, eq_comm]
  | cons a as ih =>
    rw [List.foldlM_cons, Expansion.bind_apply]
    cases hf : a.fault? R with
    | some error => simp [Active.read, hf]
    | none =>
      simp only [Active.read, hf, Active.after, ih]
      cases ho : a.output? R <;> cases hm : a.message? R <;>
        simp [hf, ho, hm, Active.behindAll]

theorem dictionary_of_foldlM_read {as : List Active} {output output' : Array Expression}
    {s s' : Session} (h : as.foldlM (Active.read R) output s = .ok output' s') :
    s'.dictionary = Active.behindAll R s.dictionary as := by
  obtain ⟨-, -, rfl⟩ := (foldlM_read_eq_ok_iff R).1 h
  rfl

theorem foldlM_read_append (front output : Array Expression) (as : List Active) :
    as.foldlM (Active.read R) (front ++ output) =
      (front ++ ·) <$> as.foldlM (Active.read R) output := by
  induction as generalizing output with
  | nil => simp
  | cons a as ih =>
    have first : a.read R (front ++ output) = (front ++ ·) <$> a.read R output := by
      funext s
      cases hf : a.fault? R <;> simp [Active.read, hf, Array.append_assoc]
    rw [List.foldlM_cons, List.foldlM_cons, first, bind_map_left, map_bind]
    exact bind_congr fun output' => ih output'

/-- Expanding a list whose conditions nest reads what is active, if the list itself is, and leaves
the conditions around it alone. -/
theorem foldlM_expandOne_of_nests {es : List Expression} {o : Outline} (h : Nests es o)
    (branches : List Branch) (output : Array Expression) (s : Session) :
    es.foldlM (expandOne R includeFile) ⟨branches, output⟩ s =
      (Layout.mk branches <$>
        (if isActive branches then o.actives R s.dictionary else []).foldlM (Active.read R) output)
          s := by
  induction h generalizing branches output s with
  | done => simp [Outline.actives]
  | row row behind ih =>
    rw [List.foldlM_cons,
      Expansion.bind_congr_left (expandOne_row R s includeFile branches output row), bind_map_left]
    cases active : isActive branches with
    | false => simp [ih, active]
    | true =>
      simp only [if_true, Outline.actives, List.foldlM_cons, map_bind]
      refine Expansion.bind_congr_right fun output₁ s₁ h₁ => ?_
      rw [ih, if_pos active, Active.dictionary_of_read R h₁]
  | withoutElse opens within closes behind ihWithin ihBehind =>
    rw [List.foldlM_cons]
    cases active : isActive branches with
    | false =>
      simp [expandOne_openIf_of_inactive includeFile _ _ opens active, ihWithin, ihBehind,
        Expansion.bind_apply, expandOne_closeIf includeFile _ _ closes, active]
    | true =>
      simp only [if_true, Outline.actives, List.cons_append, List.foldlM_cons, List.foldlM_append,
        map_bind]
      rw [Expansion.bind_congr_left (expandOne_openIf R s includeFile _ output opens active),
        bind_map_left]
      refine Expansion.bind_congr_right fun output₁ s₁ h₁ => ?_
      rw [Expansion.bind_congr_left (ihWithin ..), bind_map_left, isActive_cons,
        Active.dictionary_of_read R h₁]
      refine Expansion.bind_congr_right fun output₂ s₂ h₂ => ?_
      rw [expandOne_closeIf includeFile _ _ closes, pure_bind, ihBehind, if_pos active,
        dictionary_of_foldlM_read R h₂, Active.dictionary_of_read R h₁]
  | withElse opens within turns within' closes behind ihWithin ihWithin' ihBehind =>
    rw [List.foldlM_cons]
    cases active : isActive branches with
    | false =>
      simp [expandOne_openIf_of_inactive includeFile _ _ opens active, ihWithin, ihWithin',
        ihBehind, Expansion.bind_apply, expandOne_openElse includeFile _ _ turns,
        expandOne_closeIf includeFile _ _ closes, active]
    | true =>
      simp only [if_true, Outline.actives, List.cons_append, List.foldlM_cons, List.foldlM_append,
        map_bind]
      rw [Expansion.bind_congr_left (expandOne_openIf R s includeFile _ output opens active),
        bind_map_left]
      refine Expansion.bind_congr_right fun output₁ s₁ h₁ => ?_
      rw [Expansion.bind_congr_left (ihWithin ..), bind_map_left, isActive_cons,
        Active.dictionary_of_read R h₁]
      -- One of the two lists is read, and the other one comes to nothing.
      cases holds : Active.holds R _ with
      | false =>
        simp only [Bool.false_eq_true, if_false, List.foldlM_nil, pure_bind,
          expandOne_openElse includeFile _ _ turns]
        rw [Expansion.bind_congr_left (ihWithin' ..), bind_map_left, isActive_cons]
        simp only [Bool.not_false, Bool.and_self, if_true, Active.dictionary_of_read R h₁]
        refine Expansion.bind_congr_right fun output₂ s₂ h₂ => ?_
        rw [expandOne_closeIf includeFile _ _ closes, pure_bind, ihBehind, if_pos active,
          dictionary_of_foldlM_read R h₂, Active.dictionary_of_read R h₁]
      | true =>
        simp only [if_true]
        refine Expansion.bind_congr_right fun output₂ s₂ h₂ => ?_
        rw [expandOne_openElse includeFile _ _ turns rfl, pure_bind,
          Expansion.bind_congr_left (ihWithin' ..), bind_map_left]
        simp only [isActive_cons, Bool.not_true, Bool.and_false, Bool.false_eq_true, if_false,
          List.foldlM_nil, pure_bind, expandOne_closeIf includeFile _ _ closes]
        rw [ihBehind, if_pos active, dictionary_of_foldlM_read R h₂, Active.dictionary_of_read R h₁]

/-- A list whose conditions nest comes to what is active in it, as far as it is read. -/
theorem expandList_of_nests {es : List Expression} {o : Outline} (h : Nests es o) (s : Session) :
    expandList R includeFile es s =
      (Array.toList <$> (o.actives R s.dictionary).foldlM (Active.read R) #[]) s := by
  have run := foldlM_expandOne_of_nests R includeFile h [] #[] s
  change (es.foldlM (expandOne R includeFile) ⟨[], #[]⟩ >>= closeLayout) s = _
  rw [Expansion.bind_congr_left run, bind_map_left]
  exact congrFun (map_eq_pure_bind ..).symm s

end Runs

/-! ## What a run shows -/

/-- Whether a list closes the open conditions, each given by whether its `$Else` has been met, and
nests behind and between them. -/
inductive Closes : List Bool → List Expression → Prop
  | nests {es : List Expression} {o : Outline} (h : Nests es o) : Closes [] es
  | close {seenElse : Bool} {flags : List Bool} {closing : Expression} {ignored : List Char}
      {xs es : List Expression} {o : Outline} (within : Nests xs o)
      (closes : closing.block = .found .closeIf ignored) (behind : Closes flags es) :
      Closes (seenElse :: flags) (xs ++ closing :: es)
  | turn {flags : List Bool} {other : Expression} {ignored : List Char}
      {xs es : List Expression} {o : Outline} (within : Nests xs o)
      (turns : other.block = .found .openElse ignored) (behind : Closes (true :: flags) es) :
      Closes (false :: flags) (xs ++ other :: es)

namespace Closes

/-- What may stand in front of a list that nests may stand in front of one that closes
conditions. -/
theorem prepend (front : List Expression)
    (nests : ∀ es o, Nests es o → ∃ o', Nests (front ++ es) o') {flags : List Bool}
    {es : List Expression} (h : Closes flags es) : Closes flags (front ++ es) := by
  cases h with
  | nests h =>
    obtain ⟨o', h'⟩ := nests _ _ h
    exact .nests h'
  | close within closes behind =>
    obtain ⟨o', within'⟩ := nests _ _ within
    rw [← List.append_assoc]
    exact .close within' closes behind
  | turn within turns behind =>
    obtain ⟨o', within'⟩ := nests _ _ within
    rw [← List.append_assoc]
    exact .turn within' turns behind

theorem row {e : Expression} (row : e.block = .absent) {flags : List Bool} {es : List Expression}
    (h : Closes flags es) : Closes flags (e :: es) :=
  h.prepend [e] fun _ _ behind => ⟨_, .row row behind⟩

theorem openIf {e : Expression} {inside : List Char} (opens : e.block = .found .openIf inside)
    {flags : List Bool} {es : List Expression} (h : Closes (false :: flags) es) :
    Closes flags (e :: es) := by
  cases h with
  | @close _ _ closing _ xs es _ within closes behind =>
    have nested := behind.prepend (e :: (xs ++ [closing])) fun zs o h =>
      ⟨_, by simpa using Nests.withoutElse opens within closes h⟩
    simpa using nested
  | @turn _ other _ xs es _ within turns behind =>
    cases behind with
    | @close _ _ closing _ ys es _ within' closes behind =>
      have nested := behind.prepend (e :: (xs ++ other :: (ys ++ [closing]))) fun zs o h =>
        ⟨_, by simpa using Nests.withElse opens within turns within' closes h⟩
      simpa using nested

end Closes

section Converse

variable {R} {includeFile : Expression → List Char → Expansion (List Expression)}

theorem closes_of_expandOne {e : Expression} (noInclude : ¬ e.isInclude) {l l' : Layout}
    {s s' : Session} (step : expandOne R includeFile l e s = .ok l' s') {es : List Expression}
    (behind : Closes (l'.branches.map (·.seenElse)) es) :
    Closes (l.branches.map (·.seenElse)) (e :: es) := by
  obtain ⟨branches, output⟩ := l
  cases hb : e.block with
  | absent =>
    rw [expandOne_row R s includeFile branches output hb, Expansion.map_apply] at step
    split at step <;> cases step
    exact behind.row hb
  | unclosed written =>
    have scan : scanBlock (Text.trim e.text.toList) = .unclosed written := hb
    simp [expandOne, scan] at step
  | found name inside =>
    have scan : scanBlock (Text.trim e.text.toList) = .found name inside := hb
    cases name with
    | openIf =>
      cases active : isActive branches with
      | false =>
        rw [expandOne_openIf_of_inactive includeFile branches output hb active] at step
        cases step
        exact behind.openIf hb
      | true =>
        rw [expandOne_openIf R s includeFile branches output hb active,
          Expansion.map_apply] at step
        split at step <;> cases step
        exact behind.openIf hb
    | openElse =>
      cases branches with
      | nil => simp [expandOne, scan, expandBlock] at step
      | cons b rest =>
        cases seen : b.seenElse with
        | false =>
          rw [expandOne_openElse includeFile rest output hb seen] at step
          cases step
          rw [List.map_cons, seen]
          exact .turn .done hb behind
        | true => simp [expandOne, scan, expandBlock, seen] at step
    | closeIf =>
      cases branches with
      | nil => simp [expandOne, scan, expandBlock] at step
      | cons b rest =>
        rw [expandOne_closeIf includeFile rest output hb b] at step
        cases step
        exact .close .done hb behind
    | includeFile => simp [Expression.isInclude, hb] at noInclude

theorem closes_of_foldlM {es : List Expression} (noInclude : ∀ e ∈ es, ¬ e.isInclude)
    {l l' : Layout} {s s' : Session} (run : es.foldlM (expandOne R includeFile) l s = .ok l' s')
    (closed : l'.branches = []) : Closes (l.branches.map (·.seenElse)) es := by
  induction es generalizing l s with
  | nil =>
    cases run
    rw [closed]
    exact .nests .done
  | cons e es ih =>
    obtain ⟨first, others⟩ := List.forall_mem_cons.1 noInclude
    rw [List.foldlM_cons, Expansion.bind_apply] at run
    split at run
    · rename_i step
      exact closes_of_expandOne first step (ih others run)
    · cases run

theorem expandList_eq_ok_iff {es : List Expression} (noInclude : ∀ e ∈ es, ¬ e.isInclude)
    {out : List Expression} {s s' : Session} :
    expandList R includeFile es s = .ok out s' ↔ ∃ o, Nests es o ∧
      (∀ a ∈ o.actives R s.dictionary,
        ¬ ReachesUnclosed R a.expression.role.subject a.dictionary) ∧
      out = (o.actives R s.dictionary).filterMap (·.output? R) ∧
      s' = ⟨Active.behindAll R s.dictionary (o.actives R s.dictionary),
        s.messages ++ ((o.actives R s.dictionary).filterMap (·.message? R)).toArray⟩ := by
  constructor
  · intro run
    have closed : Closes [] es := by
      change (es.foldlM (expandOne R includeFile) ⟨[], #[]⟩ >>= closeLayout) s = _ at run
      rw [Expansion.bind_apply] at run
      split at run
      · rename_i l s₁ hl
        cases hb : l.branches with
        | nil => exact closes_of_foldlM noInclude hl hb
        | cons b rest => simp [closeLayout, hb] at run
      · cases run
    obtain @⟨_, o, h⟩ := closed
    refine ⟨o, h, ?_⟩
    rw [expandList_of_nests R includeFile h, Expansion.map_apply] at run
    split at run
    · rename_i output s₁ hread
      cases run
      obtain ⟨sound, rfl, rfl⟩ := (foldlM_read_eq_ok_iff R).1 hread
      exact ⟨fun a ha => (a.fault?_eq_none_iff R).1 (sound a ha), by simp, rfl⟩
    · cases run
  · rintro ⟨o, h, sound, rfl, rfl⟩
    rw [expandList_of_nests R includeFile h, Expansion.map_apply, (foldlM_read_eq_ok_iff R).2
      ⟨fun a ha => (a.fault?_eq_none_iff R).2 (sound a ha), rfl, rfl⟩]
    simp

/-- Without includes, the stack of conditions comes to what the tree says. There is a result if and
only if the conditions nest and no text that is read comes to an inline directive that is not
closed. The result and the messages are those of the expressions that are read. -/
theorem expand_eq_ok_iff {es : List Expression} (noInclude : ∀ e ∈ es, ¬ e.isInclude)
    {settings : ExpansionSettings} {seed : UInt64} {messages : List Message}
    {out : List Expression} :
    expand R settings seed es = ⟨messages, .ok out⟩ ↔ ∃ o, Nests es o ∧
      (∀ a ∈ o.actives R ⟨Generator.ofSeed seed, ∅⟩,
        ¬ ReachesUnclosed R a.expression.role.subject a.dictionary) ∧
      out = (o.actives R ⟨Generator.ofSeed seed, ∅⟩).filterMap (·.output? R) ∧
      messages = (o.actives R ⟨Generator.ofSeed seed, ∅⟩).filterMap (·.message? R) := by
  have run : expand R settings seed es = ⟨messages, .ok out⟩ ↔
      ∃ s', expandList R (includeAt R settings maxIncludeDepth) es
        ⟨⟨Generator.ofSeed seed, ∅⟩, #[]⟩ = .ok out s' ∧ s'.messages.toList = messages := by
    unfold expand
    dsimp only
    cases expandList R (includeAt R settings maxIncludeDepth) es
      ⟨⟨Generator.ofSeed seed, ∅⟩, #[]⟩ <;> simp [and_comm]
  rw [run]
  constructor
  · rintro ⟨s', list, rfl⟩
    obtain ⟨o, h, sound, rfl, rfl⟩ := (expandList_eq_ok_iff noInclude).1 list
    exact ⟨o, h, sound, rfl, by simp⟩
  · rintro ⟨o, h, sound, rfl, rfl⟩
    exact ⟨_, (expandList_eq_ok_iff noInclude).2 ⟨o, h, sound, rfl, rfl⟩, by simp⟩

end Converse

/-- A directive without a value, in a branch that is not read. -/
def badBranch : List Expression :=
  ["$If(0)", "$Sub(1)", "$Else()", "Track.A", "$EndIf()"].map (⟨⟨"", 1, 1⟩, ·⟩)

/-- Of the two branches the other one is read, and nothing is said about the first. -/
theorem expand_badBranch :
    (∀ e ∈ badBranch, ¬ e.isInclude) ∧
      expand ℚ ⟨.csv, .utf8, ⟨fun _ => .error .notFound⟩⟩ 0 badBranch =
        ⟨[], .ok [⟨⟨"", 1, 1⟩, "Track.A"⟩]⟩ := by
  have noInclude : ∀ e ∈ badBranch, ¬ e.isInclude := by decide
  let written (text : String) : Expression := ⟨⟨"", 1, 1⟩, text⟩
  let o := Outline.condition (written "$If(0)") (.row (written "$Sub(1)") .done)
    (.row (written "Track.A") .done) .done
  have opens : (written "$If(0)").block = .found .openIf ['0'] := by decide
  have turns : (written "$Else()").block = .found .openElse [] := by decide
  have closes : (written "$EndIf()").block = .found .closeIf [] := by decide
  have nests : Nests badBranch o :=
    .withElse opens (.row (by decide) .done) turns (.row (by decide) .done) closes
      .done
  have condition (d : Dictionary) : Active.holds ℚ ⟨written "$If(0)", d⟩ = false := by cbv
  have here (d : Dictionary) : Active.behind ℚ ⟨written "$If(0)", d⟩ = d := by cbv
  have actives (d : Dictionary) :
      o.actives ℚ d = [⟨written "$If(0)", d⟩, ⟨written "Track.A", d⟩] := by
    simp [o, Outline.actives, condition, here]
  refine ⟨noInclude, (expand_eq_ok_iff noInclude).2 ⟨o, nests, ?_, ?_, ?_⟩⟩ <;> rw [actives]
  · simp only [List.forall_mem_cons, ← Active.fault?_eq_none_iff, List.not_mem_nil, false_imp_iff,
      implies_true, and_true]
    constructor <;> cbv
  · cbv
  · cbv

end RailRoute.Source
