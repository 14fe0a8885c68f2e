import Mathlib
import RailRoute.Command.Basic

/-!
# What checked computations make sure of

A `Check` that comes to a value has passed all its tests on the way. The rules here carry what the
tests have shown to the value: one rule for each way in which checks are put together. Checks are a
lawful monad.
-/

namespace RailRoute.Check

instance : LawfulMonad Check := LawfulMonad.mk' Check
  (fun x => by
    obtain ⟨problems, _ | a⟩ := x
    · rfl
    · exact congrArg (Check.mk · (some a)) (List.append_nil problems))
  (fun _ _ => rfl)
  (fun x f g => by
    obtain ⟨problems, _ | a⟩ := x
    · rfl
    · change Check.bind ⟨problems ++ (f a).problems, (f a).value?⟩ g =
        ⟨problems ++ (Check.bind (f a) g).problems, (Check.bind (f a) g).value?⟩
      unfold Check.bind
      cases (f a).value? <;> simp)

variable {α β : Type} {P : β → Prop} {Q : α → Prop}

theorem value?_map {γ : Type} (f : α → γ) (x : Check α) :
    (f <$> x).value? = x.value?.map f := by
  obtain ⟨problems, _ | a⟩ := x <;> rfl

theorem value?_bind {x : Check α} {a : α} (h : x.value? = some a) (f : α → Check β) :
    (x >>= f).value? = (f a).value? := by
  change (Check.bind x f).value? = _
  unfold Check.bind
  rw [h]

/-- Whether a computation has no value but such as it should. -/
def Ensures (P : α → Prop) (x : Check α) : Prop := ∀ a, x.value? = some a → P a

theorem ensures_pure {b : β} (h : P b) : Ensures P (pure b) := by
  rintro _ ⟨⟩
  exact h

theorem ensures_fail (p : Problem) : Ensures P (fail p) := by
  rintro _ ⟨⟩

theorem Ensures.bind {x : Check α} {f : α → Check β} (hx : Ensures Q x)
    (h : ∀ a, Q a → Ensures P (f a)) : Ensures P (x >>= f) := by
  intro b hb
  change (Check.bind x f).value? = some b at hb
  unfold Check.bind at hb
  split at hb
  · cases hb
  · rename_i a ha
    exact h a (hx a ha) b hb

theorem ensures_bind {x : Check α} {f : α → Check β} (h : ∀ a, Ensures P (f a)) :
    Ensures P (x >>= f) :=
  Ensures.bind (Q := fun _ => True) (fun _ _ => trivial) fun a _ => h a

theorem ensures_ofOption (p : Problem) (a? : Option α) :
    Ensures (fun a => a? = some a) (ofOption p a?) := by
  rintro a ha
  cases a? with
  | none => cases ha
  | some _ => exact ha

/-- Behind a test that gives up, the test has gone well. -/
theorem ensures_unless {c : Prop} [Decidable c] {p : Problem} {f : α → Check β} {y : Check β}
    (h : ¬ c → Ensures P y) : Ensures P (if c then fail p >>= f else y) := by
  split_ifs with hc
  · rintro _ ⟨⟩
  · exact h hc

/-- What holds of each value that is computed for a list, one after the other. -/
theorem ensures_mapM {γ : Type} {S : γ → α → Prop} {f : γ → Check α}
    (h : ∀ c, Ensures (S c) (f c)) (cs : List γ) : Ensures (List.Forall₂ S cs) (cs.mapM f) := by
  have loop (front : List α) : Ensures (fun l => ∃ l', l = front.reverse ++ l' ∧
      List.Forall₂ S cs l') (List.mapM.loop f cs front) := by
    induction cs generalizing front with
    | nil => exact ensures_pure ⟨[], (List.append_nil _).symm, .nil⟩
    | cons c cs ih =>
      refine Ensures.bind (h c) fun a ha l hl => ?_
      obtain ⟨l', rfl, hl'⟩ := ih (a :: front) l hl
      exact ⟨a :: l', by simp, .cons ha hl'⟩
  intro l hl
  obtain ⟨l', rfl, hl'⟩ := loop [] l hl
  exact hl'

end RailRoute.Check
