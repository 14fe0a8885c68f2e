import Mathlib
import RailRoute.Block.Reading
import RailRoute.Proofs.Arithmetic
import RailRoute.Proofs.Command.Spelling
import RailRoute.Proofs.Compile.Scopes

/-!
# Arguments that are lengths

Some arguments of commands are lengths, and others are not. A command whose lengths are divided by a
unit is read as before, if its lengths are multiplied by the unit then. Main statements:
`IsDivided.read_eq` and `IsDivided.length_eq`.
-/

namespace RailRoute

open Source

/-! ## Places -/

/-- The places at which a track command has lengths. -/
def TrackVerb.lengthPlaces : TrackVerb → List Nat
  | .rail | .railStart | .railEnd | .relay | .stop | .doppler | .pointOfInterest => [1, 2]
  | .curve | .height => [0]
  | .fog => [0, 1]
  | .imageMarker | .textMarker => [1]
  | .freeObject | .customSignal | .postSignal => [2, 3]
  | .transponder => [3, 4]
  | .beacon => [4, 5]
  | _ => []

namespace Command

/-- Whether a command of the track ends a rail where it came to, though its name is that of one that
starts a rail. -/
def endsRail (c : Command) : Bool :=
  TrackVerb.ofName? c.name = some .rail && Site.isWord ((c.argument? 1).getD "") ["ended"]

/-- The places at which a command has lengths. -/
def lengthPlaces (c : Command) : List Nat :=
  if c.root = "options" then if c.name = "blocklength" then [0] else []
  else if c.root = "route" then if c.name = "elevation" then [0] else []
  else if c.root = "track" then
    if c.endsRail then [] else ((TrackVerb.ofName? c.name).map (·.lengthPlaces)).getD []
  else []

/-- The places of lengths that have a default other than zero, and no earlier length in its
stead. -/
def defaultedPlaces (c : Command) : List Nat :=
  if c.root = "options" then if c.name = "blocklength" then [0] else []
  else if c.root = "track" then if TrackVerb.ofName? c.name = some .stop then [1, 2] else []
  else []

variable {R : Type} [Scalar R]

/-- Whether an argument is a number as far as it is read. -/
def States (R : Type) [Scalar R] (c : Command) (i : Nat) : Prop :=
  (parseLenient (c.arguments.getD i "").toList : Option R).isSome

/-- Whether an argument comes of another one by division. One that is no number stays as it is. -/
def IsDividedArgument (u : R) (a a' : String) : Prop :=
  parseLenient a'.toList = (parseLenient a.toList).map (· / u) ∧
    ((parseLenient a.toList : Option R) = none → a' = a)

/-- Whether a command comes of another one by division of its lengths. -/
structure IsDivided (u : R) (c c' : Command) : Prop where
  root : c'.root = c.root
  name : c'.name = c.name
  indices : c'.indices = c.indices
  size : c'.arguments.length = c.arguments.length
  raw : c.lengthPlaces = [] → c'.raw = c.raw
  lengths : ∀ i ∈ c.lengthPlaces,
    IsDividedArgument u (c.arguments.getD i "") (c'.arguments.getD i "")
  others : ∀ i < c.arguments.length, i ∉ c.lengthPlaces →
    c'.arguments.getD i "" = c.arguments.getD i ""

section Decidable

variable [DecidableEq R] (u : R)

instance (a a' : String) : Decidable (IsDividedArgument u a a') :=
  inferInstanceAs (Decidable (_ ∧ _))

instance (c c' : Command) : Decidable (c.IsDivided u c') :=
  decidable_of_iff (c'.root = c.root ∧ c'.name = c.name ∧ c'.indices = c.indices ∧
    c'.arguments.length = c.arguments.length ∧ (c.lengthPlaces = [] → c'.raw = c.raw) ∧
    (∀ i ∈ c.lengthPlaces,
      IsDividedArgument u (c.arguments.getD i "") (c'.arguments.getD i "")) ∧
    ∀ i < c.arguments.length, i ∉ c.lengthPlaces →
      c'.arguments.getD i "" = c.arguments.getD i "")
    ⟨fun ⟨root, name, indices, size, raw, lengths, others⟩ =>
      ⟨root, name, indices, size, raw, lengths, others⟩,
      fun h => ⟨h.root, h.name, h.indices, h.size, h.raw, h.lengths, h.others⟩⟩

instance (c : Command) (i : Nat) : Decidable (c.States R i) :=
  inferInstanceAs (Decidable (_ = true))

end Decidable

/-! ## Reading -/

theorem read_eq_readText {α : Type} (c : Command) (parse : List Char → Option α) (i : Nat)
    (default : α) (what : String) :
    c.read parse i default what = c.readText parse (c.arguments.getD i "") default what := by
  unfold read
  rw [List.getD_eq_getElem?_getD]
  cases c.arguments[i]? <;> rfl

theorem readText_bind_pure {α β : Type} (c : Command) (parse : List Char → Option α) (a : String)
    (default : α) (what : String) (f : α → β) :
    (do let x ← c.readText parse a default what; pure (f x)) =
      c.readText (fun cs => (parse cs).map f) a (f default) what := by
  unfold readText
  dsimp only
  split_ifs
  · rfl
  · cases parse a.toList <;> rfl

theorem argument?_eq (c : Command) (i : Nat) : c.argument? i =
    if (c.arguments.getD i "").isEmpty then none else some (c.arguments.getD i "") := by
  unfold argument?
  rw [List.getD_eq_getElem?_getD]
  cases c.arguments[i]? <;> rfl

theorem isEmpty_of_parseLenient {a : String} {x : R} (h : parseLenient a.toList = some x) :
    a.isEmpty = false := by
  by_contra hempty
  obtain rfl : a = "" := by simpa using hempty
  cases h

namespace IsDivided

variable {u : R} {c c' : Command} (h : c.IsDivided u c')

include h

theorem qualifiedName_eq : c'.qualifiedName = c.qualifiedName := by
  rw [qualifiedName, qualifiedName, h.root, h.name]

theorem note_eq (d : Defect) : c'.note d = c.note d := by rw [note, note, h.qualifiedName_eq]

theorem fail_eq {α : Type} (d : Defect) : (c'.fail d : Check α) = c.fail d := by
  rw [fail, fail, h.qualifiedName_eq]

theorem require_eq {α : Type} (d : Defect) (a? : Option α) : c'.require d a? = c.require d a? := by
  rw [require, require, h.qualifiedName_eq]

variable {i : Nat}

theorem argument_eq (hi : i ∉ c.lengthPlaces) :
    c'.arguments.getD i "" = c.arguments.getD i "" := by
  rcases Nat.lt_or_ge i c.arguments.length with hlt | hge
  · exact h.others i hlt hi
  · rw [List.getD_eq_default _ _ hge, List.getD_eq_default _ _ (h.size ▸ hge)]

theorem eq_of_lengthPlaces (none : c.lengthPlaces = []) : c' = c := by
  have arguments : c'.arguments = c.arguments := by
    refine List.ext_getElem h.size fun i hi hi' => ?_
    have := h.argument_eq (i := i) (by simp [none])
    rwa [List.getD_eq_getElem _ _ hi, List.getD_eq_getElem _ _ hi'] at this
  have root := h.root
  have name := h.name
  have indices := h.indices
  have raw := h.raw none
  clear h
  cases c
  cases c'
  simp_all

theorem argument?_eq_of_notMem (hi : i ∉ c.lengthPlaces) : c'.argument? i = c.argument? i := by
  rw [argument?_eq, argument?_eq, h.argument_eq hi]

/-- What is no length is read as before. -/
theorem read_eq {α : Type} (hi : i ∉ c.lengthPlaces) (parse : List Char → Option α) (default : α)
    (what : String) : c'.read parse i default what = c.read parse i default what := by
  rw [read_eq_readText, read_eq_readText, h.argument_eq hi]
  unfold readText
  simp only [h.note_eq]

theorem number_eq (hi : i ∉ c.lengthPlaces) (default : R) (what : String) :
    c'.number i default what = c.number i default what := h.read_eq hi ..

theorem integer_eq (hi : i ∉ c.lengthPlaces) (default : Int) (what : String) :
    c'.integer R i default what = c.integer R i default what := h.read_eq hi ..

theorem natural_eq (hi : i ∉ c.lengthPlaces) (default : Int) (what : String) :
    c'.natural R i default what = c.natural R i default what := by
  unfold natural
  simp only [h.integer_eq hi, h.fail_eq]

end IsDivided

/-- A length comes to the same if it is multiplied by the unit, unless it is left to a default that
is not divided. -/
theorem IsDivided.length_eq {R : Type} [ExactScalar R] {u : R} {c c' : Command}
    (h : c.IsDivided u c') (hu : u ≠ 0) {i : Nat} (hi : i ∈ c.lengthPlaces) {default default' : R}
    (states : c.States R i ∨ default' * u = default) (what : String) :
    (do let x ← c'.number i default' what; pure (x * u)) =
      (do let x ← c.number i default what; pure (x * 1) : Check R) := by
  obtain ⟨divided, kept⟩ := h.lengths i hi
  unfold number
  rw [read_eq_readText, read_eq_readText, readText_bind_pure, readText_bind_pure]
  unfold readText
  dsimp only
  cases hx : (parseLenient (c.arguments.getD i "").toList : Option R) with
  | none =>
    have unstated : default' * u = default := states.resolve_left fun hs => by
      rw [States, hx] at hs
      cases hs
    rw [kept hx, hx, h.note_eq, unstated, mul_one]
    rfl
  | some x =>
    rw [hx, Option.map_some] at divided
    rw [isEmpty_of_parseLenient hx, isEmpty_of_parseLenient divided, divided, Option.map_some,
      Option.map_some, div_mul_cancel₀ x hu, mul_one, mul_one]
    rfl

/-! ## Ends of rails -/

/-- The word in place of a length is not a number. -/
theorem parseLenient_of_isWord {a : String} (h : Site.isWord a ["ended"]) :
    (parseLenient a.toList : Option R) = none := by
  have spelled : Text.lower a.toList = ['e', 'n', 'd', 'e', 'd'] := by
    have same : Text.sameWord a.toList "ended".toList := by simpa [Site.isWord] using h
    exact (beq_iff_eq.1 same).trans (by decide)
  cases ha : a.toList with
  | nil =>
    rw [ha] at spelled
    cases spelled
  | cons c r =>
    rw [ha] at spelled
    have letter : c = 'e' ∨ c = 'E' := Text.eq_or_of_toLower (by decide) (List.cons.inj spelled).1
    have trimmed (hc : ¬ Text.isBlank c) : Text.trim (c :: r) = c :: Text.trimEnd r :=
      Text.trim_append_cons hc r (x := [])
    unfold parseLenient
    rcases letter with rfl | rfl <;> rw [trimmed (by decide)] <;> rfl

theorem IsDivided.endsRail_eq {u : R} {c c' : Command} (h : c.IsDivided u c')
    (root : c.root = "track") : c'.endsRail = c.endsRail := by
  by_cases ends : c.endsRail
  · have places : c.lengthPlaces = [] := by simp [lengthPlaces, root, ends]
    rw [h.eq_of_lengthPlaces places]
  · unfold endsRail at ends ⊢
    rw [h.name]
    by_cases rail : TrackVerb.ofName? c.name = some .rail
    · have word : ¬ Site.isWord ((c.argument? 1).getD "") ["ended"] := by simpa [rail] using ends
      have place : 1 ∈ c.lengthPlaces := by
        simp [lengthPlaces, root, endsRail, rail, word, TrackVerb.lengthPlaces]
      have argument (c : Command) : (c.argument? 1).getD "" = c.arguments.getD 1 "" := by
        rw [argument?_eq]
        by_cases hempty : (c.arguments.getD 1 "").isEmpty
        · rw [if_pos hempty, String.isEmpty_iff.1 hempty]
          rfl
        · rw [if_neg hempty]
          rfl
      obtain ⟨divided, kept⟩ := h.lengths 1 place
      rw [argument] at word
      rw [argument, argument]
      have word' : ¬ Site.isWord (c'.arguments.getD 1 "") ["ended"] := by
        intro hword
        rw [parseLenient_of_isWord hword] at divided
        rw [kept (Option.map_eq_none_iff.1 divided.symm)] at hword
        exact word hword
      rw [Bool.eq_false_of_not_eq_true word, Bool.eq_false_of_not_eq_true word']
    · simp [rail]

end Command

end RailRoute
