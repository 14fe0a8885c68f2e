import Mathlib
import RailRoute.Proofs.Compile.FirstPass
import RailRoute.Proofs.Rounding

/-!
# What a route is divided by

Positions are divided by the block length and speeds are written in units of speed, so neither
should be zero. A command is turned down if what it states is zero or negative. But that is asked
before a speed is divided and after a length is multiplied, and it is asked by comparing: the least
positive number is lost in the division, and zero times infinity is not zero. These two are all that
goes wrong. Main statement: `usable_readAhead`.
-/

namespace RailRoute

open Check FloatOrder

/-! ## What is stated -/

namespace Command

variable {R : Type} [Scalar R]

/-- The number that the first argument of a command stands for, written or not. -/
def firstNumber (c : Command) (default : R) : R :=
  (c.arguments.head?.bind fun a => Source.parseLenient a.toList).getD default

/-- The unit of speed that a command states, in kilometers per hour. -/
def speedUnit (c : Command) : R := c.firstNumber 1

/-- The block length that a command states, in units of length. -/
def blockLength (c : Command) : R := c.firstNumber (Scalar.ofNat 25)

theorem value?_number (c : Command) (default : R) (what : String) :
    (c.number 0 default what).value? = some (c.firstNumber default) := by
  unfold number read firstNumber
  cases c.arguments with
  | nil => rfl
  | cons a as =>
    unfold readText
    by_cases empty : a.isEmpty
    · obtain rfl := String.isEmpty_iff.1 empty
      simp
      rfl
    · simp [empty]
      cases (Source.parseLenient a.toList : Option R) <;> rfl

theorem firstNumber_cases (c : Command) (default : R) : c.firstNumber default = default ∨
    ∃ d, c.firstNumber default = Scalar.ofDecimal d := by
  unfold firstNumber
  cases c.arguments.head? with
  | none => exact .inl rfl
  | some a =>
    rw [Option.bind_some, Source.parseLenient]
    cases Source.takeNumber (Text.trim a.toList) with
    | none => exact .inl rfl
    | some x => exact .inr ⟨x.1, rfl⟩

/-- What a command states is a number. -/
theorem beq_self_firstNumber (c : Command) {default : Float} (h : default == default) :
    c.firstNumber default == c.firstNumber default := by
  obtain same | ⟨d, same⟩ := c.firstNumber_cases default <;> rw [same]
  exacts [h, beq_self_toFloat d]

end Command

namespace Options

/-! ## Usable options -/

/-- Whether numbers can be the factors of the unit of length: none is negative, and there is a last
one, which is positive. -/
structure AreFactors {R : Type} [Scalar R] (factors : List R) : Prop where
  nonneg : ∀ f ∈ factors, 0 ≤ f
  last : EndsPositive factors

/-- Whether a route can be divided by its options. -/
structure IsUsable {R : Type} [Scalar R] (o : Options R) : Prop where
  unit : AreFactors o.unitOfLength
  speed : 0 < o.unitOfSpeed
  block : 0 < o.blockInterval

/-- What is so whatever the options are set to: the unit of length is as it should be, the unit of
speed is not negative, and the block length is neither zero nor negative. -/
structure IsGuarded {R : Type} [Scalar R] (o : Options R) : Prop where
  unit : AreFactors o.unitOfLength
  speed : 0 ≤ o.unitOfSpeed
  block : ¬ o.blockInterval ≤ 0

/-- Whether a command spoils the options: it states the least positive number as the unit of speed,
or zero as the block length under an infinite unit. -/
inductive Spoils (o : Options Float) (c : Command) : Prop
  | speed (name : c.name = "unitofspeed") (least : (c.speedUnit : Float).toBits = 1)
  | block (name : c.name = "blocklength") (zero : (c.blockLength : Float) == 0)
      (infinite : o.lengthUnit.isInf)

/-- A number that is neither zero nor negative is positive. -/
theorem pos_of_not_nonpos {x : Float} (number : x == x) (h : ¬ x ≤ 0) : 0 < x :=
  ComparableScalar.lt_of_not_le number (by decide) h

theorem areFactors_initial : AreFactors (initial : Options Float).unitOfLength :=
  ⟨by decide, 1, rfl, by decide⟩

theorem isUsable_initial : (initial : Options Float).IsUsable :=
  ⟨areFactors_initial, by decide, by decide⟩

theorem isGuarded_initial : (initial : Options Float).IsGuarded :=
  ⟨areFactors_initial, by decide, by decide⟩

theorem areFactors_readFactors {R : Type} [Scalar R] [ComparableScalar R] (one : (0 : R) < 1)
    {c : Command} (ne : c.arguments ≠ []) : Ensures (AreFactors (R := R)) (readFactors c) := by
  intro factors read
  refine ⟨fun f hf => ?_, readFactors_endsPositive one ne factors read⟩
  have nonneg : (0 : R) ≤ 1 := (ComparableScalar.lt_iff.1 one).1
  have number : (0 : R) == 0 := (ComparableScalar.beq_self_of_le nonneg).1
  have each := ensures_readFactors c factors read
  obtain ⟨i, hi, rfl⟩ := List.mem_iff_getElem.1 hf
  rcases each.get (each.length_eq ▸ hi) hi with h | h
  · change factors[i] = _ at h
    rw [h]
    split_ifs
    exacts [nonneg, (ComparableScalar.le_total number number).elim id id]
  · exact (ComparableScalar.lt_iff.1 h).1

section Commands

variable {R : Type} [Scalar R] {o : Options R} {c : Command}

theorem value?_update_unitOfSpeed (name : c.name = "unitofspeed") : (update c o).value? =
    if c.speedUnit (R := R) ≤ 0 then none
    else some { o with unitOfSpeed := c.speedUnit / Scalar.fixed 36 1 } := by
  unfold update
  rw [name]
  refine (value?_bind (c.value?_number 1 "FactorInKmph") _).trans ?_
  change (ite (c.speedUnit ≤ (0 : R)) _ _ : Check (Options R)).value? = _
  split_ifs <;> rfl

theorem value?_update_blockLength (name : c.name = "blocklength") : (update c o).value? =
    if c.blockLength * o.lengthUnit ≤ 0 then none
    else some { o with blockInterval := c.blockLength * o.lengthUnit } := by
  unfold update
  rw [name]
  refine (value?_bind (c.value?_number (Scalar.ofNat 25) "Length") _).trans ?_
  change (ite (c.blockLength * o.lengthUnit ≤ 0) _ _ : Check (Options R)).value? = _
  split_ifs <;> rfl

end Commands

section Step

variable {o : Options Float} (h : o.IsUsable) {c : Command}

include h

theorem isUsable_update_unitOfSpeed (name : c.name = "unitofspeed") :
    Ensures IsUsable (update c o) ↔ (c.speedUnit : Float).toBits ≠ 1 := by
  have number : (c.speedUnit : Float) == c.speedUnit := c.beq_self_firstNumber (by decide)
  unfold Ensures
  rw [value?_update_unitOfSpeed name]
  split_ifs with negative
  · refine iff_of_true nofun fun least => ?_
    rw [eq_of_toBits least] at negative
    exact absurd negative (by decide)
  · have pos : 0 < (c.speedUnit : Float) := pos_of_not_nonpos number negative
    rw [← zero_lt_div_iff pos]
    constructor
    · exact fun usable => (usable _ rfl).speed
    · rintro speed _ ⟨⟩
      exact { h with speed }

theorem isUsable_update_blockLength (name : c.name = "blocklength") :
    Ensures IsUsable (update c o) ↔ ¬ ((c.blockLength : Float) == 0 ∧ o.lengthUnit.isInf) := by
  have number : (c.blockLength : Float) == c.blockLength :=
    c.beq_self_firstNumber (by decide)
  have unit : Zero.zero < o.lengthUnit := by
    obtain ⟨f, last, pos⟩ := h.unit.last
    rwa [lengthUnit, last, Option.getD_some]
  unfold Ensures
  rw [value?_update_blockLength name, ← mul_beq_self_iff number unit]
  split_ifs with negative
  · exact iff_of_true nofun (ComparableScalar.beq_self_of_le negative).1
  · constructor
    · exact fun usable => (ComparableScalar.beq_self_of_le
        (ComparableScalar.lt_iff.1 (usable _ rfl).block).1).2
    · rintro product _ ⟨⟩
      exact { h with block := pos_of_not_nonpos product negative }

/-- A command keeps options usable unless it spoils them. -/
theorem isUsable_update_iff : Ensures IsUsable (update c o) ↔ ¬ o.Spoils c := by
  by_cases speed : c.name = "unitofspeed"
  · rw [isUsable_update_unitOfSpeed h speed, Ne, not_iff_not]
    constructor
    · exact .speed speed
    · rintro (⟨-, least⟩ | ⟨block, -, -⟩)
      · exact least
      · exact absurd (speed.symm.trans block) (by decide)
  by_cases block : c.name = "blocklength"
  · rw [isUsable_update_blockLength h block, not_iff_not]
    constructor
    · exact fun ⟨zero, infinite⟩ => .block block zero infinite
    · rintro (⟨speed, -⟩ | ⟨-, zero, infinite⟩)
      · exact absurd (block.symm.trans speed) (by decide)
      · exact ⟨zero, infinite⟩
  · refine iff_of_true ?_ ?_
    · exact ensures_update
        (fun factors arguments read => { h with
          unit := areFactors_readFactors (by decide) arguments factors read })
        (fun name => absurd name speed) (fun name => absurd name block)
        fun o' units speeds blocks =>
          ⟨units ▸ h.unit, speeds ▸ h.speed, blocks ▸ h.block⟩
    · rintro (⟨name, -⟩ | ⟨name, -, -⟩)
      exacts [speed name, block name]

end Step

theorem isGuarded_update {o : Options Float} (h : o.IsGuarded) (c : Command) :
    Ensures IsGuarded (update c o) :=
  ensures_update
    (fun factors arguments read => { h with
      unit := areFactors_readFactors (by decide) arguments factors read })
    (fun name x read accepted => by
      obtain rfl := Option.some.inj ((c.value?_number ..).symm.trans read)
      have pos := pos_of_not_nonpos (c.beq_self_firstNumber (by decide)) accepted
      exact { h with speed := zero_le_div pos })
    (fun name x read accepted => { h with block := accepted })
    fun o' units speeds blocks =>
      ⟨units ▸ h.unit, speeds ▸ h.speed, blocks ▸ h.block⟩

/-! ## Reading ahead -/

section Reading

/-- The option command that an expression comes to when options are read ahead. -/
def command? {R : Type} [Scalar R] (dialect : Dialect) (r : Reading R) (e : Source.Expression) :
    Option Command :=
  match interpret dialect r.options.unitOfLength r.scope (e.normalized R dialect r.scope) with
  | .ok (.command c) => if c.root = "options" then some c else none
  | _ => none

theorem options_readOne {R : Type} [Scalar R] (dialect : Dialect) (r : Reading R)
    (e : Source.Expression) : (readOne dialect r e).options =
      ((command? dialect r e).bind fun c => (update c r.options).value?).getD r.options := by
  unfold readOne command?
  dsimp only
  generalize interpret dialect r.options.unitOfLength r.scope _ = meaning
  match meaning with
  | .error _ | .ok (.scope _) | .ok (.position _ _) => rfl
  | .ok (.command c) =>
    dsimp only
    split_ifs <;> rfl

theorem isUsable_readOne_iff {dialect : Dialect} {r : Reading Float} (h : r.options.IsUsable)
    (e : Source.Expression) : (readOne dialect r e).options.IsUsable ↔
      ∀ c ∈ command? dialect r e, ¬ r.options.Spoils c := by
  rw [options_readOne]
  cases command? dialect r e with
  | none => simpa using h
  | some c =>
    have step := isUsable_update_iff h (c := c)
    unfold Ensures at step
    simp only [Option.bind_some, Option.mem_some_iff, forall_eq', ← step]
    cases (update c r.options).value? with
    | none => simpa using h
    | some o => simp

theorem readAhead_append_singleton {R : Type} [Scalar R] (dialect : Dialect)
    (front : List Source.Expression) (e : Source.Expression) :
    readAhead (R := R) dialect (front ++ [e]) = readOne dialect (readAhead dialect front) e := by
  rw [readAhead, List.foldl_append]
  rfl

/-- The options of a route are always guarded. They stay usable through the whole route if and only
if no command spoils them. -/
theorem usable_readAhead (dialect : Dialect) (es : List Source.Expression) :
    let reading (front : List Source.Expression) : Reading Float := readAhead dialect front
    (reading es).options.IsGuarded ∧
      ((∀ front, front <+: es → (reading front).options.IsUsable) ↔
        ∀ front e, front ++ [e] <+: es →
          ∀ c ∈ command? dialect (reading front) e, ¬ (reading front).options.Spoils c) := by
  intro reading
  have step (front : List Source.Expression) (e : Source.Expression) :
      reading (front ++ [e]) = readOne dialect (reading front) e :=
    readAhead_append_singleton dialect front e
  refine ⟨readAhead_induction isGuarded_initial (fun c _ h => isGuarded_update h c) dialect es,
    fun usable front e within => ?_, fun spares front => ?_⟩
  · rw [← isUsable_readOne_iff (usable front ((List.prefix_append ..).trans within)), ← step]
    exact usable _ within
  · induction front using List.reverseRecOn with
    | nil => exact fun _ => isUsable_initial
    | append_singleton front e ih =>
      intro within
      rw [step, isUsable_readOne_iff (ih ((List.prefix_append ..).trans within))]
      exact spares front e within

/-- A unit of speed that comes to zero, and a block length that is no number. -/
theorem spoilt_readAhead :
    let speed : List Source.Expression := [⟨⟨"route.csv", 1, 1⟩, "Options.UnitOfSpeed 5e-324"⟩]
    let block : List Source.Expression := [⟨⟨"route.csv", 1, 1⟩, "Options.UnitOfLength 1e999"⟩,
      ⟨⟨"route.csv", 2, 1⟩, "Options.BlockLength 0"⟩]
    ¬ (readAhead (R := Float) .csv speed).options.IsUsable ∧
      ¬ (readAhead (R := Float) .csv block).options.IsUsable := by
  refine ⟨fun h => absurd h.speed ?_, fun h => absurd h.block ?_⟩ <;> decide +kernel

end Reading

end Options

end RailRoute
