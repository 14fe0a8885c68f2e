import Mathlib
import RailRoute.Compile
import RailRoute.Proofs.Arithmetic
import RailRoute.Proofs.Check

/-!
# The options of the first pass

A block length is accepted only if it is not zero or negative, so the tables that the first pass
fills never hold one that is. Nor is the last factor of the unit of length, the one that applies to
lengths which are one number. Main statements: `blockInterval_gathered` and `unitOfLength_readAhead`.
-/

namespace RailRoute

open Check

variable {R : Type} [Scalar R]

/-! ## The block length -/

/-- What holds behind an option command: the factors of the unit of length are read anew, or the
unit of speed or the block length is and is accepted, or none of them changes. -/
theorem Options.ensures_update {P : Options R → Prop} {c : Command} {o : Options R}
    (units : ∀ factors, c.arguments ≠ [] → (readFactors c).value? = some factors →
      P { o with unitOfLength := factors })
    (speeds : c.name = "unitofspeed" → ∀ x, (c.number 0 (1 : R) "FactorInKmph").value? = some x →
      ¬ x ≤ 0 → P { o with unitOfSpeed := x / Scalar.fixed 36 1 })
    (blocks : c.name = "blocklength" →
      ∀ x, (c.number 0 (Scalar.ofNat 25 : R) "Length").value? = some x →
      ¬ x * o.lengthUnit ≤ 0 → P { o with blockInterval := x * o.lengthUnit })
    (others : ∀ o', o'.unitOfLength = o.unitOfLength → o'.unitOfSpeed = o.unitOfSpeed →
      o'.blockInterval = o.blockInterval → P o') :
    Ensures P (update c o) := by
  unfold update
  split
  case h_1 =>
    split_ifs with hnone
    · exact ensures_fail _
    · have arguments : c.arguments ≠ [] := by
        rintro hnil
        simp [hnil] at hnone
      exact Ensures.bind (Q := fun factors => (readFactors c).value? = some factors)
        (fun _ h => h) fun factors read => ensures_pure (units factors arguments read)
  case h_2 name =>
    refine Ensures.bind (Q := fun x => (c.number 0 1 "FactorInKmph").value? = some x)
      (fun _ h => h) fun x read => ?_
    split_ifs with hx
    · exact ensures_fail _
    · exact ensures_pure (speeds name x read hx)
  case h_3 name =>
    refine Ensures.bind (Q := fun x => (c.number 0 (Scalar.ofNat 25) "Length").value? = some x)
      (fun _ h => h) fun x read => ?_
    dsimp only
    split_ifs with hlength
    · exact ensures_fail _
    · exact ensures_pure (blocks name x read hlength)
  case h_10 => exact ensures_fail _
  all_goals exact ensures_bind fun _ => ensures_pure (others _ rfl rfl rfl)

theorem Options.update_blockInterval (c : Command) {o : Options R} (ho : ¬ o.blockInterval ≤ 0) :
    Ensures (fun o' => ¬ o'.blockInterval ≤ 0) (update c o) :=
  ensures_update (fun _ _ _ => ho) (fun _ _ _ _ => ho) (fun _ _ _ accepted => accepted)
    fun _ _ _ same => same ▸ ho

/-- What every option command keeps holds of options that are read ahead. -/
theorem Options.readAhead_induction {P : Options R → Prop} (first : P initial)
    (step : ∀ c o, P o → Ensures P (update c o)) (dialect : Dialect)
    (es : List Source.Expression) : P (readAhead (R := R) dialect es).options := by
  have key : ∀ r : Reading R, P r.options → P (es.foldl (readOne dialect) r).options := by
    induction es with
    | nil => exact fun _ hr => hr
    | cons e es ih =>
      intro r hr
      refine ih _ ?_
      unfold readOne
      dsimp only
      split
      · split_ifs
        · cases hu : (update _ r.options).value? with
          | none => exact hr
          | some o => exact step _ _ hr o hu
        · exact hr
      · exact hr
  exact key _ first

theorem Options.blockInterval_readAhead [OrderedScalar R] (dialect : Dialect)
    (es : List Source.Expression) :
    ¬ (readAhead (R := R) dialect es).options.blockInterval ≤ 0 :=
  readAhead_induction (OrderedScalar.not_ofNat_succ_le_zero 24)
    (fun c _ ho => update_blockInterval c ho) dialect es

/-! ## The unit of length -/

/-- Whether factors of the unit of length have a last one, which is positive. -/
def EndsPositive (factors : List R) : Prop := ∃ f, factors.getLast? = some f ∧ 0 < f

namespace Options

theorem readFactor_pos (c : Command) (default : R) (i : Nat) (a : String) :
    Ensures (fun f => f = default ∨ 0 < f) (readFactor c default i a) := by
  unfold readFactor
  dsimp only
  split
  · split_ifs with hf
    · exact ensures_pure (Or.inr hf)
    · exact ensures_bind fun _ => ensures_pure (Or.inl rfl)
  · split_ifs
    · exact ensures_pure (Or.inl rfl)
    · exact ensures_bind fun _ => ensures_pure (Or.inl rfl)

/-- Each factor is positive, or its default takes its place. -/
theorem ensures_readFactors (c : Command) : Ensures (List.Forall₂ (fun a f =>
    f = (if a.2 = c.arguments.length - 1 then 1 else 0) ∨ (0 : R) < f) c.arguments.zipIdx)
      (readFactors c) := by
  have each (a : String × Nat) := readFactor_pos (R := R) c
    (if a.2 = c.arguments.length - 1 then 1 else 0) a.2 a.1
  exact ensures_mapM each c.arguments.zipIdx

/-- The last factor that is written is positive, or 1 takes its place. -/
theorem readFactors_endsPositive (one : (0 : R) < 1) {c : Command} (ne : c.arguments ≠ []) :
    Ensures (EndsPositive (R := R)) (readFactors c) := by
  intro factors hfactors
  have each := ensures_readFactors c factors hfactors
  have size := each.length_eq
  have pos := List.length_pos_iff.2 ne
  rw [List.length_zipIdx] at size
  have last : c.arguments.length - 1 < factors.length := by omega
  refine ⟨factors[c.arguments.length - 1], ?_, ?_⟩
  · rw [List.getLast?_eq_getElem?, ← size, List.getElem?_eq_getElem last]
  · have lastArgument : c.arguments.length - 1 < c.arguments.zipIdx.length := by
      rw [List.length_zipIdx]
      omega
    rcases each.get lastArgument last with h | h
    · have default : factors[c.arguments.length - 1] = 1 := h.trans (if_pos (by simp))
      rwa [default]
    · exact h

variable {R : Type} [ExactScalar R]

theorem update_unitOfLength (c : Command) {o : Options R} (ho : EndsPositive o.unitOfLength) :
    Ensures (fun o' => EndsPositive o'.unitOfLength) (update c o) :=
  ensures_update (fun factors arguments => readFactors_endsPositive one_pos arguments factors)
    (fun _ _ _ _ => ho) (fun _ _ _ _ => ho) fun _ same _ _ => same ▸ ho

theorem endsPositive_initial : EndsPositive (initial : Options R).unitOfLength :=
  ⟨1, rfl, one_pos⟩

theorem unitOfLength_readAhead (dialect : Dialect) (es : List Source.Expression) :
    EndsPositive (readAhead (R := R) dialect es).options.unitOfLength :=
  readAhead_induction endsPositive_initial (fun c _ ho => update_unitOfLength c ho) dialect es

end Options

/-! ## The tables -/

theorem Tables.Part.ofRoot?_eq_info_iff (root : String) :
    ofRoot? root = some .info ↔ root = "route" := by
  unfold ofRoot?
  split_ifs <;> simp_all

theorem Tables.update_options (assets : Assets) (folders : Folders) (part : Part) (c : Command)
    (t : Tables R) :
    Ensures (fun t' => t'.options = t.options) (t.update assets folders part c) := by
  unfold update
  cases part <;> exact ensures_bind fun _ => ensures_pure rfl

namespace Compile

theorem ofRoot?_of_targetPart? {preview : Bool} {c : Command} {part : Tables.Part}
    (h : targetPart? preview c = some part) : Tables.Part.ofRoot? c.root = some part := by
  unfold targetPart? at h
  split at h
  · rename_i info
    rwa [info]
  · split_ifs at h
    exact h

theorem gatherOne_options (job : Job) (g : Gathering R) (e : Source.Expression) :
    (gatherOne job g e).1.tables.options = g.tables.options := by
  unfold gatherOne
  dsimp only
  split
  · rfl
  · split
    · rfl
    · rename_i part _
      cases hu : (g.tables.update job.host.assets job.folders part _).value? with
      | none => rfl
      | some t => exact Tables.update_options _ _ _ _ _ t hu
  · rfl

theorem foldl_gatherOne_options (job : Job) (es : List Source.Expression) (g : Gathering R) :
    (es.foldl (fun g e => (gatherOne job g e).1) g).tables.options = g.tables.options := by
  induction es generalizing g with
  | nil => rfl
  | cons e es ih => exact (ih _).trans (gatherOne_options job g e)

/-! ## The whole pass -/

/-- What the first pass makes of expressions if the host does not stop it. -/
def gathered (job : Job) (tables : Tables R) (es : List Source.Expression) : Gathering R :=
  let structures := if job.settings.preview then tables.structures
    else tables.structures.withDefaultPoles job.host.assets job.folders
  es.foldl (fun g e => (gatherOne job g e).1) ⟨{ tables with structures }, Scope.initial, #[]⟩

theorem eq_of_gatherFrom {job : Job} {count j : Nat} {es : List Source.Expression}
    {g g' : Gathering R} {log : CallLog R} (h : (gatherFrom job count j es g log).1 = some g') :
    g' = es.foldl (fun g e => (gatherOne job g e).1) g := by
  induction es generalizing j g log with
  | nil => exact (Option.some.inj h).symm
  | cons e es ih =>
    unfold gatherFrom at h
    dsimp only at h
    split_ifs at h
    exact ih h

/-- Only the host keeps the first pass from a result. -/
theorem eq_of_gather {job : Job} {tables : Tables R} {es : List Source.Expression}
    {g : Gathering R} {log : CallLog R} (h : (gather job tables es log).1 = some g) :
    g = gathered job tables es := eq_of_gatherFrom h

/-- The block length that a line is laid with is not zero or negative. -/
theorem blockInterval_gathered [OrderedScalar R] (job : Job) (dialect : Dialect)
    (es es' : List Source.Expression) :
    ¬ (gathered (R := R) job (startTables job.settings (Options.readAhead dialect es).options)
      es').tables.options.blockInterval ≤ 0 := by
  rw [gathered, foldl_gatherOne_options]
  exact Options.blockInterval_readAhead dialect es

theorem gatherFrom_eq_some {job : Job} (h : job.host.cancelAt = none) (count j : Nat)
    (es : List Source.Expression) (g : Gathering R) (log : CallLog R) :
    (gatherFrom job count j es g log).1 =
      some (es.foldl (fun g e => (gatherOne job g e).1) g) := by
  induction es generalizing j g log with
  | nil => rfl
  | cons e es ih =>
    unfold gatherFrom
    simp [stopsAt, Host.hasCancelled, h, ih]

theorem gather_eq_some {job : Job} (h : job.host.cancelAt = none) (tables : Tables R)
    (es : List Source.Expression) (log : CallLog R) :
    (gather job tables es log).1 = some (gathered job tables es) := gatherFrom_eq_some h ..

end Compile

end RailRoute
