import Mathlib
import RailRoute.Proofs.Track.Repetition
import RailRoute.Proofs.Track.Shape

/-!
# Cant along the track

Between the starts of two elements the cant follows a cubic curve that has the cants and the slopes
of both elements at its ends. All elements have one length, so the curves on both sides of a start
meet there with one slope. Main statement: `smooth_cantAt`.
-/

namespace RailRoute

open Filter Set Topology

/-! ## Curves -/

section Curves

variable {R : Type} [ExactScalar R] (t c₀ m₀ c₁ m₁ : R)

theorem hermite_eq : hermite t c₀ m₀ c₁ m₁ =
    c₀ + t * (m₀ + t * (3 * (c₁ - c₀) - 2 * m₀ - m₁ + t * (2 * (c₀ - c₁) + m₀ + m₁))) := by
  simp only [hermite, ExactScalar.two_eq, ExactScalar.ofNat_eq]
  push_cast
  ring

theorem hermite_zero : hermite 0 c₀ m₀ c₁ m₁ = c₀ := by
  simp [hermite_eq]

/-- Seen from its other end, the curve has its slopes reversed. -/
theorem hermite_one_sub : hermite (1 - t) c₀ m₀ c₁ m₁ = hermite t c₁ (-m₁) c₀ (-m₀) := by
  rw [hermite_eq, hermite_eq]
  ring

theorem hermite_one : hermite 1 c₀ m₀ c₁ m₁ = c₁ := by
  rw [← sub_zero 1, hermite_one_sub, hermite_zero]

/-- Whether a function follows the curve with the given ends between two positions. -/
def Blends (g : R → R) (s s' c₀ m₀ c₁ m₁ : R) : Prop :=
  ∀ x ∈ Icc s s', g x = hermite ((x - s) / (s' - s)) c₀ m₀ c₁ m₁

end Curves

namespace Blends

variable {R : Type} [ExactScalar R] [TopologicalSpace R] [OrderTopology R] {g : R → R}
  {s s' c₀ m₀ c₁ m₁ : R} (h : Blends g s s' c₀ m₀ c₁ m₁)

include h

theorem continuousOn : ContinuousOn g (Icc s s') := by
  refine ContinuousOn.congr (Continuous.continuousOn ?_) h
  simp only [hermite_eq]
  fun_prop

/-- The curve sets out with its first slope. -/
theorem tendsto_slope_right (hs : s < s') :
    Tendsto (slope g s) (𝓝[>] s) (𝓝 (m₀ / (s' - s))) := by
  let u x := (x - s) / (s' - s)
  let chord x :=
    (m₀ + u x * (3 * (c₁ - c₀) - 2 * m₀ - m₁ + u x * (2 * (c₀ - c₁) + m₀ + m₁))) / (s' - s)
  have width : s' - s ≠ 0 := sub_ne_zero.2 hs.ne'
  have start : g s = c₀ := by
    rw [h s ⟨le_rfl, hs.le⟩, sub_self, zero_div, hermite_zero]
  have same : chord =ᶠ[𝓝[>] s] slope g s := by
    filter_upwards [Ioc_mem_nhdsGT hs] with x hx
    have ahead : x - s ≠ 0 := sub_ne_zero.2 hx.1.ne'
    rw [slope_def_field, start, h x ⟨hx.1.le, hx.2⟩, hermite_eq]
    simp only [chord, u]
    field_simp
    ring
  have limit : chord s = m₀ / (s' - s) := by simp [chord, u]
  have continuous : Continuous chord := by fun_prop
  rw [← limit]
  exact ((continuous.tendsto s).mono_left nhdsWithin_le_nhds).congr' same

/-- The curve arrives with its last slope. -/
theorem tendsto_slope_left (hs : s < s') :
    Tendsto (slope g s') (𝓝[<] s') (𝓝 (m₁ / (s' - s))) := by
  -- Reflected, the curve sets out where it arrives.
  have width : s' - s ≠ 0 := sub_ne_zero.2 hs.ne'
  have reflected : Blends (fun y => g (s + s' - y)) s s' c₁ (-m₁) c₀ (-m₀) := by
    intro y hy
    have inside : s + s' - y ∈ Icc s s' := ⟨by linarith [hy.2], by linarith [hy.1]⟩
    have rest : (s + s' - y - s) / (s' - s) = 1 - (y - s) / (s' - s) := by
      field_simp
      ring
    show g (s + s' - y) = _
    rw [h _ inside, rest, hermite_one_sub]
  have turned : Tendsto (fun x => s + s' - x) (𝓝[<] s') (𝓝[>] s) := by
    refine tendsto_nhdsWithin_iff.2 ⟨?_, ?_⟩
    · have limit : s + s' - s' = s := add_sub_cancel_right s s'
      have continuous : Continuous fun x => s + s' - x := by fun_prop
      exact (limit ▸ continuous.tendsto s').mono_left nhdsWithin_le_nhds
    · filter_upwards [self_mem_nhdsWithin] with x hx
      exact show s < s + s' - x by linarith [show x < s' from hx]
  have same : ∀ x, -slope (fun y => g (s + s' - y)) s (s + s' - x) = slope g s' x := by
    intro x
    simp only [slope_def_field, sub_sub_cancel, add_sub_cancel_left]
    rw [show s + s' - x - s = -(x - s') by ring, div_neg, neg_neg]
  have limit := ((reflected.tendsto_slope_right hs).comp turned).neg
  rw [neg_div, neg_neg] at limit
  exact limit.congr same

end Blends

/-! ## The cant of a follower -/

namespace Track

variable {R : Type} [ExactScalar R] {t : Track R} {x : R}

/-- Whether each element starts behind the ones before it. -/
def Advances (t : Track R) : Prop :=
  ∀ i j : Nat, i < j → j < t.elements.size → Follower.startOf t i < Follower.startOf t j

theorem Advances.ascends (h : t.Advances) : t.Ascends := fun i j hij hj => (h i j hij hj).le

theorem Advances.start_lt_start (h : t.Advances) {i : Nat} {e next : Element R}
    (he : t.elements[i]? = some e) (hnext : t.elements[i + 1]? = some next) :
    e.start < next.start := by
  obtain ⟨hi, -⟩ := Array.getElem?_eq_some_iff.1 hnext
  rw [← Follower.startOf_eq he, ← Follower.startOf_eq hnext]
  exact h i (i + 1) (Nat.lt_succ_self i) hi

theorem Advances.isGreatest_upTo (h : t.Advances) {i : Nat} {e : Element R}
    (he : t.elements[i]? = some e) (reached : e.start ≤ x)
    (behind : ∀ next, t.elements[i + 1]? = some next → x < next.start) :
    IsGreatest (t.upTo x) i := by
  obtain ⟨hi, -⟩ := Array.getElem?_eq_some_iff.1 he
  refine h.ascends.isGreatest_upTo ⟨hi, by rwa [Follower.startOf_eq he]⟩ fun hnext => ?_
  rw [Follower.startOf_eq (Array.getElem?_eq_getElem hnext)]
  exact behind _ (Array.getElem?_eq_getElem hnext)

/-- A position that is not before the start of the track has a last element that does not start
behind it. -/
theorem Advances.exists_isGreatest_upTo (h : t.Advances) (nonempty : 0 < t.elements.size)
    (reach : Follower.startOf t 0 ≤ x) : ∃ i, IsGreatest (t.upTo x) i := by
  obtain ⟨-, k, -, -, greatest, -⟩ := Follower.exists_plan_of_reach h.ascends nonempty reach 0 x
  exact ⟨k, greatest⟩

end Track

namespace Follower

/-- The cant of a follower that is taken to a position, without irregularity. -/
def cantAt {R : Type} [Scalar R] (f : Follower R) (t : Track R) (updatesFrame : Bool) (x : R) : R :=
  (f.moveTo t ⟨updatesFrame, false⟩ x).follower.cant

section Cants

variable {R : Type} [ExactScalar R] {t : Track R} {x : R}

variable (f : Follower R) (updatesFrame : Bool)

theorem covered_some (e next : Element R) (offset : R) :
    covered e (some next) offset = min (max (offset / (next.start - e.start)) 0) 1 := by
  rw [covered, ExactScalar.min_eq, ExactScalar.max_eq]

/-- At the start of an element or before it, its own cant is in force. -/
theorem smoothCant_covered_of_le {e : Element R} {next? : Option (Element R)}
    (hnext : ∀ next ∈ next?, e.start < next.start) {offset : R} (h : offset ≤ 0) :
    smoothCant e next? (covered e next? offset) = e.cant := by
  cases next? with
  | none => rfl
  | some next =>
    have width : 0 ≤ next.start - e.start := (sub_pos.2 (hnext next rfl)).le
    have none : covered e (some next) offset = 0 := by
      rw [covered_some, max_eq_right (div_nonpos_of_nonpos_of_nonneg h width),
        min_eq_left zero_le_one]
    rw [none]
    exact hermite_zero ..

theorem cantAt_of_plan {i : Nat} {e : Element R}
    (hplan : (plan t f.element f.position x).1 = i) (he : t.elements[i]? = some e) :
    f.cantAt t updatesFrame x =
      smoothCant e t.elements[i + 1]? (covered e t.elements[i + 1]? (x - e.start)) := by
  rw [cantAt, follower_moveTo hplan he]
  rfl

variable (advances : t.Advances)

include advances

theorem cantAt_of_isGreatest {i : Nat} {e : Element R} (greatest : IsGreatest (t.upTo x) i)
    (he : t.elements[i]? = some e) : f.cantAt t updatesFrame x =
      smoothCant e t.elements[i + 1]? (covered e t.elements[i + 1]? (x - e.start)) := by
  have reach : startOf t 0 ≤ x := by
    rcases Nat.eq_zero_or_pos i with rfl | hi
    · exact greatest.1.2
    · exact (advances 0 i hi greatest.1.1).le.trans greatest.1.2
  obtain ⟨_, k, -, -, greatest', hplan⟩ := exists_plan_of_reach advances.ascends
    (Nat.zero_lt_of_lt greatest.1.1) reach f.element f.position
  have hk : k = i := greatest'.unique greatest
  exact f.cantAt_of_plan updatesFrame ((congrArg Prod.fst hplan).trans hk) he

theorem cantAt_start {i : Nat} {e : Element R} (he : t.elements[i]? = some e) :
    f.cantAt t updatesFrame e.start = e.cant := by
  have greatest := advances.isGreatest_upTo he le_rfl fun next hnext =>
    advances.start_lt_start he hnext
  rw [f.cantAt_of_isGreatest updatesFrame advances greatest he]
  exact smoothCant_covered_of_le (fun next hnext => advances.start_lt_start he hnext)
    (sub_self _).le

/-- Before the start of the track, the cant of the first element is in force. -/
theorem cantAt_before {e : Element R} (he : t.elements[0]? = some e) (h : x ≤ e.start) :
    f.cantAt t updatesFrame x = e.cant := by
  rcases h.eq_or_lt with rfl | h
  · exact f.cantAt_start updatesFrame advances he
  · have off : x < startOf t 0 := by rwa [startOf_eq he]
    have hplan := plan_of_lt advances.ascends off f.element f.position
    rw [f.cantAt_of_plan updatesFrame (congrArg Prod.fst hplan) he]
    exact smoothCant_covered_of_le (fun next hnext => advances.start_lt_start he hnext)
      (sub_nonpos.2 h.le)

/-- From the start of the last element on, its cant is in force. -/
theorem cantAt_behind {i : Nat} {e : Element R} (he : t.elements[i]? = some e)
    (last : t.elements[i + 1]? = none) (h : e.start ≤ x) :
    f.cantAt t updatesFrame x = e.cant := by
  have greatest := advances.isGreatest_upTo he h fun next hnext => by simp [last] at hnext
  rw [f.cantAt_of_isGreatest updatesFrame advances greatest he, last]
  rfl

/-- From the start of an element to that of the next, the cant follows a curve. -/
theorem blends_cantAt {i : Nat} {e next : Element R} (he : t.elements[i]? = some e)
    (hnext : t.elements[i + 1]? = some next) : Blends (f.cantAt t updatesFrame) e.start next.start
      e.cant e.cantTangent next.cant next.cantTangent := by
  rintro x ⟨hstart, hend⟩
  have width : 0 < next.start - e.start := sub_pos.2 (advances.start_lt_start he hnext)
  rcases hend.eq_or_lt with rfl | hend
  · rw [f.cantAt_start updatesFrame advances hnext, div_self width.ne', hermite_one]
  · have greatest := advances.isGreatest_upTo he hstart fun next' hnext' => by
      obtain rfl := Option.some.inj (hnext.symm.trans hnext')
      exact hend
    have within : covered e (some next) (x - e.start) =
        (x - e.start) / (next.start - e.start) := by
      have nonneg : 0 ≤ (x - e.start) / (next.start - e.start) :=
        div_nonneg (sub_nonneg.2 hstart) width.le
      have le_one : (x - e.start) / (next.start - e.start) ≤ 1 :=
        (div_le_one width).2 (by linarith)
      rw [covered_some, max_eq_left nonneg, min_eq_left le_one]
    rw [f.cantAt_of_isGreatest updatesFrame advances greatest he, hnext, within]
    rfl

/-! ## Continuity -/

variable [TopologicalSpace R] [OrderTopology R]

/-- The positions from one start to the next. Number 0 lies before the first start, and number `i`
reaches back to element `i - 1`. -/
def cell (t : Track R) (i : Nat) : Set R :=
  (⋂ _ : 0 < i, Ici (startOf t (i - 1))) ∩ ⋂ _ : i < t.elements.size, Iic (startOf t i)

theorem continuousOn_cell {i : Nat} (nonempty : 0 < t.elements.size) (hi : i ≤ t.elements.size) :
    ContinuousOn (f.cantAt t updatesFrame) (cell t i) := by
  rcases Nat.eq_zero_or_pos i with rfl | hpos
  · have he := Array.getElem?_eq_getElem nonempty
    refine (continuousOn_const : ContinuousOn (fun _ => t.elements[0].cant) _).congr
      fun x hx => f.cantAt_before updatesFrame advances he ?_
    rw [← startOf_eq he]
    simpa [cell, nonempty] using hx
  obtain ⟨k, rfl⟩ : ∃ k, i = k + 1 := ⟨i - 1, by omega⟩
  have he := Array.getElem?_eq_getElem (show k < t.elements.size by omega)
  rcases hi.lt_or_eq with hnext | hlast
  · have hnext' := Array.getElem?_eq_getElem hnext
    refine (f.blends_cantAt updatesFrame advances he hnext').continuousOn.mono fun x hx => ?_
    rw [← startOf_eq he, ← startOf_eq hnext']
    simpa [cell, hnext] using hx
  · refine (continuousOn_const : ContinuousOn (fun _ => t.elements[k].cant) _).congr
      fun x hx => f.cantAt_behind updatesFrame advances he (Array.getElem?_eq_none hlast.ge) ?_
    rw [← startOf_eq he]
    exact mem_iInter.1 hx.1 hpos

theorem continuous_cantAt : Continuous (f.cantAt t updatesFrame) := by
  rcases Nat.eq_zero_or_pos t.elements.size with empty | nonempty
  · have stays : f.cantAt t updatesFrame = fun _ => f.cant := by
      funext x
      simp only [cantAt, moveTo]
      rw [Array.getElem?_eq_none (by omega)]
    rw [stays]
    exact continuous_const
  · refine (locallyFinite_of_finite fun i : Fin (t.elements.size + 1) => cell t i).continuous
      ?_ ?_ ?_
    · refine iUnion_eq_univ_iff.2 fun x => ?_
      by_cases reach : startOf t 0 ≤ x
      · obtain ⟨k, greatest⟩ := advances.exists_isGreatest_upTo nonempty reach
        refine ⟨⟨k + 1, Nat.succ_lt_succ greatest.1.1⟩, ?_⟩
        have behind : k + 1 < t.elements.size → x ≤ startOf t (k + 1) := fun hk => by
          by_contra! hlt
          exact absurd (greatest.2 ⟨hk, hlt.le⟩) (by omega)
        simpa [cell] using ⟨greatest.1.2, behind⟩
      · exact ⟨0, by simpa [cell] using fun _ => (not_le.1 reach).le⟩
    · exact fun i => (isClosed_iInter fun _ => isClosed_Ici).inter
        (isClosed_iInter fun _ => isClosed_Iic)
    · exact fun i => f.continuousOn_cell updatesFrame advances nonempty (by omega)

end Cants

/-! ## Assembled tracks -/

section Assembled

open Assembly

variable {R : Type} [ExactScalar R] {l : Line R}

theorem advances_assemble (t : Tables R) (hi : 0 < l.interval) :
    (assemble l t).Advances := by
  intro i j hij hj
  rw [size_assemble] at hj
  rw [startOf_assemble l t (hij.trans hj), startOf_assemble l t hj]
  simp only [Line.blockStart, ExactScalar.ofNat_eq]
  exact mul_lt_mul_of_pos_right (Nat.cast_lt.2 hij) hi

/-- An element is as long as a block. -/
theorem start_sub_start {t : Tables R} {i : Nat} {e next : Element R}
    (he : (assemble l t).elements[i]? = some e)
    (hnext : (assemble l t).elements[i + 1]? = some next) : next.start - e.start = l.interval := by
  obtain ⟨-, hstart, -⟩ := eq_of_getElem?_assemble he
  obtain ⟨-, hstart', -⟩ := eq_of_getElem?_assemble hnext
  rw [hstart, hstart', Line.blockStart_succ, add_sub_cancel_left]

/-- On an assembled track, whatever follower is moved there, the cant is a continuous function of
the position. At the start of an element it is the element's own. Between two neighbors an element
gives it one slope on both sides, which belongs to the line through the cants of the neighbors.
From the start of the last element on it does not change. Options set no block length but a positive
one, as `blockInterval_readAhead` has it. -/
theorem smooth_cantAt [TopologicalSpace R] [OrderTopology R] (t : Tables R) (hi : 0 < l.interval)
    (f : Follower R) (updatesFrame : Bool) :
    let track := assemble l t
    let cant := f.cantAt track updatesFrame
    Continuous cant ∧
      (∀ (i : Nat) (e : Element R), track.elements[i]? = some e → cant e.start = e.cant) ∧
      (∀ (i : Nat) (before e next : Element R), track.elements[i]? = some before →
        track.elements[i + 1]? = some e → track.elements[i + 2]? = some next →
          e.cantTangent = (next.cant - before.cant) / 2 ∧
          Tendsto (slope cant e.start) (𝓝[<] e.start) (𝓝 (e.cantTangent / l.interval)) ∧
          Tendsto (slope cant e.start) (𝓝[>] e.start) (𝓝 (e.cantTangent / l.interval))) ∧
      ∀ e, track.elements.back? = some e → ∀ x, e.start ≤ x → cant x = e.cant := by
  intro track cant
  have advances : track.Advances := advances_assemble t hi
  refine ⟨f.continuous_cantAt updatesFrame advances, fun i e he => ?_,
    fun i before e next hbefore he hnext => ⟨?_, ?_, ?_⟩, fun e he x hx => ?_⟩
  · exact f.cantAt_start updatesFrame advances he
  · rw [cantTangent_between hbefore he hnext, Scalar.half, ExactScalar.fixed_eq]
    push_cast
    ring
  · have arrives := (f.blends_cantAt updatesFrame advances hbefore he).tendsto_slope_left
      (advances.start_lt_start hbefore he)
    rwa [start_sub_start hbefore he] at arrives
  · have leaves := (f.blends_cantAt updatesFrame advances he hnext).tendsto_slope_right
      (advances.start_lt_start he hnext)
    rwa [start_sub_start he hnext] at leaves
  · rw [Array.back?_eq_getElem?] at he
    obtain ⟨nonempty, -⟩ := Array.getElem?_eq_some_iff.1 he
    exact f.cantAt_behind updatesFrame advances he (Array.getElem?_eq_none (by omega)) hx

/-- A line of three blocks: straight, to the right and to the left. -/
def reverseCurve : Line ℚ :=
  { Line.initial 25 0 with
    blocks := #[Block.initial 0,
      { Block.initial 0 with curveRadius := 300, curveCant := 1 / 10 },
      { Block.initial 0 with curveRadius := -300, curveCant := 1 / 10 }] }

theorem smooth_cantAt_reverseCurve :
    let cant := (initial (R := ℚ) ⟨.camera, none⟩).cantAt (assemble reverseCurve .initial) false
    0 < reverseCurve.interval ∧ Continuous cant ∧ cant 25 = 1 / 10 ∧
      Tendsto (slope cant 25) (𝓝[<] 25) (𝓝 (-1 / 500)) ∧
      Tendsto (slope cant 25) (𝓝[>] 25) (𝓝 (-1 / 500)) ∧ ∀ x, 50 ≤ x → cant x = -1 / 10 := by
  have cants : (assemble reverseCurve (.initial : Tables ℚ)).elements.map (·.cant) =
      #[0, 1 / 10, -1 / 10] := by
    have signed : reverseCurve.blocks.toList.map
        (signedCant (.initial : Tables ℚ).options.cantBehavior) = [0, 1 / 10, -1 / 10] := by
      with_unfolding_all decide
    rw [map_cant_assemble, laid, map_cant_layElements, signed]
  have element (i : Nat) (c start : ℚ) (hc : #[0, 1 / 10, -1 / 10][i]? = some c)
      (hstart : i * 25 = start) : ∃ e, (assemble reverseCurve .initial).elements[i]? = some e ∧
        e.start = start ∧ e.cant = c := by
    rw [← cants, Array.getElem?_map] at hc
    obtain ⟨e, he, rfl⟩ := Option.map_eq_some_iff.1 hc
    exact ⟨e, he, (eq_of_getElem?_assemble he).2.1.trans hstart, rfl⟩
  obtain ⟨before, hbefore, -, before_cant⟩ := element 0 0 0 rfl (by norm_num)
  obtain ⟨e, he, start, e_cant⟩ := element 1 (1 / 10) 25 rfl (by norm_num)
  obtain ⟨next, hnext, next_start, next_cant⟩ := element 2 (-1 / 10) 50 rfl (by norm_num)
  have interval : 0 < reverseCurve.interval := by decide
  obtain ⟨continuous, own, slopes, last⟩ :=
    smooth_cantAt .initial interval (initial ⟨.camera, none⟩) false
  obtain ⟨tangent, left, right⟩ := slopes 0 before e next hbefore he hnext
  have slope : e.cantTangent / reverseCurve.interval = -1 / 500 := by
    rw [tangent, next_cant, before_cant]
    norm_num [reverseCurve, Line.initial]
  rw [start, slope] at left right
  refine ⟨interval, continuous, ?_, left, right, fun x hx => ?_⟩
  · rw [← start, own 1 e he, e_cant]
  · have final : (assemble reverseCurve (.initial : Tables ℚ)).elements.back? = some next := by
      rw [Array.back?_eq_getElem?, size_assemble]
      exact hnext
    rw [last next final x (next_start ▸ hx), next_cant]

end Assembled

end Follower

end RailRoute
