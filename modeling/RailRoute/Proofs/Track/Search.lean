import Mathlib
import RailRoute.Proofs.Comparison
import RailRoute.Proofs.Track.Crossing

/-!
# Where a search ends

A move looks for the element of its target from the element the follower was last found in, first
back and then forward. Wherever it begins, it ends in the last element that does not start behind
the target, or in the first element if they all do. So the pose that a move leaves depends on the
target alone. All this needs of the arithmetic is the comparison of numbers. Main statement:
`pose_of_position`.
-/

namespace RailRoute

open ComparableScalar

variable {R : Type} [Scalar R]

namespace Track

/-- Whether no element starts before an earlier one. -/
def Ascends (t : Track R) : Prop :=
  ∀ i j : Nat, i < j → j < t.elements.size → Follower.startOf t i ≤ Follower.startOf t j

/-- The elements that do not start behind a position. -/
def upTo (t : Track R) (x : R) : Set Nat :=
  {i | i < t.elements.size ∧ Follower.startOf t i ≤ x}

theorem SameLayout.ascends {t t' : Track R} (h : t.SameLayout t') (ascends : t.Ascends) :
    t'.Ascends := by
  have layouts : t.elements.map Element.layout = t'.elements.map Element.layout :=
    Array.ext_getElem? fun i => by simpa using h i
  have size : t.elements.size = t'.elements.size := by simpa using congrArg Array.size layouts
  intro i j hij hj
  rw [← Follower.startOf_congr h, ← Follower.startOf_congr h]
  exact ascends i j hij (by omega)

variable [ComparableScalar R] {t : Track R} {x : R}

theorem Ascends.not_le (h : t.Ascends) (off : ¬ Follower.startOf t 0 ≤ x) {i : Nat}
    (hi : i < t.elements.size) : ¬ Follower.startOf t i ≤ x := by
  intro hle
  rcases Nat.eq_zero_or_pos i with rfl | hpos
  · exact off hle
  · exact off (le_trans (h 0 i hpos hi) hle)

theorem Ascends.isGreatest_upTo (h : t.Ascends) {k : Nat} (hk : k ∈ t.upTo x)
    (behind : k + 1 < t.elements.size → x < Follower.startOf t (k + 1)) :
    IsGreatest (t.upTo x) k := by
  refine ⟨hk, fun m ⟨hm, hle⟩ => ?_⟩
  by_contra! hlt
  have next : x < Follower.startOf t (k + 1) := behind (by omega)
  rcases (show k + 1 ≤ m by omega).eq_or_lt with rfl | hlt
  · exact (lt_iff.1 next).2 hle
  · exact (lt_iff.1 next).2 (le_trans (h (k + 1) m hlt hm) hle)

end Track

namespace Follower

variable {t : Track R} {target : R}

/-! ## Both ways -/

theorem planBackward_off (source : R) {i : Nat} (off : ∀ m ≤ i, ¬ startOf t m ≤ target) :
    planBackward t source target i =
      (0, (List.range (i + 1)).reverse.map (visitBackward t source)) := by
  induction i with
  | zero => simp [planBackward, off 0 le_rfl]
  | succ i ih =>
    have hrest := ih fun m hm => off m (Nat.le_succ_of_le hm)
    rw [List.range_succ, List.reverse_append]
    simp [planBackward, off (i + 1) le_rfl, hrest]

theorem planForward_stay (source : R) {i : Nat} (fuel : Nat)
    (behind : i + 1 < t.elements.size → target < startOf t (i + 1)) :
    planForward t source target fuel i = (i, []) := by
  cases fuel with
  | zero => rfl
  | succ fuel =>
    cases hnext : t.nextStart? i with
    | none => simp [planForward, hnext]
    | some next =>
      obtain ⟨rfl, hi⟩ := nextStart?_eq_some hnext
      simp [planForward, hnext, behind hi]

/-- Where the way forward ends does not depend on where the follower comes from. -/
theorem planForward_fst (source source' : R) (fuel i : Nat) :
    (planForward t source target fuel i).1 = (planForward t source' target fuel i).1 := by
  induction fuel generalizing i with
  | zero => rfl
  | succ fuel ih =>
    unfold planForward
    cases t.nextStart? i with
    | none => rfl
    | some next =>
      dsimp only
      split_ifs
      · rfl
      · exact ih (i + 1)

theorem planBackward_le (source target : R) (i : Nat) :
    (planBackward t source target i).1 ≤ i := by
  induction i with
  | zero => exact le_rfl
  | succ i ih =>
    unfold planBackward
    split_ifs
    · exact le_rfl
    · exact Nat.le_succ_of_le ih

theorem planForward_lt (source target : R) (fuel : Nat) {i : Nat} (hi : i < t.elements.size) :
    (planForward t source target fuel i).1 < t.elements.size := by
  induction fuel generalizing i with
  | zero => exact hi
  | succ fuel ih =>
    unfold planForward
    cases hnext : t.nextStart? i with
    | none => exact hi
    | some next =>
      obtain ⟨-, hi'⟩ := nextStart?_eq_some hnext
      dsimp only
      split_ifs
      · exact hi
      · exact ih hi'

theorem plan_lt (nonempty : 0 < t.elements.size) (element : Nat) (source target : R) :
    (plan t element source target).1 < t.elements.size :=
  planForward_lt _ _ _ ((planBackward_le _ _ _).trans_lt (by omega))

/-! ## Plans -/

variable [ComparableScalar R]

/-- The way to a target that is not off the front of the track: back to element `j` and forward to
element `k`, where one of the two ways is empty. -/
theorem exists_plan_of_reach (ascends : t.Ascends) (nonempty : 0 < t.elements.size)
    (reach : startOf t 0 ≤ target) (element : Nat) (source : R) :
    let i := min element (t.elements.size - 1)
    ∃ j k, j ≤ k ∧ (j = i ∨ j < i ∧ k = j) ∧ IsGreatest (t.upTo target) k ∧
      plan t element source target =
        (k, (List.range' (j + 1) (i - j)).reverse.map (visitBackward t source) ++
          (List.range' j (k - j)).map (fun m => visitForward t source (startOf t (m + 1)) m) ++
          [lastVisit t source target k]) := by
  intro i
  have number := (beq_self_of_le reach).2
  obtain ⟨j, hj, hstart, hleft, hback⟩ := planBackward_eq source reach i
  obtain ⟨k, hk, hks, hkstart, hbehind, hforth⟩ :=
    planForward_eq source (t.elements.size - j) (by omega) (show j < t.elements.size by omega)
      fun h => (lt_iff.1 h).2 hstart
  have hkle : startOf t k ≤ target := by
    rcases hk.eq_or_lt with rfl | hlt
    · exact hstart
    · exact le_of_not_lt number (beq_self_of_le (ascends j k hlt hks)).2 hkstart
  refine ⟨j, k, hk, ?_, ascends.isGreatest_upTo ⟨hks, hkle⟩ hbehind, ?_⟩
  · -- What was left backwards starts behind the target, and so does all that follows it.
    rcases hj.eq_or_lt with heq | hlt
    · exact Or.inl heq
    · refine Or.inr ⟨hlt, ?_⟩
      by_contra hne
      have left := hleft (j + 1) (by omega) (by omega)
      rcases (show j + 1 ≤ k by omega).eq_or_lt with rfl | hlt
      · exact left hkle
      · exact left (le_trans (ascends (j + 1) k hlt hks) hkle)
  · simp only [plan, show min element (t.elements.size - 1) = i from rfl, hback, hforth]
    rfl

theorem planBackward_of_off (ascends : t.Ascends) (off : ¬ startOf t 0 ≤ target) (element : Nat)
    (source : R) :
    planBackward t source target (min element (t.elements.size - 1)) =
      (0, (List.range (min element (t.elements.size - 1) + 1)).reverse.map
        (visitBackward t source)) := by
  refine planBackward_off source fun m hm => ?_
  rcases Nat.eq_zero_or_pos m with rfl | hpos
  · exact off
  · exact ascends.not_le off (by omega)

/-- The way to a target off the front of the track leaves every element up to the first, and the
first one too. -/
theorem plan_of_lt (ascends : t.Ascends) (off : target < startOf t 0) (element : Nat)
    (source : R) :
    plan t element source target =
      (0, (List.range (min element (t.elements.size - 1) + 1)).reverse.map
        (visitBackward t source) ++ [lastVisit t source target 0]) := by
  have stay := planForward_stay source (t.elements.size - 0) fun hsize =>
    lt_of_lt_of_le off (ascends 0 1 Nat.one_pos hsize)
  simp only [plan, planBackward_of_off ascends (lt_iff.1 off).2, stay, List.append_nil]
  rfl

/-- Where a move ends does not depend on where the follower comes from, not even if the target is
not a number. -/
theorem plan_fst (ascends : t.Ascends) (nonempty : 0 < t.elements.size) (element element' : Nat)
    (source source' : R) :
    (plan t element source target).1 = (plan t element' source' target).1 := by
  by_cases reach : startOf t 0 ≤ target
  · obtain ⟨j, k, -, -, greatest, hplan⟩ :=
      exists_plan_of_reach ascends nonempty reach element source
    obtain ⟨j', k', -, -, greatest', hplan'⟩ :=
      exists_plan_of_reach ascends nonempty reach element' source'
    rw [hplan, hplan']
    exact greatest.unique greatest'
  · simp only [plan, planBackward_of_off ascends reach]
    exact planForward_fst source source' _ 0

/-! ## The pose -/

omit [ComparableScalar R] in
/-- With the frame computed anew, nothing of the old pose is kept. -/
theorem place_eq (f g : Follower R) (irregular : Bool) (i : Nat) (e : Element R)
    (next? : Option (Element R)) (x : R) :
    f.place ⟨true, irregular⟩ i e next? x =
      { g.place ⟨true, irregular⟩ i e next? x with crosser := f.crosser } := by
  unfold place
  cases irregular <;> rfl

omit [ComparableScalar R] in
theorem follower_moveTo {f : Follower R} {mode : MoveMode} {i : Nat} {e : Element R}
    (hplan : (plan t f.element f.position target).1 = i) (he : t.elements[i]? = some e) :
    (f.moveTo t mode target).follower = f.place mode i e t.elements[i + 1]? target := by
  simp only [moveTo, hplan, he]

/-- On a track that is not empty, whose elements start in their order, followers in any state are
taken to a target in one and the same pose, apart from who they are. The element is the last one
that does not start behind the target, or the first one if the target lies before its start. -/
theorem pose_of_position (nonempty : 0 < t.elements.size) (ascends : t.Ascends)
    (f g : Follower R) (irregular : Bool) (target : R) :
    let pose (h : Follower R) := (h.moveTo t ⟨true, irregular⟩ target).follower
    pose f = { pose g with crosser := f.crosser } ∧
      (startOf t 0 ≤ target → IsGreatest (t.upTo target) (pose f).element) ∧
      (target < startOf t 0 → (pose f).element = 0) := by
  intro pose
  have hi : (plan t f.element f.position target).1 < t.elements.size := plan_lt nonempty ..
  have here := Array.getElem?_eq_getElem hi
  have hf : pose f = f.place _ _ _ _ target := follower_moveTo rfl here
  have hg : pose g = g.place _ _ _ _ target :=
    follower_moveTo (plan_fst ascends nonempty ..) here
  rw [hf, hg, place_element]
  refine ⟨place_eq .., fun reach => ?_, fun off => ?_⟩
  · obtain ⟨j, k, -, -, greatest, hplan⟩ :=
      exists_plan_of_reach ascends nonempty reach f.element f.position
    rwa [hplan]
  · rw [plan_of_lt ascends off]

omit [ComparableScalar R] in
theorem ascends_of_wellFormed {R : Type} [ExactScalar R] {t : Track R} (wf : t.WellFormed) :
    t.Ascends :=
  fun _ _ hij hj => (startOf_lt_startOf wf hij hj).le

/-- A follower that is lost behind the end of the track and a fresh one are both taken to the second
element, and there to the same pose. -/
theorem pose_of_position_markedTrack :
    let lost : Follower ℚ := { initial ⟨.camera, none⟩ with element := 7, position := 80 }
    let fresh : Follower ℚ := initial ⟨.frontCarFrontAxle, none⟩
    let pose (h : Follower ℚ) := (h.moveTo markedTrack ⟨true, false⟩ 30).follower
    0 < markedTrack.elements.size ∧ markedTrack.Ascends ∧
      pose lost = { pose fresh with crosser := ⟨.camera, none⟩ } ∧
      (pose lost).element = 1 ∧ IsGreatest (markedTrack.upTo 30) 1 := by
  intro lost fresh pose
  have nonempty : 0 < markedTrack.elements.size := by decide
  have ascends := ascends_of_wellFormed wellFormed_markedTrack
  obtain ⟨same, greatest, -⟩ := pose_of_position nonempty ascends lost fresh false 30
  have element : (pose lost).element = 1 := by decide
  exact ⟨nonempty, ascends, same, element, element ▸ greatest (by decide)⟩

end Follower

end RailRoute
