import Mathlib
import RailRoute.Proofs.Geometry.Heading
import RailRoute.Proofs.Track.Distribution
import RailRoute.Proofs.Track.Shape

/-!
# The frames of an assembled track

While a track is laid, vectors are scaled to length one, which cannot be done with a vector that is
too short. As long as none of them is, that is, as long as no block is too steep, all frames on the
track are those of headings, and so is every frame one gets to from there. Main statements:
`normalizedLaying_iff` and `isOrthonormal_assemble`.
-/

namespace RailRoute

/-! ## Vectors that are normalized -/

namespace Frame

section

variable {R : Type} [Scalar R]

/-- The vectors normalized for the frame of a heading. -/
def normalizedOfHeading (heading : Vec3 R) (pitch : R) : List (Vec3 R) :=
  [⟨heading.x, 0, heading.z⟩, ⟨heading.horizontal.x, pitch, heading.horizontal.z⟩]

/-- The vectors normalized on the way ahead. -/
def normalizedAdvance (f : Frame R) (radius distance : R) : List (Vec3 R) :=
  if distance == 0 then []
  else if radius == 0 then []
  else
    let ahead := f.ahead radius distance
    [⟨f.direction.x, 0, f.direction.z⟩, ⟨ahead.x, f.slope, ahead.z⟩]

/-- The vector normalized for the heading of a frame. -/
def normalizedHeading (f : Frame R) : List (Vec3 R) := [⟨f.direction.x, 0, f.direction.z⟩]

end

open GeometricScalar

variable {R : Type} [GeometricScalar R] {position h : Vec3 R} {p : R}

theorem long_of_normalized (hh : h.IsHeading) {radius distance : R}
    (long : ∀ v ∈ (ofHeading position h p).normalizedAdvance radius distance ++
      ((ofHeading position h p).advance radius distance).normalizedHeading,
      ¬ v.magnitude < Scalar.epsilon) : ¬ runOf p < Scalar.epsilon := by
  set f := ofHeading position h p
  have level : Vec3.magnitude ⟨f.direction.x, 0, f.direction.z⟩ = runOf p :=
    magnitude_level_ofHeading hh
  rw [← level]
  by_cases arc : (distance == 0) = false ∧ (radius == 0) = false
  · refine long _ ?_
    simp [normalizedAdvance, arc]
  · -- On the spot or straight ahead, the direction stays and is normalized for the next heading.
    have same : (f.advance radius distance).direction = f.direction := by
      unfold advance
      split_ifs <;> simp_all [advanceStraight]
    rw [← same]
    exact long _ (by simp [normalizedHeading])

theorem long_normalizedOfHeading (hh : h.IsHeading) (p : R) :
    ∀ v ∈ normalizedOfHeading h p, ¬ v.magnitude < Scalar.epsilon := by
  rw [normalizedOfHeading, hh.horizontal, List.forall_mem_cons, List.forall_mem_singleton,
    hh.magnitude_level]
  exact ⟨epsilon_lt_one.not_gt, hh.long_tilted p⟩

theorem long_normalizedAdvance (hh : h.IsHeading) (long : ¬ runOf p < Scalar.epsilon)
    (radius distance : R) : ∀ v ∈ (ofHeading position h p).normalizedAdvance radius distance,
      ¬ v.magnitude < Scalar.epsilon := by
  unfold normalizedAdvance
  split_ifs
  · exact List.forall_mem_nil _
  · exact List.forall_mem_nil _
  · rw [List.forall_mem_cons, List.forall_mem_singleton, magnitude_level_ofHeading hh,
      slope_ofHeading hh]
    have heads : h = (ofHeading position h p).heading := (heading_ofHeading hh long).symm
    exact ⟨long, (isHeading_ahead (heads ▸ hh) radius distance).long_tilted p⟩

/-- No vector is too short just if the run of the frame is not. -/
theorem normalized_iff (hh : h.IsHeading) (radius distance : R) :
    (∀ v ∈ normalizedOfHeading h p ++ (ofHeading position h p).normalizedAdvance radius distance ++
        ((ofHeading position h p).advance radius distance).normalizedHeading,
      ¬ v.magnitude < Scalar.epsilon) ↔ ¬ runOf p < Scalar.epsilon := by
  rw [List.append_assoc, List.forall_mem_append]
  refine ⟨fun long => long_of_normalized hh long.2, fun long => ?_⟩
  refine ⟨long_normalizedOfHeading hh p, List.forall_mem_append.2 ⟨?_, ?_⟩⟩
  · exact long_normalizedAdvance hh long radius distance
  · obtain ⟨position', h', hh', hnext⟩ :=
      exists_advance_ofHeading position hh long radius distance
    rw [normalizedHeading, List.forall_mem_singleton, hnext, magnitude_level_ofHeading hh']
    exact long

end Frame

/-! ## Laying -/

namespace Assembly

open GeometricScalar Vec3 RailRoute.Frame

/-- The vectors normalized while elements are laid. -/
def normalizedLaying {R : Type} [Scalar R] (interval : R) :
    Vec3 R → Vec3 R → List (Block R) → List (Vec3 R)
  | _, _, [] => []
  | position, heading, b :: rest =>
    let turned := turnHeading b heading
    let frame := Frame.ofHeading position turned b.pitch
    let next := frame.advance b.curveRadius interval
    normalizedOfHeading turned b.pitch ++ frame.normalizedAdvance b.curveRadius interval ++
      next.normalizedHeading ++ normalizedLaying interval next.position next.heading rest

variable {R : Type} [GeometricScalar R] {heading : Vec3 R}

theorem isHeading_turnHeading (b : Block R) (hh : heading.IsHeading) :
    (turnHeading b heading).IsHeading := by
  unfold turnHeading
  split_ifs
  · exact hh
  · exact hh.rotate _

/-- From a block that is not too steep, laying goes on with a heading. -/
theorem isHeading_next (hh : heading.IsHeading) (b : Block R)
    (long : ¬ runOf b.pitch < Scalar.epsilon) (position : Vec3 R) (interval : R) :
    ((Frame.ofHeading position (turnHeading b heading) b.pitch).advance b.curveRadius
      interval).heading.IsHeading := by
  obtain ⟨position', h', hh', hnext⟩ := exists_advance_ofHeading position
    (isHeading_turnHeading b hh) long b.curveRadius interval
  rw [hnext, heading_ofHeading hh' long]
  exact hh'

/-- No vector is too short just if no block is too steep. -/
theorem normalizedLaying_iff (interval : R) (position : Vec3 R) (hh : heading.IsHeading)
    (blocks : List (Block R)) :
    (∀ v ∈ normalizedLaying interval position heading blocks, ¬ v.magnitude < Scalar.epsilon) ↔
      ∀ b ∈ blocks, ¬ runOf b.pitch < Scalar.epsilon := by
  induction blocks generalizing position heading with
  | nil => simp [normalizedLaying]
  | cons b rest ih =>
    rw [normalizedLaying, List.forall_mem_append, normalized_iff (isHeading_turnHeading b hh),
      List.forall_mem_cons]
    exact and_congr_right fun long => ih _ (isHeading_next hh b long position interval)

/-- The frame of every element is that of a heading. -/
theorem exists_frame_eq_ofHeading (behavior : CantBehavior) (interval : R) (i : Nat)
    (position : Vec3 R) (hh : heading.IsHeading) {blocks : List (Block R)}
    (long : ∀ b ∈ blocks, ¬ runOf b.pitch < Scalar.epsilon) :
    ∀ e ∈ layElements behavior interval i position heading blocks,
      ¬ runOf e.pitch < Scalar.epsilon ∧ ∃ position' h' : Vec3 R, h'.IsHeading ∧
        e.frame = Frame.ofHeading position' h' e.pitch := by
  induction blocks generalizing i position heading with
  | nil => exact List.forall_mem_nil _
  | cons b rest ih =>
    obtain ⟨first, others⟩ := List.forall_mem_cons.1 long
    refine List.forall_mem_cons.2 ⟨?_, ?_⟩
    · exact ⟨first, position, turnHeading b heading, isHeading_turnHeading b hh, rfl⟩
    · exact ih _ _ (isHeading_next hh b first position interval) others

/-- Unless a vector that is normalized while the track is laid is too short for that, the directions
of every element are perpendicular unit vectors with a level side that rise by its pitch, and the
same is true wherever one goes from there. -/
theorem isOrthonormal_assemble {l : Line R} (t : Tables R)
    (long : ∀ v ∈ normalizedLaying l.interval .zero .forward l.blocks.toList,
      ¬ v.magnitude < Scalar.epsilon) :
    ∀ e ∈ (assemble l t).elements, e.frame.IsOrthonormal ∧ e.frame.slope = e.pitch ∧
      ∀ radius distance, (e.frame.advance radius distance).IsOrthonormal ∧
        (e.frame.advance radius distance).slope = e.frame.slope := by
  rw [normalizedLaying_iff _ _ isHeading_forward] at long
  intro e he
  obtain ⟨i, hi⟩ := Array.mem_iff_getElem?.1 he
  obtain ⟨d, hd, parts⟩ := exists_laid hi
  obtain ⟨long, position, h, hh, hframe⟩ :=
    exists_frame_eq_ofHeading _ _ _ _ isHeading_forward long d (List.mem_of_getElem? hd)
  have pitch : e.pitch = d.pitch := by rw [parts]
  have frame : e.frame = Frame.ofHeading position h d.pitch := by rw [parts, ← hframe]
  rw [pitch, frame]
  refine ⟨isOrthonormal_ofHeading hh, slope_ofHeading hh, fun radius distance => ?_⟩
  obtain ⟨position', h', hh', hnext⟩ :=
    exists_advance_ofHeading position hh long radius distance
  rw [hnext, slope_ofHeading hh', slope_ofHeading hh]
  exact ⟨isOrthonormal_ofHeading hh', rfl⟩

/-- A line of a level block and a steep curve. -/
noncomputable def steepCurve : Line ℝ :=
  { Line.initial (Scalar.ofNat 25) 0 with
    blocks := #[Block.initial 0,
      { Block.initial 0 with
        turn := Scalar.fixed 1 1
        curveRadius := Scalar.ofNat 300
        pitch := Scalar.fixed 75 2 }] }

theorem isOrthonormal_assemble_steepCurve :
    (∀ v ∈ normalizedLaying steepCurve.interval .zero .forward steepCurve.blocks.toList,
      ¬ v.magnitude < Scalar.epsilon) ∧
    ∃ e, (assemble steepCurve .initial).elements[1]? = some e ∧ e.frame.IsOrthonormal ∧
      ∀ distance, (e.frame.advance 300 distance).IsOrthonormal ∧
        (e.frame.advance 300 distance).slope = 3 / 4 := by
  have level : runOf (0 : ℝ) = 1 := by
    rw [runOf, show (1 : ℝ) + 0 * 0 = 1 * 1 by norm_num, sqrt_mul_self zero_le_one, div_one]
  have rise : (Scalar.fixed 75 2 : ℝ) = 3 / 4 := by
    rw [ExactScalar.fixed_eq]
    norm_num
  have steep : runOf (Scalar.fixed 75 2 : ℝ) = 4 / 5 := by
    rw [runOf, rise, show (1 : ℝ) + 3 / 4 * (3 / 4) = 5 / 4 * (5 / 4) by norm_num,
      sqrt_mul_self (by norm_num)]
    norm_num
  have long : ∀ v ∈ normalizedLaying steepCurve.interval .zero .forward steepCurve.blocks.toList,
      ¬ v.magnitude < Scalar.epsilon := by
    rw [normalizedLaying_iff _ _ isHeading_forward]
    have first : Scalar.epsilon ≤ runOf (Block.initial (0 : ℝ)).pitch := by
      change Scalar.epsilon ≤ runOf (0 : ℝ)
      rw [level]
      exact epsilon_lt_one.le
    have second : Scalar.epsilon ≤ runOf (Scalar.fixed 75 2 : ℝ) := by
      rw [steep, Scalar.epsilon, ExactScalar.ofNat_eq]
      norm_num [Decimal.fractionCount]
    simpa [steepCurve] using ⟨first, second⟩
  have inside : 1 < (assemble steepCurve (.initial : Tables ℝ)).elements.size := by
    rw [size_assemble]
    decide
  have he := Array.getElem?_eq_getElem inside
  obtain ⟨d, hd, parts⟩ := exists_laid he
  have pitch : d.pitch = 3 / 4 := by
    cases hd
    exact rise
  obtain ⟨orthonormal, slope, ahead⟩ :=
    isOrthonormal_assemble .initial long _ (Array.getElem_mem inside)
  refine ⟨long, _, he, orthonormal, fun distance => ⟨(ahead 300 distance).1, ?_⟩⟩
  rw [(ahead 300 distance).2, slope, ← pitch, parts]

end Assembly

end RailRoute
