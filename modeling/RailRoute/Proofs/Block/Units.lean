import Mathlib
import RailRoute.Proofs.Tables.Units

/-!
# Track commands in another unit

A track command asks for the same in every unit of length, if its lengths are written in that unit.
The exception is a default in meters that is multiplied by the unit, which only stops have. Main
statement: `Site.perform_withUnit`.
-/

namespace RailRoute

open Command

/-- The site with another unit of length. -/
def Site.withUnit {R : Type} (u : R) (s : Site R) : Site R :=
  { s with tables := s.tables.withUnit u }

namespace Site

@[simp] theorem laying_withUnit {R : Type} (u : R) (s : Site R) :
    (s.withUnit u).laying = s.laying := rfl

@[simp] theorem lengthUnit_withUnit {R : Type} [Scalar R] (u : R) (s : Site R) :
    (s.withUnit u).tables.options.lengthUnit = u := rfl

theorem readVerb_rail {R : Type} [Scalar R] (s : Site R) (c : Command) : s.readVerb c .rail =
    if isWord ((c.argument? 1).getD "") ["ended"] then s.readRailEnd c true
    else s.readRailStart c false := rfl

variable {R : Type} [ExactScalar R] {u : R} {c c' : Command} (h : c.IsDivided u c') (s : Site R)
  {i : Nat}

include h

/-! ## Arguments that are no lengths -/

section Others

theorem object_withUnit (hi : i ∉ c.lengthPlaces) (kind : StructureKind) (what : String) :
    (s.withUnit u).object c' i kind what = (s.withUnit 1).object c i kind what := by
  unfold object
  simp only [h.natural_eq hi, h.fail_eq]
  rfl

theorem angle_withUnit (hi : i ∉ c.lengthPlaces) (what : String) :
    (s.withUnit u).angle c' i what = (s.withUnit 1).angle c i what := by
  unfold angle
  rw [h.number_eq hi]

theorem runningRail_withUnit (hi : 0 ∉ c.lengthPlaces) :
    (s.withUnit u).runningRail c' = (s.withUnit 1).runningRail c := by
  unfold runningRail
  simp only [h.natural_eq hi, h.fail_eq]
  rfl

theorem otherRail_withUnit (hi : 0 ∉ c.lengthPlaces) :
    (s.withUnit u).otherRail c' = (s.withUnit 1).otherRail c := by
  unfold otherRail
  simp only [h.integer_eq hi, h.fail_eq]

theorem loadFirst_withUnit (hi : 0 ∉ c.lengthPlaces) (kind : AssetKind) (folder : String) :
    (s.withUnit u).loadFirst c' kind folder = (s.withUnit 1).loadFirst c kind folder := by
  unfold loadFirst
  rw [h.argument?_eq_of_notMem hi, h.require_eq, h.qualifiedName_eq]
  rfl

theorem readBeaconObject_withUnit (place : 1 ∉ c.lengthPlaces) :
    (s.withUnit u).readBeaconObject c' = (s.withUnit 1).readBeaconObject c := by
  unfold readBeaconObject
  simp only [h.integer_eq place, object_withUnit h s place]

end Others

/-! ## Lengths -/

section Lengths

variable (hu : u ≠ 0)

include hu

theorem length_withUnit (hi : i ∈ c.lengthPlaces) {default default' : R}
    (states : c.States R i ∨ default' * u = default) (what : String) :
    (s.withUnit u).length c' i default' what = (s.withUnit 1).length c i default what :=
  h.length_eq hu hi states what

/-- Zero is the same distance in every unit. -/
theorem length_zero_withUnit (hi : i ∈ c.lengthPlaces) (what : String) :
    (s.withUnit u).length c' i 0 what = (s.withUnit 1).length c i 0 what :=
  length_withUnit h s hu hi (.inr (zero_mul u)) what

/-- A default that is divided by the unit is the same distance in every unit. -/
theorem length_div_withUnit (hi : i ∈ c.lengthPlaces) (x : R) (what : String) :
    (s.withUnit u).length c' i (x / u) what = (s.withUnit 1).length c i (x / 1) what :=
  length_withUnit h s hu hi (.inr (by rw [div_mul_cancel₀ x hu, div_one])) what

theorem placement_withUnit (places : c.lengthPlaces = [i, i + 1]) :
    (s.withUnit u).placement c' i = (s.withUnit 1).placement c i := by
  have angle (j : Nat) (hj : i + 2 ≤ j) : j ∉ c.lengthPlaces := by simp [places]; omega
  unfold placement
  simp only [length_zero_withUnit h s hu (i := i) (by simp [places]),
    length_zero_withUnit h s hu (i := i + 1) (by simp [places]),
    angle_withUnit h s (angle (i + 2) (by omega)), angle_withUnit h s (angle (i + 3) (by omega)),
    angle_withUnit h s (angle (i + 4) (by omega))]

end Lengths

/-! ## Commands -/

section Commands

variable (hu : u ≠ 0)

include hu

theorem readRailStart_withUnit (places : c.lengthPlaces = [1, 2]) (strict : Bool) :
    (s.withUnit u).readRailStart c' strict = (s.withUnit 1).readRailStart c strict := by
  have x := length_div_withUnit h s hu (i := 1) (by simp [places])
  have y := length_div_withUnit h s hu (i := 2) (by simp [places])
  unfold readRailStart
  simp only [otherRail_withUnit h s (by simp [places]), h.fail_eq, laying_withUnit,
    lengthUnit_withUnit, x, y]
  rfl

theorem readRailEnd_withUnit (places : c.lengthPlaces = [1, 2]) :
    (s.withUnit u).readRailEnd c' false = (s.withUnit 1).readRailEnd c false := by
  have x := length_div_withUnit h s hu (i := 1) (by simp [places])
  have y := length_div_withUnit h s hu (i := 2) (by simp [places])
  unfold readRailEnd
  simp only [otherRail_withUnit h s (by simp [places]), h.require_eq, laying_withUnit,
    lengthUnit_withUnit, x, y, Bool.false_eq_true, if_false]

theorem readFog_withUnit (places : c.lengthPlaces = [0, 1]) :
    (s.withUnit u).readFog c' = (s.withUnit 1).readFog c := by
  have color (i : Nat) : 2 + i ∉ c.lengthPlaces := by simp [places]; omega
  unfold readFog
  simp only [length_zero_withUnit h s hu (i := 0) (by simp [places]),
    length_zero_withUnit h s hu (i := 1) (by simp [places]), h.integer_eq (color _), h.note_eq]

theorem readStop_withUnit (places : c.lengthPlaces = [1, 2]) (states : ∀ i ∈ [1, 2], c.States R i) :
    (s.withUnit u).readStop c' = (s.withUnit 1).readStop c := by
  have tolerance (i : Nat) (hi : i ∈ [1, 2]) (what : String) :
      (s.withUnit u).length c' i (Scalar.ofNat 5) what =
        (s.withUnit 1).length c i (Scalar.ofNat 5) what :=
    length_withUnit h s hu (places ▸ hi) (.inl (states i hi)) what
  unfold readStop
  simp only [h.require_eq, h.fail_eq, h.integer_eq (show 0 ∉ c.lengthPlaces by simp [places]),
    h.natural_eq (show 3 ∉ c.lengthPlaces by simp [places]), laying_withUnit,
    tolerance 1 (by simp), tolerance 2 (by simp)]

theorem readMarker_withUnit (place : 1 ∈ c.lengthPlaces) (content : MarkerContent) :
    (s.withUnit u).readMarker c' content = (s.withUnit 1).readMarker c content := by
  unfold readMarker
  simp only [length_zero_withUnit h s hu place, h.fail_eq, laying_withUnit]

theorem readImageMarker_withUnit (places : c.lengthPlaces = [1]) :
    (s.withUnit u).readImageMarker c' = (s.withUnit 1).readImageMarker c := by
  unfold readImageMarker
  simp only [loadFirst_withUnit h s (by simp [places]),
    readMarker_withUnit h s hu (by simp [places])]
  rfl

theorem readTextMarker_withUnit (places : c.lengthPlaces = [1]) :
    (s.withUnit u).readTextMarker c' = (s.withUnit 1).readTextMarker c := by
  unfold readTextMarker
  simp only [h.argument?_eq_of_notMem (i := 0) (by simp [places]), h.require_eq,
    h.integer_eq (i := 2) (by simp [places]), readMarker_withUnit h s hu (by simp [places])]

theorem readFreeObject_withUnit (places : c.lengthPlaces = [2, 3]) :
    (s.withUnit u).readFreeObject c' = (s.withUnit 1).readFreeObject c := by
  unfold readFreeObject
  simp only [runningRail_withUnit h s (by simp [places]),
    object_withUnit h s (i := 1) (by simp [places]), placement_withUnit h s hu places,
    laying_withUnit]

theorem readCustomSignal_withUnit (places : c.lengthPlaces = [2, 3]) :
    (s.withUnit u).readCustomSignal c' = (s.withUnit 1).readCustomSignal c := by
  unfold readCustomSignal
  simp only [h.natural_eq (i := 0) (by simp [places]), h.natural_eq (i := 1) (by simp [places]),
    h.fail_eq, placement_withUnit h s hu places, laying_withUnit]
  rfl

theorem readPostSignal_withUnit (places : c.lengthPlaces = [2, 3]) :
    (s.withUnit u).readPostSignal c' = (s.withUnit 1).readPostSignal c := by
  unfold readPostSignal
  simp only [h.integer_eq (i := 0) (by simp [places]), h.require_eq,
    placement_withUnit h s hu places]

theorem readRelay_withUnit (places : c.lengthPlaces = [1, 2]) :
    (s.withUnit u).readRelay c' = (s.withUnit 1).readRelay c := by
  unfold readRelay
  simp only [placement_withUnit h s hu places, laying_withUnit]

theorem readPointOfInterest_withUnit (places : c.lengthPlaces = [1, 2]) :
    (s.withUnit u).readPointOfInterest c' = (s.withUnit 1).readPointOfInterest c := by
  unfold readPointOfInterest
  simp only [runningRail_withUnit h s (by simp [places]), placement_withUnit h s hu places,
    h.argument?_eq_of_notMem (i := 6) (by simp [places]), laying_withUnit]

theorem readTransponder_withUnit (places : c.lengthPlaces = [3, 4]) :
    (s.withUnit u).readTransponder c' = (s.withUnit 1).readTransponder c := by
  unfold readTransponder
  simp only [h.integer_eq (i := 0) (by simp [places]), h.integer_eq (i := 1) (by simp [places]),
    h.integer_eq (i := 2) (by simp [places]), placement_withUnit h s hu places, laying_withUnit]
  rfl

theorem readBeacon_withUnit (places : c.lengthPlaces = [4, 5]) :
    (s.withUnit u).readBeacon c' = (s.withUnit 1).readBeacon c := by
  unfold readBeacon
  simp only [h.integer_eq (i := 0) (by simp [places]), h.integer_eq (i := 2) (by simp [places]),
    h.integer_eq (i := 3) (by simp [places]), readBeaconObject_withUnit h s (by simp [places]),
    placement_withUnit h s hu places, laying_withUnit]
  rfl

theorem readDoppler_withUnit (places : c.lengthPlaces = [1, 2]) :
    (s.withUnit u).readDoppler c' = (s.withUnit 1).readDoppler c := by
  unfold readDoppler
  simp only [loadFirst_withUnit h s (by simp [places]),
    length_zero_withUnit h s hu (i := 1) (by simp [places]),
    length_zero_withUnit h s hu (i := 2) (by simp [places]), laying_withUnit]
  rfl

/-- A command that is known to do something asks for the same in every unit. -/
theorem readVerb_withUnit {v : TrackVerb} (root : c.root = "track")
    (verb : TrackVerb.ofName? c.name = some v) (states : ∀ i ∈ c.defaultedPlaces, c.States R i) :
    (s.withUnit u).readVerb c' v = (s.withUnit 1).readVerb c v := by
  by_cases ends : c.endsRail
  · rw [h.eq_of_lengthPlaces (by simp [lengthPlaces, root, ends])]
    obtain ⟨rail, word⟩ : v = .rail ∧ isWord ((c.argument? 1).getD "") ["ended"] := by
      simpa [endsRail, verb] using ends
    rw [rail, readVerb_rail, readVerb_rail, if_pos word, if_pos word]
    rfl
  · have places : c.lengthPlaces = v.lengthPlaces := by simp [lengthPlaces, root, ends, verb]
    cases v with
    | rail =>
      have starts (c : Command) (ends : ¬ c.endsRail)
          (verb : TrackVerb.ofName? c.name = some .rail) :
          ¬ isWord ((c.argument? 1).getD "") ["ended"] := by simpa [endsRail, verb] using ends
      rw [readVerb_rail, readVerb_rail, if_neg (starts c ends verb),
        if_neg (starts c' (h.endsRail_eq root ▸ ends) (h.name ▸ verb))]
      exact readRailStart_withUnit h s hu places false
    | railStart => exact readRailStart_withUnit h s hu places true
    | railEnd => exact readRailEnd_withUnit h s hu places
    | curve =>
      have cant : 1 ∉ c.lengthPlaces := by simp [places, TrackVerb.lengthPlaces]
      unfold readVerb
      simp only [length_zero_withUnit h s hu (i := 0) (by simp [places, TrackVerb.lengthPlaces]),
        h.number_eq cant]
    | height =>
      unfold readVerb
      simp only [length_zero_withUnit h s hu (i := 0) (by simp [places, TrackVerb.lengthPlaces])]
    | fog => exact readFog_withUnit h s hu places
    | stop =>
      refine readStop_withUnit h s hu places ?_
      simpa [defaultedPlaces, root, verb] using states
    | relay => exact readRelay_withUnit h s hu places
    | doppler => exact readDoppler_withUnit h s hu places
    | pointOfInterest => exact readPointOfInterest_withUnit h s hu places
    | imageMarker => exact readImageMarker_withUnit h s hu places
    | textMarker => exact readTextMarker_withUnit h s hu places
    | freeObject => exact readFreeObject_withUnit h s hu places
    | customSignal => exact readCustomSignal_withUnit h s hu places
    | postSignal => exact readPostSignal_withUnit h s hu places
    | transponder => exact readTransponder_withUnit h s hu places
    | beacon => exact readBeacon_withUnit h s hu places
    | _ =>
      rw [h.eq_of_lengthPlaces places]
      rfl

/-- A command of the track asks for the same in every unit, if a stop does not leave its tolerances
out. -/
theorem read_withUnit (root : c.root = "track") (states : ∀ i ∈ c.defaultedPlaces, c.States R i) :
    (s.withUnit u).read c' = (s.withUnit 1).read c := by
  unfold read
  rw [h.name]
  cases verb : TrackVerb.ofName? c.name with
  | some v => exact readVerb_withUnit h s hu root verb states
  | none => 
    dsimp only [unsupported]
    rw [h.qualifiedName_eq]

/-- A command of the track does the same in every unit, and has the same problems. -/
theorem perform_withUnit (root : c.root = "track")
    (states : ∀ i ∈ c.defaultedPlaces, c.States R i) :
    (s.withUnit u).perform c' = (s.withUnit 1).perform c := by
  unfold perform
  rw [read_withUnit h s hu root states]
  rfl

end Commands

end Site

end RailRoute
