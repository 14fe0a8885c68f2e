import Mathlib
import RailRoute.Proofs.Block.Ranges
import RailRoute.Proofs.Compile.Invariants

/-!
# Ranges of values after the second pass

Options that are read ahead have a positive unit of speed, and positions that are accepted are not
negative. So the second pass lays only values that are in range. Main statement: `inRange_lay`.
-/

namespace RailRoute

open Check

variable {R : Type} [ExactScalar R]

theorem Options.unitOfSpeed_readAhead (dialect : Dialect) (es : List Source.Expression) :
    0 < (readAhead (R := R) dialect es).options.unitOfSpeed := by
  have factor : (0 : R) < Scalar.fixed 36 1 := by
    rw [ExactScalar.fixed_eq]
    norm_num
  refine readAhead_induction (P := fun o => 0 < o.unitOfSpeed) (one_div_pos.2 factor)
    (fun c o ho => ?_) dialect es
  exact ensures_update (fun _ _ _ => ho) (fun _ _ _ accepted => div_pos (not_le.1 accepted) factor)
    (fun _ _ _ _ => ho) fun _ _ same _ => same ▸ ho

namespace Compile

open Laying

/-- Whatever the second pass lays with options that were read ahead, and in whatever order of
positions, all values of the line are in range. Only the host can stop the pass. -/
theorem inRange_lay (job : Job) (t : Tables R) (dialect : Dialect) (corrects : Bool)
    (ahead es : List Source.Expression) (log : CallLog R) :
    let options := (Options.readAhead dialect ahead).options
    let tables := { t with options := { options with correctsKnownMistakes := corrects } }
    (job.host.cancelAt = none → (lay job tables es log).1.isSome) ∧
      ∀ b : Building R, (lay job tables es log).1 = some b → b.laying.InRange := by
  intro options tables
  refine ⟨fun h => layFrom_isSome h .., fun b hb => ?_⟩
  have unit : 0 < options.unitOfSpeed := Options.unitOfSpeed_readAhead dialect ahead
  rw [laying_of_lay hb]
  refine inRange_run (inRange_initial ..) Nat.one_pos (nonneg_positions job tables _ es) ?_
  refine forall_issues_deeds job tables (P := fun i => 0 ≤ i.laying.position → i.action.InRange)
    (fun s c a ha here => ?_) _ es
  exact Site.inRange_read ⟨tables, job.host.assets, job.folders, s⟩ c here unit a ha

/-- A route that asks for more than there is: for too much accuracy, for doors on a side that there
is not, and for a marker that begins before the route. -/
def excessive : List Source.Expression :=
  ["Options.UnitOfSpeed 36", "25", "Track.Accuracy 7", "Track.Limit 5", "Track.Sta A;;;0;9;;;;-3",
    "Track.TextMarker A;-40"].map (⟨⟨"", 1, 1⟩, ·⟩)

theorem inRange_lay_excessive :
    let options : Options ℚ := (Options.readAhead .csv excessive).options
    let t : Tables ℚ :=
      { Tables.initial with options := { options with correctsKnownMistakes := false } }
    ∃ b, (lay quietJob t excessive .empty).1 = some b ∧ b.laying.InRange ∧
      b.laying.currentBlock.accuracy = 4 ∧
      b.laying.currentBlock.limits.map (·.speed) = #[.limited 50] ∧
      b.laying.line.stations.map (fun x => (x.doors, x.stopTime)) = #[(1, 0)] ∧
      b.laying.line.markers.map (fun x => (x.start, x.finish)) = #[(0, 25)] := by
  intro options t
  obtain ⟨ends, law⟩ := inRange_lay (R := ℚ) quietJob .initial .csv false excessive excessive .empty
  obtain ⟨b, hb⟩ := Option.isSome_iff_exists.1 (ends rfl)
  refine ⟨b, hb, law b hb, ?_⟩
  rw [laying_of_lay hb]
  decide +kernel

end Compile

end RailRoute
