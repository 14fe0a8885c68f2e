import Mathlib
import RailRoute.Compile
import RailRoute.Proofs.Block.CarryForward

/-!
# The line of the second pass

The second pass lays the line by steps: it goes to the positions that it accepts and carries out
what the track commands ask for. So what holds of steps holds of the second pass. Main statements:
`layFrom_laying`, that it takes these steps, and `lay_carriedForward`, what they make of the blocks.
-/

namespace RailRoute.Compile

open Laying

variable {R : Type} [Scalar R]

/-- The position that is gone to for a track position, if it is accepted. -/
def accepted? (job : Job) (t : Tables R) (value : R) (hasArguments : Bool) : Option R :=
  if hasArguments then none
  else if value < 0 then none
  else if t.options.correctsKnownMistakes && job.settings.dialect = .rw
      && value == mistakenPosition then
    some intendedPosition
  else some value

/-- The step that an expression asks for. -/
def deed? (job : Job) (t : Tables R) (b : Building R) (e : Source.Expression) : Option (Deed R) :=
  match interpret job.settings.dialect t.options.unitOfLength b.scope
      (fixEnding job.settings.fixesLineEndings e) with
  | .ok (.position value hasArguments) => (accepted? job t value hasArguments).map .go
  | .ok (.command c) =>
    if c.root = "track" then
      (Site.read ⟨t, job.host.assets, job.folders, b.laying⟩ c).value?.map .act
    else none
  | _ => none

/-- The steps that expressions ask for. -/
def deeds (job : Job) (t : Tables R) : Building R → List Source.Expression → List (Deed R)
  | _, [] => []
  | b, e :: es => (deed? job t b e).toList ++ deeds job t (layOne job t b e).1 es

/-- Where the second pass starts. -/
def start (job : Job) (t : Tables R) : Building R :=
  ⟨Laying.initial t.options.blockInterval (initialHeight job.settings.dialect), Scope.initial⟩

theorem acceptPosition_eq (job : Job) (t : Tables R) (l : Laying R) (value : R)
    (hasArguments : Bool) : (acceptPosition job t l value hasArguments).1 =
      l.run ((accepted? job t value hasArguments).map Deed.go).toList := by
  unfold acceptPosition accepted?
  split_ifs <;> rfl

theorem perform_eq (s : Site R) (c : Command) :
    (s.perform c).1 = s.laying.run ((s.read c).value?.map Deed.act).toList := by
  unfold Site.perform
  dsimp only
  cases (s.read c).value? <;> rfl

theorem layOne_laying (job : Job) (t : Tables R) (b : Building R) (e : Source.Expression) :
    (layOne job t b e).1.laying = b.laying.run (deed? job t b e).toList := by
  unfold layOne deed?
  dsimp only
  generalize interpret job.settings.dialect t.options.unitOfLength b.scope _ = meaning
  match meaning with
  | .error _ => rfl
  | .ok (.scope _) => rfl
  | .ok (.position _ _) => exact acceptPosition_eq ..
  | .ok (.command c) =>
    dsimp only [layCommand]
    split_ifs
    · exact perform_eq ..
    · rfl
    · rfl

/-- The second pass takes the steps that the expressions ask for. -/
theorem layFrom_laying {job : Job} {t : Tables R} {count j : Nat} {es : List Source.Expression}
    {b b' : Building R} {log : CallLog R} (h : (layFrom job t count j es b log).1 = some b') :
    b'.laying = b.laying.run (deeds job t b es) := by
  induction es generalizing j b log with
  | nil =>
    obtain rfl := Option.some.inj h
    rfl
  | cons e es ih =>
    unfold layFrom at h
    dsimp only at h
    split_ifs at h
    rw [ih h, layOne_laying, deeds]
    exact (List.foldl_append ..).symm

theorem layFrom_isSome {job : Job} (h : job.host.cancelAt = none) (t : Tables R) (count j : Nat)
    (es : List Source.Expression) (b : Building R) (log : CallLog R) :
    (layFrom job t count j es b log).1.isSome := by
  induction es generalizing j b log with
  | nil => rfl
  | cons e es ih =>
    unfold layFrom
    simp [stopsAt, Host.hasCancelled, h, ih]

/-- After the second pass over expressions whose accepted positions do not go back, the line ends
with the block of the last accepted position, and each block is what the commands issued tell of
it. Only the host can stop the pass. The block length is as `blockInterval_gathered` has it. -/
theorem lay_carriedForward [OrderedScalar R] (job : Job) {t : Tables R}
    (hinterval : ¬ t.options.blockInterval ≤ 0) (es : List Source.Expression) (log : CallLog R)
    (hpositions : (positions (deeds job t (start job t) es)).Pairwise (· ≤ ·)) :
    let steps := deeds job t (start job t) es
    let first := Block.initial (initialHeight job.settings.dialect)
    let history := (start job t).laying.issues steps
    (job.host.cancelAt = none → (lay job t es log).1.isSome) ∧
      ∀ b : Building R, (lay job t es log).1 = some b →
        b.laying.line.blocks.size =
            1 + ((positions steps).getLast?.map b.laying.line.blockIndex).getD 0 ∧
          ∀ (k : Nat) (block : Block R), b.laying.line.blocks[k]? = some block →
            Block.CarriedForward first history k block := by
  intro steps first history
  refine ⟨fun h => layFrom_isSome h .., fun b hb => ?_⟩
  have laid : b.laying = (start job t).laying.run steps := layFrom_laying hb
  have asc : (start job t).laying.Ascends steps :=
    ascends_of_pairwise hinterval (fun _ _ => Nat.zero_le _) hpositions
  rw [laid]
  exact ⟨size_run asc, fun k block hblock => carriedForward_run asc hblock⟩

/-! ## A short line -/

/-- A job without files whose host never stops it. -/
def quietJob : Job :=
  ⟨.initial, ⟨⟨fun _ _ => none⟩, ⟨fun _ => .error .notFound⟩, none⟩, ⟨"", "", "", ""⟩⟩

/-- A line that becomes steeper, with a turn on the way. -/
def climbing : List Source.Expression :=
  ["25", "Track.Pitch 4", "Track.Turn 1", "60", "Track.Pitch(8)", "Track.Limit 50", "80"].map
    (⟨⟨"", 1, 1⟩, ·⟩)

/-- The last block of the short line has the last pitch, and neither the turn nor the speed
limit. -/
theorem lay_carriedForward_climbing :
    let t : Tables ℚ := .initial
    ¬ t.options.blockInterval ≤ 0 ∧
      positions (deeds quietJob t (start quietJob t) climbing) = [25, 60, 80] ∧
      ∃ b, (lay quietJob t climbing .empty).1 = some b ∧ b.laying.line.blocks.size = 4 ∧
        ∀ block, b.laying.line.blocks[3]? = some block →
          block.pitch = 1 / 125 ∧ block.turn = 0 ∧ block.limits = #[] := by
  intro t
  have interval : ¬ t.options.blockInterval ≤ 0 := by decide
  have steps : positions (deeds quietJob t (start quietJob t) climbing) = [25, 60, 80] := by
    decide +kernel
  have law := lay_carriedForward quietJob interval climbing .empty (by
    rw [steps]
    decide)
  obtain ⟨b, hb⟩ := Option.isSome_iff_exists.1 (law.1 rfl)
  obtain ⟨size, blocks⟩ := law.2 b hb
  refine ⟨interval, steps, b, hb, ?_, fun block hblock => ?_⟩
  · rw [size, steps, layFrom_laying hb, run_blockIndex]
    decide +kernel
  · have told := blocks 3 block hblock
    refine ⟨told.pitch.trans (by decide +kernel), told.turn.trans (by decide +kernel), ?_⟩
    have limits : block.limits.toList = [] :=
      told.limits.trans (List.eq_nil_of_length_eq_zero (by decide +kernel))
    exact Array.toList_eq_nil_iff.1 limits

end RailRoute.Compile
