import Mathlib
import RailRoute.Track.Assembly

/-!
# The shape of an assembled track

Dealing out events changes nothing about the elements but what they hold, so each element of an
assembled track has the frame, the curve and the cant it was laid with, and the slope of its cant
comes from the cants of its neighbors. Main statements: `exists_laid` and
`cantTangent_assemble`.
-/

namespace RailRoute

/-- The element without its events. -/
def Element.bare {R : Type} (e : Element R) : Element R := { e with events := [] }

namespace Assembly

variable {R : Type} [Scalar R]

omit [Scalar R] in
theorem map_bare_modify (elements : Array (Element R)) (i : Nat) {f : Element R → Element R}
    (h : ∀ e, (f e).bare = e.bare) :
    (elements.modify i f).map Element.bare = elements.map Element.bare := by
  refine Array.ext_getElem? fun j => ?_
  by_cases hj : i = j <;> simp [Array.getElem?_modify, hj, h, Function.comp_def]

theorem map_bare_placeEvents (interval : R) (xs : List (R × EventKind R))
    (elements : Array (Element R)) :
    (placeEvents interval xs elements).map Element.bare = elements.map Element.bare := by
  induction xs with
  | nil => rfl
  | cons x xs ih =>
    rw [placeEvents, List.foldr_cons, placeEvent]
    refine (map_bare_modify _ _ ?_).trans ih
    exact fun _ => rfl

/-- The elements of a line before their slopes of cant and their events are added. -/
def laid (l : Line R) (t : Tables R) : List (Element R) :=
  layElements t.options.cantBehavior l.interval 0 .zero .forward l.blocks.toList

theorem map_bare_assemble (l : Line R) (t : Tables R) :
    (assemble l t).elements.map Element.bare =
      (withTangents (laid l t).toArray).map Element.bare := by
  refine (map_bare_placeEvents ..).trans (map_bare_modify _ _ ?_)
  exact fun _ => rfl

/-- Apart from the slope of its cant and from its events, an element is as it was laid. -/
theorem exists_laid {l : Line R} {t : Tables R} {i : Nat} {e : Element R}
    (he : (assemble l t).elements[i]? = some e) :
    ∃ d, (laid l t)[i]? = some d ∧ e = { d with
      cantTangent := cantTangentAt ((laid l t).map (·.cant)).toArray i, events := e.events } := by
  have same := congrArg (·[i]?) (map_bare_assemble l t)
  simp only [withTangents, Array.getElem?_map, he, Option.map_some, Array.getElem?_mapIdx,
    List.getElem?_toArray, Option.map_map, List.map_toArray] at same
  obtain ⟨d, hd, same⟩ := Option.map_eq_some_iff.1 same.symm
  refine ⟨d, hd, ?_⟩
  have parts : e = { e.bare with events := e.events } := rfl
  rw [parts, ← same]
  rfl

theorem map_cant_layElements (behavior : CantBehavior) (interval : R) (i : Nat)
    (position heading : Vec3 R) (blocks : List (Block R)) :
    (layElements behavior interval i position heading blocks).map (·.cant) =
      blocks.map (signedCant behavior) := by
  induction blocks generalizing i position heading with
  | nil => rfl
  | cons b blocks ih => exact congrArg (signedCant behavior b :: ·) (ih ..)

theorem map_cant_assemble (l : Line R) (t : Tables R) :
    (assemble l t).elements.map (·.cant) = ((laid l t).map (·.cant)).toArray := by
  have same := congrArg (Array.map (·.cant)) (map_bare_assemble l t)
  rw [Array.map_map, Array.map_map] at same
  refine same.trans (Array.ext_getElem? fun i => ?_)
  simp [withTangents, Function.comp_def, Element.bare]

theorem cantTangent_assemble {l : Line R} {t : Tables R} {i : Nat} {e : Element R}
    (he : (assemble l t).elements[i]? = some e) :
    e.cantTangent = cantTangentAt ((assemble l t).elements.map (·.cant)) i := by
  obtain ⟨d, -, parts⟩ := exists_laid he
  rw [parts, map_cant_assemble]

/-- Between two neighbors, the slope of the cant is half the difference of their cants. -/
theorem cantTangent_between {l : Line R} {t : Tables R} {i : Nat} {before e next : Element R}
    (hbefore : (assemble l t).elements[i]? = some before)
    (he : (assemble l t).elements[i + 1]? = some e)
    (hnext : (assemble l t).elements[i + 2]? = some next) :
    e.cantTangent = Scalar.half * (next.cant - before.cant) := by
  obtain ⟨size, -⟩ := Array.getElem?_eq_some_iff.1 hnext
  rw [cantTangent_assemble he]
  unfold cantTangentAt
  rw [if_neg (by simp; omega)]
  dsimp only
  rw [if_neg (by omega), if_neg (by simp; omega)]
  simp [Array.getD_eq_getD_getElem?, hbefore, hnext]

end Assembly

end RailRoute
