import Mathlib
import RailRoute.Track.Assembly
import RailRoute.Proofs.Block.Bounds
import RailRoute.Proofs.Source.Sorting
import RailRoute.Proofs.Track.Layout

/-!
# Where events go

The events of a line are sorted by position and then dealt out to the elements. An event of a later
position goes to the same element or to a later one, so reading the elements one after the other
gives the sorted events again, and behind them the end of the track. Main statements:
`contents_assemble`, what each element holds, and `events_assemble`.
-/

namespace RailRoute

/-- Where an element starts, and its events. -/
def Element.contents {R : Type} (e : Element R) : R × List (Event R) := (e.start, e.events)

/-! ## Buckets -/

section Buckets

variable {α : Type} {bucket : α → Nat} {xs : List α}

theorem filter_lt_append_filter_eq (sorted : xs.Pairwise fun a b => bucket a ≤ bucket b) (n : Nat) :
    xs.filter (fun x => bucket x < n) ++ xs.filter (fun x => bucket x = n) =
      xs.filter fun x => bucket x ≤ n := by
  induction xs with
  | nil => rfl
  | cons x xs ih =>
    obtain ⟨behind, sorted⟩ := List.pairwise_cons.1 sorted
    have ih := ih sorted
    rcases Nat.lt_or_ge (bucket x) n with hx | hx
    · simp [hx, hx.le, hx.ne, ih]
    · -- Everything behind lies in this bucket or in a later one.
      have none : xs.filter (fun y => bucket y < n) = [] :=
        List.filter_eq_nil_iff.2 fun y hy => by
          have := behind y hy
          simp
          omega
      rw [none, List.nil_append] at ih
      rcases hx.eq_or_lt with rfl | hx
      · simp [none, ih]
      · simp [none, ih, hx.ne', hx.not_gt, hx.not_ge]

/-- What is listed bucket by bucket is the whole list, if the buckets follow each other there. -/
theorem flatMap_filter_range (sorted : xs.Pairwise fun a b => bucket a ≤ bucket b) (n : Nat) :
    (List.range n).flatMap (fun j => xs.filter fun x => bucket x = j) =
      xs.filter fun x => bucket x < n := by
  induction n with
  | zero => simp
  | succ n ih =>
    rw [List.range_succ, List.flatMap_append, ih, List.flatMap_singleton,
      filter_lt_append_filter_eq sorted]
    simp only [Nat.lt_succ_iff]

end Buckets

namespace Assembly

variable {R : Type} [Scalar R]

/-! ## What the elements hold -/

theorem contents_layElements (behavior : CantBehavior) (interval : R) (blocks : List (Block R))
    (i : Nat) (position heading : Vec3 R) :
    (layElements behavior interval i position heading blocks).map Element.contents =
      (List.range' i blocks.length).map fun j => (Scalar.ofNat j * interval, []) := by
  induction blocks generalizing i position heading with
  | nil => rfl
  | cons b blocks ih =>
    simp only [layElements, List.map_cons, ih, List.length_cons, List.range'_succ]
    rfl

theorem contents_withTangents (elements : Array (Element R)) :
    (withTangents elements).map Element.contents = elements.map Element.contents := by
  refine Array.ext_getElem? fun j => ?_
  simp only [withTangents, Array.getElem?_map, Array.getElem?_mapIdx, Option.map_map]
  rfl

theorem size_placeEvents (interval : R) (xs : List (R × EventKind R))
    (elements : Array (Element R)) : (placeEvents interval xs elements).size = elements.size := by
  induction xs with
  | nil => rfl
  | cons x xs ih =>
    rw [placeEvents, List.foldr_cons, placeEvent, Array.size_modify]
    exact ih

/-- An element holds the events whose index is its own, in their order. -/
theorem contents_placeEvents (interval : R) (xs : List (R × EventKind R))
    (elements : Array (Element R)) (j : Nat) :
    (placeEvents interval xs elements)[j]?.map Element.contents =
      elements[j]?.map fun e => (e.start,
        (xs.filter fun x => elementIndex interval elements.size x.1 = j).map
          (fun x => ⟨x.1 - e.start, x.2, false⟩) ++ e.events) := by
  induction xs with
  | nil => rfl
  | cons x xs ih =>
    have placed : placeEvents interval (x :: xs) elements =
        (placeEvents interval xs elements).modify (elementIndex interval elements.size x.1)
          fun e => addEvent e x.1 x.2 := by
      rw [← size_placeEvents interval xs elements]
      rfl
    rw [placed, Array.getElem?_modify]
    by_cases hx : elementIndex interval elements.size x.1 = j
    · cases hj : elements[j]? with
      | none =>
        rw [hj, Option.map_none, Option.map_eq_none_iff] at ih
        simp [hx, ih]
      | some e =>
        rw [hj] at ih
        obtain ⟨e', he', hcontents⟩ := Option.map_eq_some_iff.1 ih
        simp only [Element.contents, Prod.mk.injEq] at hcontents
        simp [hx, he', addEvent, Element.contents, hcontents]
    · simp [hx, ih]

/-- The events that an element holds, the end of the track apart. -/
def eventsIn (l : Line R) (train : TrainInfo R) (j : Nat) : List (Event R) :=
  ((sortedEvents l train).filter fun x => elementIndex l.interval l.blocks.size x.1 = j).map
    fun x => ⟨x.1 - l.blockStart j, x.2, false⟩

/-- The end of the track, which the last element holds behind all others. -/
def endIn (l : Line R) (j : Nat) : List (Event R) :=
  if j + 1 = l.blocks.size then [⟨l.interval, .trackEnd, false⟩] else []

omit [Scalar R] in
theorem mem_endIn {l : Line R} {j : Nat} {ev : Event R} :
    ev ∈ endIn l j ↔ j + 1 = l.blocks.size ∧ ev = ⟨l.interval, .trackEnd, false⟩ := by
  unfold endIn
  split_ifs with h <;> simp [h]

theorem contents_assemble (l : Line R) (t : Tables R) :
    (assemble l t).elements.toList.map Element.contents =
      (List.range l.blocks.size).map fun j =>
        (l.blockStart j, eventsIn l t.train j ++ endIn l j) := by
  let elements := withTangents
    (layElements t.options.cantBehavior l.interval 0 .zero .forward l.blocks.toList).toArray
  have bare : elements.toList.map Element.contents =
      (List.range l.blocks.size).map fun j => (l.blockStart j, []) := by
    rw [← Array.toList_map, contents_withTangents, Array.toList_map, contents_layElements,
      List.range_eq_range', Array.length_toList]
    rfl
  have size : elements.size = l.blocks.size := by simpa using congrArg List.length bare
  refine List.ext_getElem? fun j => ?_
  have start : elements[j]?.map Element.contents =
      (List.range l.blocks.size)[j]?.map fun j => (l.blockStart j, []) := by
    simpa using congrArg (·[j]?) bare
  have placed := contents_placeEvents l.interval (sortedEvents l t.train)
    (placeEnd l.interval elements) j
  have ends : (placeEnd l.interval elements).size = l.blocks.size := Array.size_modify.trans size
  rw [ends] at placed
  simp only [List.getElem?_map, Array.getElem?_toList]
  rw [assemble, placed, placeEnd, Array.getElem?_modify, size]
  rcases Nat.lt_or_ge j l.blocks.size with hj | hj
  · rw [List.getElem?_range hj] at start ⊢
    obtain ⟨e, he, hcontents⟩ := Option.map_eq_some_iff.1 start
    obtain ⟨hstart, hevents⟩ : e.start = l.blockStart j ∧ e.events = [] := by
      simpa [Element.contents] using hcontents
    by_cases hlast : j + 1 = l.blocks.size
    · simp [he, hstart, hevents, eventsIn, endIn, hlast, show l.blocks.size - 1 = j by omega]
    · simp [he, hstart, hevents, eventsIn, endIn, hlast, show l.blocks.size - 1 ≠ j by omega]
  · rw [Array.getElem?_eq_none (by omega), List.getElem?_eq_none (by simpa using hj)]
    simp

theorem eq_of_getElem?_assemble {l : Line R} {t : Tables R} {i : Nat} {e : Element R}
    (he : (assemble l t).elements[i]? = some e) :
    i < l.blocks.size ∧ e.start = l.blockStart i ∧
      e.events = eventsIn l t.train i ++ endIn l i := by
  have contents := congrArg (·[i]?) (contents_assemble l t)
  simp only [List.getElem?_map, Array.getElem?_toList, he, Option.map_some] at contents
  obtain ⟨j, hj, hcontents⟩ := Option.map_eq_some_iff.1 contents.symm
  obtain ⟨hi, rfl⟩ : i < l.blocks.size ∧ i = j := by
    simpa [List.getElem?_eq_some_iff] using hj
  simp only [Element.contents, Prod.mk.injEq] at hcontents
  exact ⟨hi, hcontents.1.symm, hcontents.2.symm⟩

theorem size_assemble (l : Line R) (t : Tables R) :
    (assemble l t).elements.size = l.blocks.size := by
  simpa using congrArg List.length (contents_assemble l t)

/-! ## Where the events come from -/

section Collected

variable {P : R → Prop}

theorem max_mem {a b : R} (ha : P a) (hb : P b) : P (Scalar.max a b) := by
  unfold Scalar.max
  split_ifs
  · exact ha
  · exact hb
  · exact ha

theorem stationEndPosition_mem {s : Station R} (hs : P s.position)
    (stops : ∀ stop ∈ s.stops, P stop.position) : P (stationEndPosition s) := by
  unfold stationEndPosition
  refine Array.foldl_induction (fun _ x => P x) hs fun i x hx => ?_
  exact max_mem hx (stops _ (Array.getElem_mem _))

/-- Whether an event lies at a position with a property, and is not the end of the track. -/
def LiesAt (P : R → Prop) (x : R × EventKind R) : Prop := P x.1 ∧ x.2 ≠ .trackEnd

theorem liesAt_stationEvents {s : Station R} (hs : P s.position)
    (stops : ∀ stop ∈ s.stops, P stop.position)
    (alarm : ∀ p, P p → P (Scalar.max (p - passAlarmDistance) 0)) (i : Nat) :
    ∀ x ∈ stationEvents i s, LiesAt P x := by
  have ends := stationEndPosition_mem hs stops
  unfold stationEvents
  cases s.passAlarm <;> simp [LiesAt, hs, ends, alarm]

omit [Scalar R] in
theorem liesAt_limitEvents {limits : List (LimitSign R)} (h : ∀ x ∈ limits, P x.position)
    (before : Speed R) : ∀ x ∈ limitEvents before limits, LiesAt P x := by
  induction limits generalizing before with
  | nil => simp [limitEvents]
  | cons limit limits ih =>
    obtain ⟨here, behind⟩ := List.forall_mem_cons.1 h
    exact List.forall_mem_cons.2 ⟨⟨here, by simp⟩, ih behind _⟩

section Block

variable {l : Line R} (stands : l.Stands P)
  (alarm : ∀ p, P p → P (Scalar.max (p - passAlarmDistance) 0))

include stands alarm

theorem liesAt_blockEvents (train : TrainInfo R) {start : R} (hstart : P start) (c : Carried R)
    {b : Block R} (hb : b ∈ l.blocks) : ∀ x ∈ blockEvents l train start c b, LiesAt P x := by
  unfold blockEvents
  simp only [List.forall_mem_append]
  refine ⟨⟨⟨⟨⟨?_, ?_⟩, ?_⟩, ?_⟩, ?_⟩, ?_⟩
  · unfold railEvents
    split_ifs
    · simp
    · simp [LiesAt, hstart]
  · unfold blockStationEvents
    split
    · simp
    · split
      · simp
      · rename_i s hs
        have hs := Array.mem_of_getElem? hs
        exact liesAt_stationEvents (stands.stations s hs) (stands.stops s hs) alarm _
  · intro x hx
    obtain ⟨i, -, hi⟩ := List.mem_filterMap.1 hx
    obtain ⟨s, hs, rfl⟩ := Option.map_eq_some_iff.1 hi
    exact ⟨stands.sections s (Array.mem_of_getElem? hs), by simp⟩
  · exact liesAt_limitEvents (fun x hx => stands.limits b hb x (Array.mem_toList_iff.1 hx)) _
  · refine List.forall_mem_map.2 fun x hx => ?_
    have hx := stands.sounds b hb x (Array.mem_toList_iff.1 hx)
    unfold soundEvent
    cases x.kind <;> exact ⟨hx, by simp⟩
  · refine List.forall_mem_map.2 fun x hx => ?_
    exact ⟨stands.transponders b hb x (Array.mem_toList_iff.1 hx), by simp [transponderEvent]⟩

theorem liesAt_eventsFrom (starts : ∀ j < l.blocks.size, P (l.blockStart j))
    (train : TrainInfo R) (i : Nat) (c : Carried R) {blocks : List (Block R)}
    (hblocks : ∀ b ∈ blocks, b ∈ l.blocks) (hi : i + blocks.length ≤ l.blocks.size) :
    ∀ x ∈ eventsFrom l train i c blocks, LiesAt P x := by
  induction blocks generalizing i c with
  | nil => simp [eventsFrom]
  | cons b blocks ih =>
    obtain ⟨hb, hblocks⟩ := List.forall_mem_cons.1 hblocks
    rw [List.length_cons] at hi
    refine List.forall_mem_append.2 ⟨?_, ih (i + 1) _ hblocks (by omega)⟩
    exact liesAt_blockEvents stands alarm train (starts i (by omega)) c hb

/-- Every event lies where something stands, except that a marker ends where it ends. -/
theorem liesAt_collectEvents (starts : ∀ j < l.blocks.size, P (l.blockStart j))
    (train : TrainInfo R) {x : R × EventKind R} (hx : x ∈ collectEvents l train) :
    LiesAt (fun p => P p ∨ ∃ m ∈ l.markers, p = m.finish) x := by
  rcases List.mem_append.1 hx with hx | hx
  · have lies := liesAt_eventsFrom stands alarm starts train 0 (firstCarried l)
      (fun _ hb => Array.mem_toList_iff.1 hb) (by simp) x hx
    exact ⟨Or.inl lies.1, lies.2⟩
  · obtain ⟨⟨m, i⟩, hm, hx⟩ := List.mem_flatMap.1 hx
    have hm : m ∈ l.markers := by
      simpa using List.mem_of_getElem? (List.mem_zipIdx_iff_getElem?.1 hm)
    simp only [List.mem_cons, List.not_mem_nil, or_false] at hx
    rcases hx with rfl | rfl
    · exact ⟨Or.inl (stands.markers m hm), by simp⟩
    · exact ⟨Or.inr ⟨m, hm, rfl⟩, by simp⟩

end Block

end Collected

/-! ## The assembled track -/

section Exact

variable {R : Type} [ExactScalar R] {l : Line R} {interval p q : R} {n : Nat}

theorem elementIndex_le_elementIndex (hi : 0 < interval) (n : Nat) (h : p ≤ q) :
    elementIndex interval n p ≤ elementIndex interval n q :=
  min_le_min_right _ (ExactScalar.floorNat_mono (div_le_div_of_nonneg_right h hi.le))

omit [ExactScalar R] in
theorem elementIndex_lt [Scalar R] (hn : 0 < n) (interval p : R) :
    elementIndex interval n p < n := by
  unfold elementIndex
  omega

theorem blockStart_elementIndex_le (hi : 0 < l.interval) (n : Nat) (hp : 0 ≤ p) :
    l.blockStart (elementIndex l.interval n p) ≤ p := by
  have hindex : elementIndex l.interval n p ≤ Scalar.floorNat (p / l.interval) := min_le_left _ _
  have floor := ExactScalar.floorNat_le (p / l.interval) (div_nonneg hp hi.le)
  rw [Line.blockStart, ExactScalar.ofNat_eq, ← le_div_iff₀ hi]
  exact (Nat.cast_le.2 hindex).trans floor

theorem lt_blockStart_of_elementIndex (hi : 0 < l.interval)
    (h : elementIndex l.interval n p + 1 < n) :
    p < l.blockStart (elementIndex l.interval n p + 1) := by
  have hindex : elementIndex l.interval n p = Scalar.floorNat (p / l.interval) := by
    unfold elementIndex at *
    omega
  rw [Line.blockStart, ExactScalar.ofNat_eq, ← div_lt_iff₀ hi, hindex, Nat.cast_succ]
  exact ExactScalar.lt_floorNat_add_one _

theorem position_le_trans (a b c : R × EventKind R) (hab : decide (a.1 ≤ b.1))
    (hbc : decide (b.1 ≤ c.1)) : decide (a.1 ≤ c.1) :=
  decide_eq_true (le_trans (of_decide_eq_true hab) (of_decide_eq_true hbc))

theorem position_le_total (a b : R × EventKind R) : decide (a.1 ≤ b.1) || decide (b.1 ≤ a.1) := by
  simpa using le_total a.1 b.1

theorem sortedEvents_eq (l : Line R) (train : TrainInfo R) : sortedEvents l train =
    (collectEvents l train).mergeSort fun a b => decide (a.1 ≤ b.1) := by
  have order : (fun a b : R × EventKind R => Scalar.sortsBefore a.1 b.1) =
      fun a b => decide (a.1 ≤ b.1) := by
    funext a b
    exact ExactScalar.sortsBefore_eq a.1 b.1
  rw [sortedEvents, order]

theorem stablySorted_sortedEvents (l : Line R) (train : TrainInfo R) :
    Source.StablySorted (fun a b => decide (a.1 ≤ b.1)) (collectEvents l train)
      (sortedEvents l train) := by
  rw [sortedEvents_eq]
  exact Source.stablySorted_mergeSort position_le_trans position_le_total _

omit [ExactScalar R] in
theorem events_eq_flatMap [Scalar R] (t : Track R) :
    t.events = (t.elements.toList.map Element.contents).flatMap fun c =>
      c.2.map fun ev => (c.1 + ev.offset, ev) := by
  rw [List.flatMap_map]
  rfl

theorem map_eventsIn_append_endIn (l : Line R) (train : TrainInfo R) (j : Nat) :
    (eventsIn l train j ++ endIn l j).map (fun ev => (l.blockStart j + ev.offset, ev.kind)) =
      ((sortedEvents l train).filter fun x => elementIndex l.interval l.blocks.size x.1 = j) ++
        if j + 1 = l.blocks.size then [(l.blockStart l.blocks.size, .trackEnd)] else [] := by
  rw [List.map_append, eventsIn, List.map_map]
  refine congrArg₂ _ ?_ ?_
  · refine (List.map_congr_left fun x _ => ?_).trans (List.map_id _)
    simp
  · unfold endIn
    split_ifs with hj
    · simp [← hj, l.blockStart_succ]
    · rfl

theorem events_eq_sortedEvents (t : Tables R) (blocks : 0 < l.blocks.size) (hi : 0 < l.interval) :
    (assemble l t).events.map (fun x => (x.1, x.2.kind)) =
      sortedEvents l t.train ++ [(l.blockStart l.blocks.size, .trackEnd)] := by
  obtain ⟨m, hm⟩ : ∃ m, l.blocks.size = m + 1 := ⟨l.blocks.size - 1, by omega⟩
  have ascending : (sortedEvents l t.train).Pairwise fun a b =>
      elementIndex l.interval l.blocks.size a.1 ≤ elementIndex l.interval l.blocks.size b.1 :=
    (stablySorted_sortedEvents l t.train).sorted.imp fun h =>
      elementIndex_le_elementIndex hi _ (of_decide_eq_true h)
  have whole := flatMap_filter_range ascending l.blocks.size
  rw [List.filter_eq_self.2 fun x _ => decide_eq_true (elementIndex_lt blocks l.interval x.1)]
    at whole
  rw [events_eq_flatMap, contents_assemble, List.map_flatMap, List.flatMap_map]
  simp only [List.map_map, Function.comp_def, map_eventsIn_append_endIn]
  conv_rhs => rw [← whole]
  rw [hm, List.range_succ, List.flatMap_append, List.flatMap_append, List.flatMap_singleton,
    List.flatMap_singleton, if_pos rfl, List.append_assoc]
  refine congrArg (· ++ _) (List.flatMap_congr fun j hj => ?_)
  rw [if_neg (by have := List.mem_range.1 hj; omega), List.append_nil]

/-- The element of an event contains its position. -/
theorem contains_of_mem_events (t : Tables R) (hi : 0 < l.interval)
    (nonneg : ∀ x ∈ sortedEvents l t.train, 0 ≤ x.1) {i : Nat} {e : Element R}
    (he : (assemble l t).elements[i]? = some e) {ev : Event R} (hev : ev ∈ e.events) :
    (assemble l t).Contains i (e.start + ev.offset) := by
  obtain ⟨-, hstart, hevents⟩ := eq_of_getElem?_assemble he
  rw [hevents, List.mem_append] at hev
  refine ⟨e, he, ?_⟩
  rcases hev with hev | hev
  · obtain ⟨x, hx, rfl⟩ := List.mem_map.1 hev
    obtain ⟨hx, hindex⟩ := List.mem_filter.1 hx
    have hpos := nonneg x hx
    obtain rfl := of_decide_eq_true hindex
    rw [hstart, add_sub_cancel]
    refine ⟨blockStart_elementIndex_le hi _ hpos, fun next hnext => ?_⟩
    obtain ⟨hlt, hstart', -⟩ := eq_of_getElem?_assemble hnext
    rw [hstart']
    exact lt_blockStart_of_elementIndex hi hlt
  · obtain ⟨hlast, rfl⟩ := mem_endIn.1 hev
    refine ⟨le_add_of_nonneg_right hi.le, fun next hnext => ?_⟩
    obtain ⟨hlt, -, -⟩ := eq_of_getElem?_assemble hnext
    omega

/-- An assembled track is well formed. -/
theorem wellFormed_assemble (t : Tables R) (hi : 0 < l.interval)
    (nonneg : ∀ x ∈ sortedEvents l t.train, 0 ≤ x.1) : (assemble l t).WellFormed where
  start_lt_start i j e e' he he' hij := by
    obtain ⟨-, hstart, -⟩ := eq_of_getElem?_assemble he
    obtain ⟨-, hstart', -⟩ := eq_of_getElem?_assemble he'
    simp only [hstart, hstart', Line.blockStart, ExactScalar.ofNat_eq]
    exact mul_lt_mul_of_pos_right (Nat.cast_lt.2 hij) hi
  offset_nonneg i e he ev hev := by
    obtain ⟨d, hd, hle, -⟩ := contains_of_mem_events t hi nonneg he hev
    obtain rfl := Option.some.inj (he.symm.trans hd)
    linarith
  offset_lt i e e' he he' ev hev := by
    obtain ⟨d, hd, -, hlt⟩ := contains_of_mem_events t hi nonneg he hev
    have := hlt e' he'
    linarith

theorem endPosition?_assemble (t : Tables R) (blocks : 0 < l.blocks.size) (hi : 0 < l.interval)
    (kinds : ∀ x ∈ sortedEvents l t.train, x.2 ≠ .trackEnd) :
    (assemble l t).endPosition? = some (l.blockStart l.blocks.size) := by
  let ends (x : R × EventKind R) : Bool := Track.isEnd ⟨0, x.2, false⟩
  have none : (sortedEvents l t.train).find? ends = none :=
    List.find?_eq_none.2 fun x hx hends => kinds x hx (by
      obtain ⟨p, kind⟩ := x
      cases kind <;> first | rfl | cases hends)
  have found : ((assemble l t).events.map fun x => (x.1, x.2.kind)).find? ends =
      some (l.blockStart l.blocks.size, .trackEnd) := by
    rw [events_eq_sortedEvents t blocks hi, List.find?_append, none]
    rfl
  rw [List.find?_map] at found
  obtain ⟨x, hx, hends⟩ := Option.map_eq_some_iff.1 found
  rw [Track.endPosition?, show (fun x : R × Event R => Track.isEnd x.2) =
    ends ∘ fun x => (x.1, x.2.kind) from rfl, hx]
  exact congrArg some (congrArg Prod.fst hends)

theorem liesAt_sortedEvents (stands : l.Stands (0 ≤ ·)) (finishes : ∀ m ∈ l.markers, 0 ≤ m.finish)
    (hi : 0 < l.interval) (train : TrainInfo R) :
    ∀ x ∈ sortedEvents l train, 0 ≤ x.1 ∧ x.2 ≠ .trackEnd := by
  intro x hx
  have starts : ∀ j < l.blocks.size, 0 ≤ l.blockStart j := fun j _ =>
    Line.blockStart_nonneg hi j
  have alarm : ∀ p : R, 0 ≤ p → 0 ≤ Scalar.max (p - passAlarmDistance) 0 := fun p _ => by
    rw [ExactScalar.max_eq]
    exact le_max_right _ _
  obtain ⟨hpos | ⟨m, hm, hpos⟩, hkind⟩ := liesAt_collectEvents stands alarm starts train
    ((stablySorted_sortedEvents l train).perm.mem_iff.1 hx)
  · exact ⟨hpos, hkind⟩
  · exact ⟨hpos ▸ finishes m hm, hkind⟩

/-- Reading the elements of the track one after the other gives the events sorted by position, those
at one position in the order in which they were collected, and at last the end of the track, one
block behind the start of the last element. Each of them lies in the element that holds it. -/
theorem events_assemble (t : Tables R) (blocks : 0 < l.blocks.size) (hi : 0 < l.interval)
    (stands : l.Stands (0 ≤ ·)) (finishes : ∀ m ∈ l.markers, 0 ≤ m.finish) :
    let sorted := sortedEvents l t.train
    Source.StablySorted (fun a b => decide (a.1 ≤ b.1)) (collectEvents l t.train) sorted ∧
      (assemble l t).events.map (fun x => (x.1, x.2.kind)) =
        sorted ++ [(l.blockStart l.blocks.size, .trackEnd)] ∧
      (∀ x ∈ sorted, x.2 ≠ .trackEnd) ∧
      ∀ (i : Nat) (e : Element R), (assemble l t).elements[i]? = some e → ∀ ev ∈ e.events,
        (assemble l t).Contains i (e.start + ev.offset) := by
  intro sorted
  have lies := liesAt_sortedEvents stands finishes hi t.train
  exact ⟨stablySorted_sortedEvents l t.train, events_eq_sortedEvents t blocks hi,
    fun x hx => (lies x hx).2, fun i e he ev hev =>
      contains_of_mem_events t hi (fun x hx => (lies x hx).1) he hev⟩

end Exact

/-! ## A line with a marker -/

/-- Two blocks with a speed limit each, and a marker from the place of the first limit to a place
behind the blocks. -/
def markedLine : Line ℚ :=
  { Line.initial 25 0 with
    blocks := #[{ Block.initial 0 with limits := #[⟨10, .limited 20, 0, 0⟩] },
      { Block.initial 0 with limits := #[⟨30, .unlimited, 0, 0⟩] }]
    markers := #[⟨10, 60, .text "" 0⟩] }

theorem stands_markedLine : markedLine.Stands (0 ≤ ·) where
  stations _ hx := by simp [markedLine, Line.initial] at hx
  stops _ hx := by simp [markedLine, Line.initial] at hx
  sections x hx := by
    obtain rfl : x = Line.firstSection := by simpa [markedLine, Line.initial] using hx
    decide
  limits := by decide
  sounds := by decide
  transponders := by decide
  markers := by decide

/-- The marker begins behind the limit at the same place, and ends behind the end of the track,
ahead of which it stands in the last element. -/
theorem events_assemble_markedLine :
    0 < markedLine.blocks.size ∧ 0 < markedLine.interval ∧ markedLine.Stands (0 ≤ ·) ∧
      (∀ m ∈ markedLine.markers, 0 ≤ m.finish) ∧
      (assemble markedLine .initial).events.map (fun x => (x.1, x.2.kind)) =
        [(10, .limit .unlimited (.limited 20)), (10, .marker 0 true),
          (30, .limit (.limited 20) .unlimited), (60, .marker 0 false), (50, .trackEnd)] ∧
      (assemble markedLine .initial).Contains 1 60 := by
  have blocks : 0 < markedLine.blocks.size := by decide
  have interval : 0 < markedLine.interval := by decide
  have finishes : ∀ m ∈ markedLine.markers, 0 ≤ m.finish := by decide
  obtain ⟨-, events, -, contains⟩ :=
    events_assemble (.initial : Tables ℚ) blocks interval stands_markedLine finishes
  have sorted : sortedEvents markedLine (.initial : Tables ℚ).train =
      [(10, .limit .unlimited (.limited 20)), (10, .marker 0 true),
        (30, .limit (.limited 20) .unlimited), (60, .marker 0 false)] := by cbv
  refine ⟨blocks, interval, stands_markedLine, finishes, ?_, ?_⟩
  · rw [events, sorted]
    with_unfolding_all decide
  · have he := Array.getElem?_eq_getElem (show 1 < (assemble markedLine .initial).elements.size by
      rw [size_assemble]
      decide)
    obtain ⟨-, start, held⟩ := eq_of_getElem?_assemble he
    have inside := contains 1 _ he ⟨35, .marker 0 false, false⟩ (by
      rw [held, eventsIn, sorted]
      with_unfolding_all decide)
    rw [start] at inside
    have place : markedLine.blockStart 1 + 35 = 60 := by with_unfolding_all decide
    rwa [place] at inside

end Assembly

end RailRoute
