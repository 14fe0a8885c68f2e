import Mathlib
import RailRoute.Proofs.Track.Crossing
import RailRoute.Proofs.Track.Distribution

/-!
# Walks

A walk crosses the events on its way piece by piece. In which order it meets two events of one
element depends on the pieces, unless the events are listed in the order of their positions. On an
assembled track they are, up to its end, so all walks meet the same events there. Behind the end
they need not, and how far a walk goes beyond it depends on the step. Main statement:
`walk_upTo_end`.
-/

namespace RailRoute

variable {R : Type}

/-! ## Triggering at different places -/

/-- Where the event of a call stands: its element, and its place there. -/
def TriggerCall.place (call : TriggerCall) : Nat × Nat := (call.element, call.event)

namespace Track

/-- The event of a call. -/
def event? (t : Track R) (call : TriggerCall) : Option (Event R) :=
  t.elements[call.element]?.bind fun e => e.events[call.event]?

theorem event?_eq_some {t : Track R} {call : TriggerCall} {ev : Event R} :
    t.event? call = some ev ↔
      ∃ e, t.elements[call.element]? = some e ∧ e.events[call.event]? = some ev :=
  Option.bind_eq_some_iff

theorem crossings_trigger (t : Track R) (c : Crosser) (call : TriggerCall) :
    (t.trigger c call).2 =
      ((t.event? call).bind fun ev => (ev.trigger call.direction c).2).toList := by
  unfold trigger event?
  cases t.elements[call.element]? with
  | none => rfl
  | some e => cases he : e.events[call.event]? <;> simp [he]

theorem event?_trigger_of_ne (t : Track R) (c : Crosser) {call other : TriggerCall}
    (h : call.place ≠ other.place) : (t.trigger c call).1.event? other = t.event? other := by
  unfold trigger
  cases he : t.elements[call.element]? with
  | none => rfl
  | some e =>
    dsimp only
    cases hev : e.events[call.event]? with
    | none => rfl
    | some ev =>
      obtain ⟨hi, -⟩ := Array.getElem?_eq_some_iff.1 he
      by_cases hel : call.element = other.element
      · have hplace : call.event ≠ other.event := fun hev => h (Prod.ext hel hev)
        simp [event?, ← hel, getElem?_setElement hi, he, hplace]
      · simp [event?, getElem?_setElement_of_ne t hel]

/-- Events at different places have nothing to do with each other. -/
theorem crossings_triggerAll (t : Track R) (c : Crosser) {calls : List TriggerCall}
    (h : calls.Pairwise fun a b => a.place ≠ b.place) :
    (t.triggerAll c calls).2 = calls.flatMap fun call => (t.trigger c call).2 := by
  induction calls generalizing t with
  | nil => rfl
  | cons call rest ih =>
    obtain ⟨others, hrest⟩ := List.pairwise_cons.1 h
    rw [triggerAll, ih _ hrest, List.flatMap_cons]
    refine congrArg _ (List.flatMap_congr fun other hother => ?_)
    rw [crossings_trigger, crossings_trigger, event?_trigger_of_ne t c (others other hother)]

/-! ## Events up to the end -/

variable [Scalar R]

/-- Whether the event of a call has an offset that is not greater than `reach`. -/
def isWithin (t : Track R) (reach : R) (call : TriggerCall) : Bool :=
  (t.event? call).any fun ev => decide (ev.offset ≤ reach)

/-- Whether the offsets up to `reach` are those that do not lie behind a position, and the events
that have them are listed in their order. -/
structure SortedUpTo (t : Track R) (finish reach : R) : Prop where
  le_reach_iff : ∀ (i : Nat) (e : Element R), t.elements[i]? = some e → ∀ ev ∈ e.events,
    (ev.offset ≤ reach ↔ e.start + ev.offset ≤ finish)
  sorted : ∀ (i : Nat) (e : Element R), t.elements[i]? = some e →
    e.events.Pairwise fun a b => a.offset ≤ reach → b.offset ≤ reach → a.offset ≤ b.offset

/-- Calls that trigger the events between two positions, each once. Those with an offset up to
`reach` are in the order of the way forward. -/
structure Passed (t : Track R) (reach old new : R) (calls : List TriggerCall) : Prop where
  mem_iff : ∀ call, call ∈ calls ↔ t.IsCrossed old new call
  nodup : calls.Nodup
  ordered : calls.Pairwise fun a b => t.isWithin reach a → t.isWithin reach b → a.Precedes b

theorem isWithin_iff {t : Track R} {reach : R} {call : TriggerCall} :
    t.isWithin reach call ↔ ∃ ev, t.event? call = some ev ∧ ev.offset ≤ reach := by
  unfold isWithin
  cases t.event? call <;> simp

theorem filter_crossings_trigger (t : Track R) (c : Crosser) (call : TriggerCall) (reach : R) :
    (t.trigger c call).2.filter (fun x => decide (x.event.offset ≤ reach)) =
      if t.isWithin reach call then (t.trigger c call).2 else [] := by
  rw [crossings_trigger]
  unfold isWithin
  cases t.event? call with
  | none => rfl
  | some ev =>
    unfold Event.trigger
    by_cases hlatched : ev.latched
    · simp [hlatched]
    · by_cases hle : ev.offset ≤ reach <;> simp [hlatched, hle]

/-- Crossings of events up to the end are what triggering these events gives. -/
theorem filter_crossings_triggerAll (t : Track R) (c : Crosser) {calls : List TriggerCall}
    (h : calls.Pairwise fun a b => a.place ≠ b.place) (reach : R) :
    (t.triggerAll c calls).2.filter (fun x => decide (x.event.offset ≤ reach)) =
      (t.triggerAll c (calls.filter (t.isWithin reach))).2 := by
  rw [crossings_triggerAll t c h, crossings_triggerAll t c (h.filter _), List.filter_flatMap]
  simp only [filter_crossings_trigger]
  clear h
  induction calls with
  | nil => rfl
  | cons call rest ih =>
    rw [List.flatMap_cons, ih, List.filter_cons]
    split_ifs <;> rfl

section Layout

variable {t t' : Track R} {reach finish old new : R}

theorem SameLayout.isWithin (h : t.SameLayout t') {call : TriggerCall}
    (hr : t.isWithin reach call) : t'.isWithin reach call := by
  obtain ⟨ev, hev, hle⟩ := isWithin_iff.1 hr
  obtain ⟨e, he, hev⟩ := event?_eq_some.1 hev
  obtain ⟨e', he', hl⟩ := h.getElem? he
  obtain ⟨ev', hev', ho⟩ := SameLayout.exists_event hl hev
  exact isWithin_iff.2 ⟨ev', event?_eq_some.2 ⟨e', he', hev'⟩, ho ▸ hle⟩

theorem SameLayout.sortedUpTo (h : t.SameLayout t') (hs : t.SortedUpTo finish reach) :
    t'.SortedUpTo finish reach where
  le_reach_iff i e he ev hev := by
    obtain ⟨d, hd, hl⟩ := h.symm.getElem? he
    obtain ⟨k, hk⟩ := List.mem_iff_getElem?.1 hev
    obtain ⟨ev', hev', ho⟩ := SameLayout.exists_event hl hk
    rw [← ho, ← SameLayout.start_eq hl]
    exact hs.le_reach_iff i d hd ev' (List.mem_of_getElem? hev')
  sorted i e he := by
    obtain ⟨d, hd, hl⟩ := h.symm.getElem? he
    have offsets : d.events.map (·.offset) = e.events.map (·.offset) := congrArg Prod.snd hl
    have sorted : (d.events.map (·.offset)).Pairwise fun x y => x ≤ reach → y ≤ reach → x ≤ y :=
      List.pairwise_map.2 (hs.sorted i d hd)
    rw [offsets] at sorted
    exact List.pairwise_map.1 sorted

theorem SameLayout.passed (h : t.SameLayout t') {calls : List TriggerCall}
    (hp : t.Passed reach old new calls) : t'.Passed reach old new calls where
  mem_iff call := (hp.mem_iff call).trans ⟨h.isCrossed, h.symm.isCrossed⟩
  nodup := hp.nodup
  ordered := hp.ordered.imp fun hab ha hb => hab (h.symm.isWithin ha) (h.symm.isWithin hb)

theorem CrossedInOrder.passed {calls : List TriggerCall} (h : t.CrossedInOrder old new calls)
    (reach : R) : t.Passed reach old new calls where
  mem_iff := h.mem_iff
  nodup := h.nodup
  ordered := h.ordered.imp fun hab _ _ => hab

end Layout

section Exact

variable {R : Type} [ExactScalar R] {t : Track R} {reach finish old mid new : R}

theorem isCrossed_forward (h : old ≤ new) {call : TriggerCall} : t.IsCrossed old new call ↔
    ∃ e ev, t.elements[call.element]? = some e ∧ e.events[call.event]? = some ev ∧
      call.direction = 1 ∧ old < e.start + ev.offset ∧ e.start + ev.offset ≤ new := by
  constructor
  · rintro ⟨e, ev, he, hev, ⟨hdir, h₁, h₂⟩ | ⟨-, h₁, h₂⟩⟩
    · exact ⟨e, ev, he, hev, hdir, h₁, h₂⟩
    · exact absurd (h₁.trans_lt h₂) h.not_gt
  · rintro ⟨e, ev, he, hev, hdir, h₁, h₂⟩
    exact ⟨e, ev, he, hev, Or.inl ⟨hdir, h₁, h₂⟩⟩

/-- Events up to the end are listed in the order of their positions, also across elements. -/
theorem precedes_of_lt (wf : t.WellFormed) (sorted : t.SortedUpTo finish reach)
    {a b : TriggerCall} {e e' : Element R} {ev ev' : Event R}
    (he : t.elements[a.element]? = some e) (hev : e.events[a.event]? = some ev)
    (he' : t.elements[b.element]? = some e') (hev' : e'.events[b.event]? = some ev')
    (ha : ev.offset ≤ reach) (hb : ev'.offset ≤ reach) (hdir : a.direction = 1)
    (hlt : e.start + ev.offset < e'.start + ev'.offset) : a.Precedes b := by
  unfold TriggerCall.Precedes
  by_cases hel : a.element = b.element
  · rw [if_pos hel]
    obtain rfl : e = e' := Option.some.inj (he.symm.trans (hel ▸ he'))
    have hlt : ev.offset < ev'.offset := by linarith
    obtain ⟨hi, rfl⟩ := List.getElem?_eq_some_iff.1 hev
    obtain ⟨hj, rfl⟩ := List.getElem?_eq_some_iff.1 hev'
    rcases lt_trichotomy a.event b.event with h | h | h
    · exact h
    · simp [h] at hlt
    · have := List.pairwise_iff_getElem.1 (sorted.sorted _ e he) b.event a.event hj hi h hb ha
      linarith
  · rw [if_neg hel, if_pos (by omega)]
    by_contra! hle
    -- An event of an earlier element lies before the start of the later one.
    have hlater : b.element < a.element := by omega
    obtain ⟨hs, -⟩ := Array.getElem?_eq_some_iff.1 he
    have inside := Follower.position_lt_next wf he' (List.mem_of_getElem? hev') (by omega)
    have upTo := Follower.startOf_le_startOf wf (show b.element + 1 ≤ a.element by omega) hs
    have nonneg := wf.offset_nonneg _ e he ev (List.mem_of_getElem? hev)
    rw [Follower.startOf_eq he'] at inside
    rw [Follower.startOf_eq he] at upTo
    linarith

theorem Passed.append (wf : t.WellFormed) (sorted : t.SortedUpTo finish reach)
    {xs ys : List TriggerCall} (h : t.Passed reach old mid xs) (h' : t.Passed reach mid new ys)
    (hold : old ≤ mid) (hnew : mid ≤ new) : t.Passed reach old new (xs ++ ys) where
  mem_iff call := by
    rw [List.mem_append, h.mem_iff, h'.mem_iff, isCrossed_forward hold, isCrossed_forward hnew,
      isCrossed_forward (hold.trans hnew)]
    constructor
    · rintro (⟨e, ev, he, hev, hdir, h₁, h₂⟩ | ⟨e, ev, he, hev, hdir, h₁, h₂⟩)
      · exact ⟨e, ev, he, hev, hdir, h₁, h₂.trans hnew⟩
      · exact ⟨e, ev, he, hev, hdir, hold.trans_lt h₁, h₂⟩
    · rintro ⟨e, ev, he, hev, hdir, h₁, h₂⟩
      rcases le_or_gt (e.start + ev.offset) mid with hmid | hmid
      · exact Or.inl ⟨e, ev, he, hev, hdir, h₁, hmid⟩
      · exact Or.inr ⟨e, ev, he, hev, hdir, hmid, h₂⟩
  nodup := by
    refine List.nodup_append.2 ⟨h.nodup, h'.nodup, ?_⟩
    rintro call hx _ hy rfl
    obtain ⟨e, ev, he, hev, -, -, h₂⟩ := (isCrossed_forward hold).1 ((h.mem_iff call).1 hx)
    obtain ⟨e', ev', he', hev', -, h₁, -⟩ := (isCrossed_forward hnew).1 ((h'.mem_iff call).1 hy)
    obtain rfl := Option.some.inj (he.symm.trans he')
    obtain rfl := Option.some.inj (hev.symm.trans hev')
    exact h₁.not_ge h₂
  ordered := by
    refine List.pairwise_append.2 ⟨h.ordered, h'.ordered, fun a ha b hb hra hrb => ?_⟩
    obtain ⟨e, ev, he, hev, hdir, -, h₂⟩ := (isCrossed_forward hold).1 ((h.mem_iff a).1 ha)
    obtain ⟨e', ev', he', hev', -, h₁, -⟩ := (isCrossed_forward hnew).1 ((h'.mem_iff b).1 hb)
    obtain ⟨_, hra, hlea⟩ := isWithin_iff.1 hra
    obtain ⟨_, hrb, hleb⟩ := isWithin_iff.1 hrb
    obtain rfl := Option.some.inj (hra.symm.trans (event?_eq_some.2 ⟨e, he, hev⟩))
    obtain rfl := Option.some.inj (hrb.symm.trans (event?_eq_some.2 ⟨e', he', hev'⟩))
    exact precedes_of_lt wf sorted he hev he' hev' hlea hleb hdir (h₂.trans_lt h₁)

theorem Passed.exists_event {calls : List TriggerCall} (h : t.Passed reach old new calls)
    (hle : old ≤ new) {call : TriggerCall} (hcall : call ∈ calls) :
    ∃ e ev, t.elements[call.element]? = some e ∧ e.events[call.event]? = some ev ∧
      call.direction = 1 := by
  obtain ⟨e, ev, he, hev, hdir, -⟩ := (isCrossed_forward hle).1 ((h.mem_iff call).1 hcall)
  exact ⟨e, ev, he, hev, hdir⟩

theorem Passed.places {calls : List TriggerCall} (h : t.Passed reach old new calls)
    (hle : old ≤ new) : calls.Pairwise fun a b => a.place ≠ b.place := by
  refine h.nodup.imp_of_mem fun {a b} ha hb hne hplace => hne ?_
  obtain ⟨-, -, -, -, hda⟩ := h.exists_event hle ha
  obtain ⟨-, -, -, -, hdb⟩ := h.exists_event hle hb
  cases a
  cases b
  simp_all [TriggerCall.place]

/-- Of what is passed on a way beyond the end, the part up to the end is what is crossed on the way
straight to it. -/
theorem Passed.filter_eq (sorted : t.SortedUpTo finish reach) {xs ys : List TriggerCall}
    (h : t.Passed reach old new xs) (h' : t.CrossedInOrder old finish ys) (hold : old ≤ finish)
    (hnew : finish ≤ new) : xs.filter (t.isWithin reach) = ys := by
  have within {call : TriggerCall} {e : Element R} {ev : Event R}
      (he : t.elements[call.element]? = some e) (hev : e.events[call.event]? = some ev) :
      t.isWithin reach call ↔ e.start + ev.offset ≤ finish := by
    rw [isWithin_iff, ← sorted.le_reach_iff _ e he ev (List.mem_of_getElem? hev)]
    have found := event?_eq_some.2 ⟨e, he, hev⟩
    refine ⟨fun ⟨_, h, hle⟩ => ?_, fun hle => ⟨ev, found, hle⟩⟩
    exact Option.some.inj (h.symm.trans found) ▸ hle
  have mem : ∀ call, call ∈ xs.filter (t.isWithin reach) ↔ call ∈ ys := by
    intro call
    rw [List.mem_filter, h.mem_iff, h'.mem_iff, isCrossed_forward (hold.trans hnew),
      isCrossed_forward hold]
    constructor
    · rintro ⟨⟨e, ev, he, hev, hdir, h₁, -⟩, hwithin⟩
      exact ⟨e, ev, he, hev, hdir, h₁, (within he hev).1 hwithin⟩
    · rintro ⟨e, ev, he, hev, hdir, h₁, h₂⟩
      exact ⟨⟨e, ev, he, hev, hdir, h₁, h₂.trans hnew⟩, (within he hev).2 h₂⟩
  have ordered : (xs.filter (t.isWithin reach)).Pairwise TriggerCall.Precedes := by
    refine (h.ordered.filter _).imp_of_mem fun ha hb hab => ?_
    exact hab (List.mem_filter.1 ha).2 (List.mem_filter.1 hb).2
  have perm := (List.perm_ext_iff_of_nodup (h.nodup.filter _) h'.nodup).2 mem
  refine perm.eq_of_pairwise (fun a b ha hb hab hba => ?_) ordered h'.ordered
  have forward {call : TriggerCall} (hcall : call ∈ ys) : call.direction = 1 := by
    obtain ⟨-, -, -, -, hdir, -⟩ := (isCrossed_forward hold).1 ((h'.mem_iff call).1 hcall)
    exact hdir
  have hda := forward ((mem a).1 ha)
  have hdb := forward hb
  simp only [TriggerCall.Precedes, hda, hdb] at hab hba
  split_ifs at hab hba <;> omega

end Exact

end Track

namespace Follower

variable {R : Type} [ExactScalar R] {t : Track R} {f : Follower R} {step goal reach finish : R}

/-- What a walk leaves behind: it has triggered the events between the two positions. -/
structure Onward (t : Track R) (reach : R) (f : Follower R) (calls : List TriggerCall)
    (moved : Moved R) : Prop where
  passed : t.Passed reach f.position moved.follower.position calls
  triggered : (moved.track, moved.crossings.toList) = t.triggerAll f.crosser calls
  onward : f.position ≤ moved.follower.position

/-- A walk with crossings made before goes on as one without. -/
theorem walkSteps_crossings (fuel : Nat) (f : Follower R) (t : Track R)
    (before : Array (Crossing R)) :
    let walked := walkSteps step goal fuel f t #[]
    walkSteps step goal fuel f t before =
      ⟨walked.follower, walked.track, before ++ walked.crossings⟩ := by
  induction fuel generalizing f t before with
  | zero => simp [walkSteps]
  | succ fuel ih =>
    simp only [walkSteps]
    split_ifs
    · rw [ih, ih _ _ (#[] ++ _)]
      simp [Array.append_assoc]
    · simp

theorem onward_stay (t : Track R) (reach : R) (f : Follower R) :
    Onward t reach f [] ⟨f, t, #[]⟩ where
  passed :=
    { mem_iff := fun call => by
        rw [Track.isCrossed_forward le_rfl]
        refine ⟨fun h => (List.not_mem_nil h).elim, ?_⟩
        rintro ⟨e, ev, -, -, -, h₁, h₂⟩
        exact absurd h₁ h₂.not_gt
      nodup := List.nodup_nil
      ordered := List.Pairwise.nil }
  triggered := rfl
  onward := le_rfl

/-- A step forward, and what comes after it. -/
theorem Onward.cons (wf : t.WellFormed) (sorted : t.SortedUpTo finish reach) {target : R}
    (hle : f.position ≤ target) {calls rest : List TriggerCall} {moved others : Moved R}
    (first : Passes t f target calls moved)
    (next : Onward moved.track reach moved.follower rest others) :
    Onward t reach f (calls ++ rest)
      ⟨others.follower, others.track, moved.crossings ++ others.crossings⟩ where
  passed := by
    have later := first.settled.layout.symm.passed next.passed
    have hnew := next.onward
    rw [first.position] at later hnew
    exact (first.crossed.passed reach).append wf sorted later hle hnew
  triggered := by
    have hfirst := first.triggered
    have hnext := next.triggered
    rw [first.crosser, Prod.ext_iff] at hnext
    rw [Prod.ext_iff] at hfirst
    rw [Track.triggerAll_append, ← hfirst.1, ← hfirst.2, ← hnext.1, ← hnext.2, Array.toList_append]
  onward := by
    have := next.onward
    rw [first.position] at this
    exact hle.trans this

/-- Steps forward trigger the events on their way, and with enough of them the goal is reached. -/
theorem exists_onward_walkSteps (wf : t.WellFormed) (sorted : t.SortedUpTo finish reach)
    (here : t.Contains f.element f.position) (hstep : 0 < step) (fuel : Nat)
    (enough : goal ≤ f.position + fuel * step) :
    ∃ calls, Onward t reach f calls (walkSteps step goal fuel f t #[]) ∧
      goal ≤ (walkSteps step goal fuel f t #[]).follower.position := by
  induction fuel generalizing f t with
  | zero => exact ⟨[], onward_stay t reach f, by simpa [walkSteps] using enough⟩
  | succ fuel ih =>
    unfold walkSteps
    split_ifs with hgoal
    · have ahead : f.position ≤ f.position + step := le_add_of_nonneg_right hstep.le
      obtain ⟨his, hstart, -⟩ := contains_iff.1 here
      have start := (startOf_le_startOf wf (Nat.zero_le _) his).trans (hstart.trans ahead)
      have first := passes_moveTo wf here ⟨true, true⟩ start
      obtain ⟨rest, next, reached⟩ := ih (first.settled.layout.wellFormed wf)
        (first.settled.layout.sortedUpTo sorted) first.settled.contains (by
          rw [first.position]
          push_cast at enough
          linarith)
      dsimp only [moveBy]
      rw [walkSteps_crossings, Array.empty_append]
      exact ⟨_, Onward.cons wf sorted ahead first next, reached⟩
    · exact ⟨[], onward_stay t reach f, not_lt.1 hgoal⟩

/-! ## A whole walk -/

theorem stepsEnough_spec (hstep : 0 < step) (position : R) :
    goal ≤ position + stepsEnough step goal position * step := by
  have floor := ExactScalar.lt_floorNat_add_one ((goal - position) / step)
  rw [div_lt_iff₀ hstep] at floor
  have more : (Scalar.floorNat ((goal - position) / step) + 1 : R) ≤
      stepsEnough step goal position := by
    have : Scalar.floorNat ((goal - position) / step) + 1 ≤ stepsEnough step goal position := by
      unfold stepsEnough
      omega
    exact_mod_cast this
  have := mul_le_mul_of_nonneg_right more hstep.le
  linarith

theorem step_pos (step : R) : 0 < Scalar.max step leastStep := by
  rw [ExactScalar.max_eq, leastStep, ExactScalar.fixed_eq]
  exact lt_max_of_lt_right (by norm_num)

/-- Of what a walk crosses, the part up to the end of the track is what one move to the end
crosses, however long the steps are; it is all that the walk crosses if there is nothing behind the
end. The walk itself goes beyond the end by a step. -/
theorem walk_upTo_end (wf : t.WellFormed) (sorted : t.SortedUpTo finish reach)
    (hend : t.endPosition? = some finish) (here : t.Contains f.element f.position)
    (hle : f.position ≤ finish) (step : R) :
    let walked := f.walk t step
    let straight := f.moveTo t ⟨true, true⟩ finish
    finish + Scalar.max step leastStep ≤ walked.follower.position ∧
      walked.crossings.toList.filter (fun x => decide (x.event.offset ≤ reach)) =
        straight.crossings.toList ∧
      ((∀ (i : Nat) (e : Element R), t.elements[i]? = some e → ∀ ev ∈ e.events,
        ev.offset ≤ reach) → walked.crossings = straight.crossings) := by
  intro walked straight
  have hstep := step_pos step
  obtain ⟨calls, onward, reached⟩ := exists_onward_walkSteps wf sorted here hstep _
    (stepsEnough_spec hstep f.position)
  have whole : walked = walkSteps (Scalar.max step leastStep) (finish + Scalar.max step leastStep)
      (stepsEnough (Scalar.max step leastStep) (finish + Scalar.max step leastStep) f.position)
      f t #[] := by
    simp only [walked, walk, hend]
  rw [← whole] at onward reached
  obtain ⟨his, hstart, -⟩ := contains_iff.1 here
  have start := (startOf_le_startOf wf (Nat.zero_le _) his).trans (hstart.trans hle)
  have direct : Passes t f finish (f.calls t finish) straight := passes_moveTo wf here _ start
  have upTo : calls.filter (t.isWithin reach) = f.calls t finish :=
    onward.passed.filter_eq sorted direct.crossed hle (by linarith)
  have walkedCrossings : walked.crossings.toList = (t.triggerAll f.crosser calls).2 :=
    congrArg Prod.snd onward.triggered
  have straightCrossings : straight.crossings.toList =
      (t.triggerAll f.crosser (calls.filter (t.isWithin reach))).2 := by
    rw [upTo]
    exact congrArg Prod.snd direct.triggered
  refine ⟨reached, ?_, fun all => ?_⟩
  · have places := onward.passed.places onward.onward
    rw [walkedCrossings, straightCrossings, Track.filter_crossings_triggerAll _ _ places]
  · have within : calls.filter (t.isWithin reach) = calls :=
      List.filter_eq_self.2 fun call hcall => by
        obtain ⟨e, ev, he, hev, -⟩ := onward.passed.exists_event onward.onward hcall
        exact Track.isWithin_iff.2
          ⟨ev, Track.event?_eq_some.2 ⟨e, he, hev⟩, all _ e he ev (List.mem_of_getElem? hev)⟩
    rw [within] at straightCrossings
    exact Array.toList_inj.1 (walkedCrossings.trans straightCrossings.symm)

end Follower

/-! ## Assembled tracks -/

theorem Follower.contains_zero_assemble {R : Type} [ExactScalar R] {l : Line R} (t : Tables R)
    (blocks : 0 < l.blocks.size) (hi : 0 < l.interval) : (Assembly.assemble l t).Contains 0 0 := by
  have he := Array.getElem?_eq_getElem (show 0 < (Assembly.assemble l t).elements.size by
    rwa [Assembly.size_assemble])
  obtain ⟨-, hstart, -⟩ := Assembly.eq_of_getElem?_assemble he
  rw [l.blockStart_zero] at hstart
  refine ⟨_, he, hstart.le, fun next hnext => ?_⟩
  obtain ⟨-, hnext, -⟩ := Assembly.eq_of_getElem?_assemble hnext
  rw [hnext, l.blockStart_succ, l.blockStart_zero, zero_add]
  exact hi

namespace Assembly

variable {R : Type} [ExactScalar R] {l : Line R} {t : Tables R}

/-- Only in the last element may an event lie as far as a block's length behind the start, and there
it lies at or behind the end of the track. -/
theorem offset_le_interval_iff (hi : 0 < l.interval)
    (nonneg : ∀ x ∈ sortedEvents l t.train, 0 ≤ x.1) {i : Nat} {e : Element R}
    (he : (assemble l t).elements[i]? = some e) {ev : Event R} (hev : ev ∈ e.events) :
    ev.offset ≤ l.interval ↔ e.start + ev.offset ≤ l.blockStart l.blocks.size := by
  obtain ⟨hlt, hstart, -⟩ := eq_of_getElem?_assemble he
  rcases (show i + 1 ≤ l.blocks.size by omega).eq_or_lt with hlast | hlast
  · rw [← hlast, Line.blockStart_succ, hstart, add_le_add_iff_left]
  · have next := Array.getElem?_eq_getElem (show i + 1 < (assemble l t).elements.size by
      rwa [size_assemble])
    obtain ⟨d, hd, -, hbefore⟩ := contains_of_mem_events t hi nonneg he hev
    have inside := hbefore _ next
    rw [(eq_of_getElem?_assemble next).2.1, Line.blockStart_succ, hstart, add_lt_add_iff_left]
      at inside
    have upTo := Line.blockStart_le_blockStart hi (show i + 1 ≤ l.blocks.size by omega)
    rw [Line.blockStart_succ] at upTo
    exact ⟨fun _ => by rw [hstart]; linarith, fun _ => inside.le⟩

theorem sortedUpTo_assemble (hi : 0 < l.interval)
    (nonneg : ∀ x ∈ sortedEvents l t.train, 0 ≤ x.1) :
    (assemble l t).SortedUpTo (l.blockStart l.blocks.size) l.interval where
  le_reach_iff i e he ev hev := offset_le_interval_iff hi nonneg he hev
  sorted i e he := by
    obtain ⟨-, -, hevents⟩ := eq_of_getElem?_assemble he
    rw [hevents]
    refine List.pairwise_append.2 ⟨?_, ?_, fun a _ b hb ha _ => ?_⟩
    · refine List.pairwise_map.2 (((stablySorted_sortedEvents l t.train).sorted.filter _).imp ?_)
      intro x y hxy _ _
      exact sub_le_sub_right (of_decide_eq_true hxy) _
    · unfold endIn
      split_ifs <;> simp
    · obtain ⟨-, rfl⟩ := mem_endIn.1 hb
      exact ha

/-- If no marker ends behind the blocks, nothing lies behind the end of the track. -/
theorem offset_le_interval (hi : 0 < l.interval) (stands : l.Stands l.Covers)
    (finishes : ∀ m ∈ l.markers, 0 ≤ m.finish ∧ m.finish ≤ l.blockStart l.blocks.size) {i : Nat}
    {e : Element R} (he : (assemble l t).elements[i]? = some e) {ev : Event R}
    (hev : ev ∈ e.events) : ev.offset ≤ l.interval := by
  have nonneg := liesAt_sortedEvents (stands.mono fun _ h => h.1) (fun m hm => (finishes m hm).1)
    hi t.train
  have starts : ∀ j < l.blocks.size, l.Covers (l.blockStart j) := fun j hj => by
    refine ⟨Line.blockStart_nonneg hi j, (lt_add_of_pos_right _ hi).trans_le ?_⟩
    rw [← Line.blockStart_succ]
    exact Line.blockStart_le_blockStart hi hj
  have alarm : ∀ p : R, l.Covers p → l.Covers (Scalar.max (p - passAlarmDistance) 0) := by
    rintro p ⟨hp, hlt⟩
    have distance : (0 : R) ≤ passAlarmDistance := by
      rw [passAlarmDistance, ExactScalar.ofNat_eq]
      positivity
    rw [ExactScalar.max_eq]
    exact ⟨le_max_right _ _, max_lt (by linarith) (by linarith)⟩
  rw [offset_le_interval_iff hi (fun x hx => (nonneg x hx).1) he hev]
  obtain ⟨-, hstart, hevents⟩ := eq_of_getElem?_assemble he
  rw [hevents, List.mem_append] at hev
  rcases hev with hev | hev
  · obtain ⟨x, hx, rfl⟩ := List.mem_map.1 hev
    have collected := (stablySorted_sortedEvents l t.train).perm.mem_iff.1 (List.mem_filter.1 hx).1
    rw [hstart, add_sub_cancel]
    obtain ⟨hcovers | ⟨m, hm, hfinish⟩, -⟩ :=
      liesAt_collectEvents stands alarm starts t.train collected
    · exact hcovers.2.le
    · exact hfinish ▸ (finishes m hm).2
  · obtain ⟨hlast, rfl⟩ := mem_endIn.1 hev
    rw [hstart, ← hlast, Line.blockStart_succ]

end Assembly

end RailRoute
