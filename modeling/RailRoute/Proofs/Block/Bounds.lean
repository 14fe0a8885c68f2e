import Mathlib
import RailRoute.Proofs.Arithmetic
import RailRoute.Proofs.Block.Admission
import RailRoute.Proofs.Block.Editing

/-!
# Where things stand

What is placed stands at the position that is current then, and the blocks reach beyond every
position that was gone to. So nothing stands before the start of the line or behind its last block,
except that a marker may end behind it. Main statement: `inBounds_run`.
-/

namespace RailRoute

variable {R : Type}

/-- Whether all that trains meet stands at positions with a property. Of a marker this is where it
begins. -/
structure Line.Stands (l : Line R) (P : R → Prop) : Prop where
  stations : ∀ x ∈ l.stations, P x.position
  stops : ∀ x ∈ l.stations, ∀ stop ∈ x.stops, P stop.position
  sections : ∀ x ∈ l.sections, P x.position
  limits : ∀ b ∈ l.blocks, ∀ x ∈ b.limits, P x.position
  sounds : ∀ b ∈ l.blocks, ∀ x ∈ b.sounds, P x.position
  transponders : ∀ b ∈ l.blocks, ∀ x ∈ b.transponders, P x.position
  markers : ∀ x ∈ l.markers, P x.start

namespace Line.Stands

variable {l : Line R} {P Q : R → Prop}

theorem mono (h : l.Stands P) (hPQ : ∀ x, P x → Q x) : l.Stands Q where
  stations x hx := hPQ _ (h.stations x hx)
  stops x hx stop hstop := hPQ _ (h.stops x hx stop hstop)
  sections x hx := hPQ _ (h.sections x hx)
  limits b hb x hx := hPQ _ (h.limits b hb x hx)
  sounds b hb x hx := hPQ _ (h.sounds b hb x hx)
  transponders b hb x hx := hPQ _ (h.transponders b hb x hx)
  markers x hx := hPQ _ (h.markers x hx)

theorem modifyBlock (h : l.Stands P) {i : Nat} {f : Block R → Block R}
    (limits : ∀ b, ∀ x ∈ (f b).limits, x ∈ b.limits ∨ P x.position := by
      exact fun _ _ hx => Or.inl hx)
    (sounds : ∀ b, ∀ x ∈ (f b).sounds, x ∈ b.sounds ∨ P x.position := by
      exact fun _ _ hx => Or.inl hx)
    (transponders : ∀ b, ∀ x ∈ (f b).transponders, x ∈ b.transponders ∨ P x.position := by
      exact fun _ _ hx => Or.inl hx) : (l.modifyBlock i f).Stands P := by
  have changed {α : Type} {part : Block R → Array α} {Q : α → Prop}
      (old : ∀ b ∈ l.blocks, ∀ x ∈ part b, Q x) (new : ∀ b, ∀ x ∈ part (f b), x ∈ part b ∨ Q x) :
      ∀ b ∈ l.blocks.modify i f, ∀ x ∈ part b, Q x := by
    intro b hb x hx
    rcases Laying.mem_of_mem_modify hb with hb | ⟨c, hc, rfl⟩
    · exact old b hb x hx
    · exact (new c x hx).elim (old c (Array.mem_of_getElem? hc) x) id
  exact
    { h with
      limits := changed h.limits limits
      sounds := changed h.sounds sounds
      transponders := changed h.transponders transponders }

end Line.Stands

namespace Laying

variable {t : Tables R} {s : Laying R}

section Stands

variable {P : R → Prop} (h : s.line.Stands P) (here : P s.position)

include h here

theorem stands_openSection (aspects : List Nat) (kind : SectionKind) :
    (s.openSection aspects kind).line.Stands P := by
  have marked : (s.line.modifyBlock s.block fun b =>
      { b with sections := b.sections.push s.line.sections.size }).Stands P := h.modifyBlock
  exact { marked with sections := Array.forall_mem_push.2 ⟨here, h.sections⟩ }

theorem stands_openStation {st : Station R} (hst : st.position = s.position)
    (bare : st.stops = #[]) : (s.openStation st).line.Stands P := by
  have marked : (s.line.modifyBlock s.block fun b =>
      { b with station := some s.line.stations.size }).Stands P := h.modifyBlock
  exact
    { marked with
      stations := Array.forall_mem_push.2 ⟨hst ▸ here, h.stations⟩
      stops := Array.forall_mem_push.2 ⟨by simp [bare], h.stops⟩ }

theorem stands_addStop (station : Nat) {stop : StopPoint R} (hstop : stop.position = s.position) :
    (s.addStop station stop).line.Stands P := by
  cases hst : s.line.stations[station]? with
  | none => rwa [addStop_of_none hst]
  | some st =>
    have marked : (s.line.modifyBlock s.block fun b =>
        { b with stops := b.stops.push (station, st.stops.size) }).Stands P := h.modifyBlock
    have changed : ∀ x ∈ s.line.stations.modify station fun st =>
        { st with stops := st.stops.push stop },
        P x.position ∧ ∀ stop ∈ x.stops, P stop.position := by
      intro x hx
      rcases mem_of_mem_modify hx with hx | ⟨y, hy, rfl⟩
      · exact ⟨h.stations x hx, h.stops x hx⟩
      · have hy := Array.mem_of_getElem? hy
        exact ⟨h.stations y hy, Array.forall_mem_push.2 ⟨hstop ▸ here, h.stops y hy⟩⟩
    simp only [Laying.addStop, hst]
    exact
      { marked with
        stations := fun x hx => (changed x hx).1
        stops := fun x hx => (changed x hx).2 }

end Stands

end Laying

variable [Scalar R]

/-- Whether the blocks of a line reach beyond a position, which does not lie before them. -/
def Line.Covers (l : Line R) (x : R) : Prop := 0 ≤ x ∧ x < l.blockStart l.blocks.size

/-- Whether all that stands along a line while it is laid stands on its blocks, as does the current
position. -/
structure Laying.InBounds (s : Laying R) : Prop where
  interval : 0 < s.line.interval
  covered : s.line.Covers s.position
  stands : s.line.Stands s.line.Covers
  finishes : ∀ x ∈ s.line.markers, 0 ≤ x.finish

namespace Laying

variable {t : Tables R} {s : Laying R}

theorem covers_apply (a : Action R) (s : Laying R) : (a.apply s).line.Covers = s.line.Covers := by
  funext x
  simp only [Line.Covers, Line.blockStart, a.apply_interval, a.size_apply]

theorem apply_position (a : Action R) (s : Laying R) : (a.apply s).position = s.position := by
  cases a
  case startRail rail offset =>
    simp only [Action.apply, Laying.startRail]
    split_ifs <;> rfl
  case addStop station stop =>
    simp only [Action.apply, Laying.addStop]
    split <;> rfl
  all_goals rfl

/-- What an action places stands at the current position; only a marker may begin before it. -/
theorem stands_apply {P : R → Prop} (h : s.line.Stands P) (here : P s.position) {a : Action R}
    (ha : a.Admitted t s) (marker : ∀ m, a = .addMarker m → P m.start) :
    (a.apply s).line.Stands P := by
  have kept {α : Type} {part : Block R → Array α} {position : α → R} :
      ∀ b : Block R, ∀ y ∈ part b, y ∈ part b ∨ P (position y) := fun _ _ hy => Or.inl hy
  have pushed {α : Type} {part : Block R → Array α} {position : α → R} {x : α}
      (hx : position x = s.position) :
      ∀ b : Block R, ∀ y ∈ (part b).push x, y ∈ part b ∨ P (position y) := fun b y hy =>
    (Array.mem_push.1 hy).imp_right fun hy => by rwa [hy, hx]
  cases a
  case startRail rail offset =>
    simp only [Action.apply, Laying.startRail]
    split_ifs
    · exact h.modifyBlock
    · exact h.modifyBlock.modifyBlock
  case openSection aspects kind => exact stands_openSection h here aspects kind
  case openSignal head aspects placement =>
    exact (stands_openSection h here aspects .indexBased).modifyBlock
  case openStation station => exact stands_openStation h here ha.1 ha.2
  case addStop station stop => exact stands_addStop h here station ha.2
  case addLimit limit => exact h.modifyBlock (pushed ha)
  case addSound sound => exact h.modifyBlock kept (pushed ha)
  case addTransponder transponder => exact h.modifyBlock kept kept (pushed ha.1)
  case addMarker m => exact { h with markers := Array.forall_mem_push.2 ⟨marker m rfl, h.markers⟩ }
  case addRequestStop | addBuffer | addPointOfInterest => exact { h with }
  all_goals exact h.modifyBlock

theorem mem_markers_apply {a : Action R} {m : Marker R} (hm : m ∈ (a.apply s).line.markers) :
    m ∈ s.line.markers ∨ a = .addMarker m := by
  cases a
  case startRail rail offset =>
    simp only [Action.apply, Laying.startRail] at hm
    split_ifs at hm <;> exact Or.inl hm
  case addStop station stop =>
    simp only [Action.apply, Laying.addStop] at hm
    split at hm <;> exact Or.inl hm
  case addMarker m' =>
    rcases Array.mem_push.1 hm with hm | rfl
    · exact Or.inl hm
    · exact Or.inr rfl
  all_goals exact Or.inl hm

theorem stands_moveTo {P : R → Prop} (h : s.line.Stands P) (hs : 0 < s.line.blocks.size)
    (position : R) : (s.moveTo position).line.Stands P :=
  { h with
    limits := forall_mem_moveTo (fun _ _ _ hx => by simp [Block.inherit] at hx) hs h.limits position
    sounds := forall_mem_moveTo (fun _ _ _ hx => by simp [Block.inherit] at hx) hs h.sounds position
    transponders :=
      forall_mem_moveTo (fun _ _ _ hx => by simp [Block.inherit] at hx) hs h.transponders position }

theorem stands_initial {P : R → Prop} (zero : P 0) (interval height : R) :
    (initial interval height).line.Stands P where
  stations _ hx := by simp [initial, Line.initial] at hx
  stops _ hx := by simp [initial, Line.initial] at hx
  sections x hx := by
    obtain rfl : x = Line.firstSection := by simpa [initial, Line.initial] using hx
    exact zero
  limits b hb x hx := by
    obtain rfl := mem_blocks_initial.1 hb
    simp [Block.initial] at hx
  sounds b hb x hx := by
    obtain rfl := mem_blocks_initial.1 hb
    simp [Block.initial] at hx
  transponders b hb x hx := by
    obtain rfl := mem_blocks_initial.1 hb
    simp [Block.initial] at hx
  markers _ hx := by simp [initial, Line.initial] at hx

end Laying

/-! ## Exact positions -/

section Exact

variable {R : Type} [ExactScalar R]

namespace Line

variable {l : Line R}

theorem blockStart_zero (l : Line R) : l.blockStart 0 = 0 := by
  simp [blockStart, ExactScalar.ofNat_eq]

theorem blockStart_succ (l : Line R) (i : Nat) :
    l.blockStart (i + 1) = l.blockStart i + l.interval := by
  simp only [blockStart, ExactScalar.ofNat_eq]
  push_cast
  ring

theorem blockStart_le_blockStart (hi : 0 < l.interval) {i j : Nat} (h : i ≤ j) :
    l.blockStart i ≤ l.blockStart j := by
  simp only [blockStart, ExactScalar.ofNat_eq]
  exact mul_le_mul_of_nonneg_right (Nat.cast_le.2 h) hi.le

theorem blockStart_nonneg (hi : 0 < l.interval) (i : Nat) : 0 ≤ l.blockStart i :=
  l.blockStart_zero ▸ blockStart_le_blockStart hi (Nat.zero_le i)

theorem Covers.mono {l' : Line R} (hi : 0 < l.interval) (interval : l'.interval = l.interval)
    (size : l.blocks.size ≤ l'.blocks.size) {x : R} (h : l.Covers x) : l'.Covers x := by
  have same : l'.blockStart = l.blockStart := by
    funext i
    rw [blockStart, blockStart, interval]
  refine ⟨h.1, h.2.trans_le ?_⟩
  rw [same]
  exact blockStart_le_blockStart hi size

theorem Covers.size_pos {x : R} (h : l.Covers x) : 0 < l.blocks.size := by
  refine Nat.pos_of_ne_zero fun none => ?_
  have behind := h.1.trans_lt h.2
  rw [none, blockStart_zero] at behind
  exact lt_irrefl _ behind

/-- The block of a position reaches beyond it. -/
theorem lt_blockStart_blockIndex (hi : 0 < l.interval) (x : R) :
    x < l.blockStart (l.blockIndex x + 1) := by
  have below := ExactScalar.lt_floorNat_add_one (x / l.interval + Scalar.fixed 1 3)
  have tolerance : (0 : R) ≤ Scalar.fixed 1 3 := by
    rw [ExactScalar.fixed_eq]
    positivity
  have inside : x / l.interval < (l.blockIndex x + 1 : Nat) := by
    push_cast
    exact (le_add_of_nonneg_right tolerance).trans_lt below
  rw [blockStart, ExactScalar.ofNat_eq]
  exact (div_lt_iff₀ hi).1 inside

theorem blockIndex_le_blockIndex (l : Line R) {p q : R} (hp : 0 ≤ p) (hpq : p ≤ q) :
    l.blockIndex p ≤ l.blockIndex q := by
  rcases le_or_gt l.interval 0 with hi | hi
  · -- With a length that is not positive, nothing but the first block is ever reached.
    have low : p / l.interval + Scalar.fixed 1 3 ≤ 1 / 1000 := by
      have := div_nonpos_of_nonneg_of_nonpos hp hi
      rw [ExactScalar.fixed_eq]
      norm_num
      linarith
    have first : (Scalar.floorNat (1 / 1000 : R) : R) < 1 :=
      (ExactScalar.floorNat_le (1 / 1000 : R) (by norm_num)).trans_lt (by norm_num)
    have rounded : l.blockIndex p ≤ Scalar.floorNat (1 / 1000 : R) := ExactScalar.floorNat_mono low
    have : Scalar.floorNat (1 / 1000 : R) < 1 := by exact_mod_cast first
    omega
  · exact OrderedScalar.floorNat_le_floorNat (not_le.2 hi) hpq

end Line

namespace Laying

variable {t : Tables R} {s : Laying R}

theorem inBounds_moveTo (h : s.InBounds) {position : R} (hp : 0 ≤ position) :
    (s.moveTo position).InBounds := by
  have size := size_moveTo s position
  exact
    { interval := h.interval
      covered := by
        refine ⟨hp, (Line.lt_blockStart_blockIndex h.interval position).trans_le ?_⟩
        have reached : s.line.blockIndex position + 1 ≤ (s.moveTo position).line.blocks.size := by
          omega
        exact Line.blockStart_le_blockStart h.interval reached
      stands := (stands_moveTo h.stands h.covered.size_pos position).mono fun x hx => by
        refine Line.Covers.mono h.interval ?_ ?_ hx
        · rfl
        · omega
      finishes := h.finishes }

theorem inBounds_apply (h : s.InBounds) {a : Action R} (ha : a.Admitted t s) :
    (a.apply s).InBounds where
  interval := by
    rw [a.apply_interval]
    exact h.interval
  covered := by
    rw [apply_position, covers_apply]
    exact h.covered
  stands := by
    rw [covers_apply]
    refine stands_apply h.stands h.covered ha fun m hm => ?_
    subst hm
    obtain ⟨hpos, hend⟩ := h.covered
    obtain ⟨d, -, hstart, -⟩ | ⟨d, hd, hstart, -⟩ : m.StandsAt s.position := ha
    · exact hstart ▸ h.covered
    · rw [hstart, ExactScalar.max_eq]
      exact ⟨le_max_right _ _, max_lt (by linarith) (by linarith)⟩
  finishes m hm := by
    rcases mem_markers_apply hm with hm | rfl
    · exact h.finishes m hm
    · have hpos := h.covered.1
      obtain ⟨d, hd, -, hfinish⟩ | ⟨d, -, -, hfinish⟩ : m.StandsAt s.position := ha
      · rw [hfinish]
        exact add_nonneg hpos (not_lt.1 hd)
      · exact hfinish ▸ hpos

theorem inBounds_initial {interval : R} (hi : 0 < interval) (height : R) :
    (initial interval height).InBounds := by
  have covered : (initial interval height).line.Covers 0 := by
    refine ⟨le_rfl, ?_⟩
    simpa [Line.blockStart, initial, Line.initial, ExactScalar.ofNat_eq] using hi
  exact
    { interval := hi
      covered := covered
      stands := stands_initial covered interval height
      finishes := fun m hm => by simp [initial, Line.initial] at hm }

/-- Nothing is placed off the blocks. -/
theorem inBounds_run {ds : List (Deed R)} (h : s.InBounds) (hds : ∀ p ∈ positions ds, 0 ≤ p)
    (admitted : ∀ i ∈ s.issues ds, i.action.Admitted t i.laying) : (s.run ds).InBounds :=
  run_induction h (fun _ p hp hs => inBounds_moveTo hs (hds p hp))
    fun i hi hs => inBounds_apply hs (admitted i hi)

end Laying

end Exact

end RailRoute
