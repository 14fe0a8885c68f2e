import Mathlib
import RailRoute.Proofs.Block.Admission
import RailRoute.Proofs.Block.Editing

/-!
# Everything named is there

Blocks name stations, stops, sections and objects by number, and so do sections and stops on
request. Whatever is laid, and in whatever order of positions, each of these numbers names
something that is there; stops and opened sections stand in exactly one block. `Laying.Intact` says
all this at once, a lemma for each kind of change keeps it, and `intact_run` is the main statement.
-/

namespace RailRoute

/-- Whether a list holds all that has a property, each once, and nothing else. -/
structure Enumerates {α : Type} (xs : List α) (P : α → Prop) : Prop where
  nodup : xs.Nodup
  mem_iff : ∀ x, x ∈ xs ↔ P x

namespace Enumerates

variable {α : Type} {xs ys : List α} {P Q : α → Prop}

theorem congr (h : Enumerates xs P) (perm : ys.Perm xs) (hQ : ∀ x, Q x ↔ P x) :
    Enumerates ys Q where
  nodup := perm.nodup_iff.2 h.nodup
  mem_iff x := by rw [perm.mem_iff, h.mem_iff, hQ]

theorem snoc (h : Enumerates xs P) {a : α} (new : ¬ P a) (perm : ys.Perm (xs ++ [a]))
    (hQ : ∀ x, Q x ↔ P x ∨ x = a) : Enumerates ys Q where
  nodup := by
    rw [perm.nodup_iff, ← List.concat_eq_append, List.nodup_concat]
    exact ⟨fun ha => new ((h.mem_iff a).1 ha), h.nodup⟩
  mem_iff x := by rw [perm.mem_iff, List.mem_append, List.mem_singleton, h.mem_iff, hQ]

end Enumerates

variable {R : Type}

/-- The numbers of sections that the blocks of a line list. -/
def Line.sectionMarks (l : Line R) : List Nat := l.blocks.toList.flatMap (·.sections.toList)

/-- The stops that the blocks of a line list. -/
def Line.stopMarks (l : Line R) : List (Nat × Nat) := l.blocks.toList.flatMap (·.stops.toList)

/-- Whether all that a block names is there. -/
structure Block.Sound (t : Tables R) (stations : Nat) (b : Block R) : Prop where
  station : ∀ i ∈ b.station, i < stations
  rails : ∀ o ∈ b.freeObjects, o.rail ∈ b.rails
  freeObjects : ∀ o ∈ b.freeObjects, t.structures.contains .freeObj o.object
  walls : ∀ (rail : Nat) (w : Wall), b.walls[rail]? = some w → w.Loaded t.structures .wallL .wallR
  dikes : ∀ (rail : Nat) (w : Wall), b.dikes[rail]? = some w → w.Loaded t.structures .dikeL .dikeR
  poles : ∀ (rail : Nat) (p : Pole R), b.poles[rail]? = some p →
    t.structures.containsPole p.additionalRails p.object
  signals : ∀ x ∈ b.signals, x.head.Loaded t.signals
  transponders : ∀ x ∈ b.transponders, ∀ i ∈ x.beaconStructure, t.structures.contains .beacon i

/-- Whether all that a line names while it is laid is there. -/
structure Laying.Intact (t : Tables R) (s : Laying R) : Prop where
  block : s.block < s.line.blocks.size
  signalSection : s.signalSection < s.line.sections.size
  station : ∀ i ∈ s.station, i < s.line.stations.size
  blocks : ∀ b ∈ s.line.blocks, b.Sound t s.line.stations.size
  /-- Every section but the first stands in one block. -/
  sectionMarks : Enumerates s.line.sectionMarks fun i => 1 ≤ i ∧ i < s.line.sections.size
  /-- Every stop of a station stands in one block. -/
  stopMarks : Enumerates s.line.stopMarks fun x =>
    ∃ st, s.line.stations[x.1]? = some st ∧ x.2 < st.stops.size
  requestStops : ∀ x ∈ s.line.requestStops, ∀ i ∈ x.station, i < s.line.stations.size
  departures : ∀ x ∈ s.line.sections, ∀ i ∈ x.departureStation,
    ∃ st, s.line.stations[i]? = some st ∧ st.forcedRedSignal
  departures_nodup : (s.line.sections.toList.filterMap (·.departureStation)).Nodup
  /-- The flag stands for a search among the sections. -/
  held : s.stationHeld = false → ∀ x ∈ s.line.sections, ∀ i ∈ x.departureStation,
    s.station ≠ some i

/-! ## Lists along the blocks -/

section Marks

variable {β : Type} {g : Block R → List β}

/-- What is added to one block is added to the list of all. -/
theorem flatMap_modify_perm {blocks : Array (Block R)} {i : Nat} (hi : i < blocks.size)
    {f : Block R → Block R} {ys : List β} (hf : ∀ b, g (f b) = g b ++ ys) :
    ((blocks.modify i f).toList.flatMap g).Perm (blocks.toList.flatMap g ++ ys) := by
  obtain ⟨bs⟩ := blocks
  have hi : i < bs.length := hi
  have parts : bs = bs.take i ++ bs[i] :: bs.drop (i + 1) := by simp
  rw [Array.toList_modify, List.modify_eq_take_cons_drop hi]
  conv_rhs => rw [parts]
  simp only [List.flatMap_append, List.flatMap_cons, hf, List.append_assoc]
  exact (List.perm_append_comm.append_left _).append_left _

theorem flatMap_modify_eq {blocks : Array (Block R)} {i : Nat} {f : Block R → Block R}
    (hf : ∀ b, g (f b) = g b) :
    (blocks.modify i f).toList.flatMap g = blocks.toList.flatMap g := by
  have same : (blocks.modify i f).map g = blocks.map g :=
    Array.ext_getElem? fun k => by simpa using Laying.map_modify_of_eq blocks i k hf
  simpa [List.flatMap_def] using congrArg (·.toList.flatten) same

variable [Scalar R]

/-- Added blocks bring nothing along that they do not take over. -/
theorem flatMap_appendBlocks (bare : ∀ b : Block R, g b.inherit = []) (n : Nat)
    {blocks : Array (Block R)} (hs : 0 < blocks.size) :
    (Line.appendBlocks n blocks).toList.flatMap g = blocks.toList.flatMap g := by
  induction n generalizing blocks with
  | zero => rfl
  | succ n ih =>
    obtain ⟨last, -, next⟩ := Line.exists_nextBlock_eq hs
    rw [Line.appendBlocks, ih (by simp), next]
    simp [bare]

end Marks

namespace IndexMap

variable {α : Type} {m : IndexMap α} {P : α → Prop}

theorem forall_insert (h : ∀ (i : Nat) (x : α), m[i]? = some x → P x) (k : Nat) {y : α} (hy : P y)
    (i : Nat) (x : α) (hx : (m.insert k y)[i]? = some x) : P x := by
  rw [Std.TreeMap.getElem?_insert] at hx
  split_ifs at hx
  · exact Option.some.inj hx ▸ hy
  · exact h i x hx

theorem forall_erase (h : ∀ (i : Nat) (x : α), m[i]? = some x → P x) (k i : Nat) (x : α)
    (hx : (m.erase k)[i]? = some x) : P x := by
  rw [Std.TreeMap.getElem?_erase] at hx
  split_ifs at hx
  exact h i x hx

end IndexMap

/-! ## Blocks -/

namespace Block.Sound

variable {t : Tables R} {n : Nat} {b : Block R}

theorem mono (h : b.Sound t n) {m : Nat} (hnm : n ≤ m) : b.Sound t m :=
  { h with station := fun i hi => (h.station i hi).trans_le hnm }

/-- Rails may change as long as none is taken away. -/
theorem withRails (h : b.Sound t n) {rails : IndexMap (Rail R)}
    (kept : ∀ i, i ∈ b.rails → i ∈ rails) : ({ b with rails := rails } : Block R).Sound t n :=
  { h with rails := fun o ho => kept _ (h.rails o ho) }

theorem pushFreeObject (h : b.Sound t n) {o : FreeObject R} (rail : o.rail ∈ b.rails)
    (object : t.structures.contains .freeObj o.object) :
    ({ b with freeObjects := b.freeObjects.push o } : Block R).Sound t n :=
  { h with
    rails := Array.forall_mem_push.2 ⟨rail, h.rails⟩
    freeObjects := Array.forall_mem_push.2 ⟨object, h.freeObjects⟩ }

variable [Scalar R]

/-- Of what is named, a new block takes over walls, dikes and poles. -/
theorem inherit (h : b.Sound t n) : b.inherit.Sound t n where
  station _ hi := by simp [Block.inherit] at hi
  rails _ ho := by simp [Block.inherit] at ho
  freeObjects _ ho := by simp [Block.inherit] at ho
  walls := h.walls
  dikes := h.dikes
  poles := h.poles
  signals _ hx := by simp [Block.inherit] at hx
  transponders _ hx := by simp [Block.inherit] at hx

theorem initial (t : Tables R) (n : Nat) (height : R) : (Block.initial height).Sound t n where
  station _ hi := by simp [Block.initial] at hi
  rails _ ho := by simp [Block.initial] at ho
  freeObjects _ ho := by simp [Block.initial] at ho
  walls _ _ hw := by simp [Block.initial] at hw
  dikes _ _ hw := by simp [Block.initial] at hw
  poles _ _ hp := by simp [Block.initial] at hp
  signals _ hx := by simp [Block.initial] at hx
  transponders _ hx := by simp [Block.initial] at hx

end Block.Sound

/-! ## Changes -/

namespace Laying

variable {t : Tables R} {s : Laying R}

theorem forall_mem_modify {blocks : Array (Block R)} {P Q : Block R → Prop} {i : Nat}
    {f : Block R → Block R} (all : ∀ b ∈ blocks, P b) (weaker : ∀ b, P b → Q b)
    (changed : ∀ b, blocks[i]? = some b → P b → Q (f b)) : ∀ b ∈ blocks.modify i f, Q b := by
  intro b hb
  rcases mem_of_mem_modify hb with hb | ⟨c, hc, rfl⟩
  · exact weaker b (all b hb)
  · exact changed c hc (all c (Array.mem_of_getElem? hc))

theorem sectionMarks_modifyBlock (l : Line R) {i : Nat} {f : Block R → Block R}
    (hf : ∀ b, (f b).sections = b.sections) : (l.modifyBlock i f).sectionMarks = l.sectionMarks :=
  flatMap_modify_eq fun b => by rw [hf]

theorem stopMarks_modifyBlock (l : Line R) {i : Nat} {f : Block R → Block R}
    (hf : ∀ b, (f b).stops = b.stops) : (l.modifyBlock i f).stopMarks = l.stopMarks :=
  flatMap_modify_eq fun b => by rw [hf]

/-- A change of one block that leaves its sections and stops alone. -/
theorem Intact.modifyBlockAt (h : s.Intact t) {i : Nat} {f : Block R → Block R}
    (sound : ∀ b, s.line.blocks[i]? = some b → b.Sound t s.line.stations.size →
      (f b).Sound t s.line.stations.size)
    (sections : ∀ b, (f b).sections = b.sections := by exact fun _ => rfl)
    (stops : ∀ b, (f b).stops = b.stops := by exact fun _ => rfl) :
    Intact t { s with line := s.line.modifyBlock i f } :=
  { h with
    block := by simpa [Line.modifyBlock] using h.block
    blocks := forall_mem_modify h.blocks (fun _ hb => hb) sound
    sectionMarks := h.sectionMarks.congr (.of_eq (sectionMarks_modifyBlock _ sections))
      fun _ => Iff.rfl
    stopMarks := h.stopMarks.congr (.of_eq (stopMarks_modifyBlock _ stops)) fun _ => Iff.rfl }

/-- A change of the current block that leaves its sections and stops alone. -/
theorem Intact.modifyBlock (h : s.Intact t) {f : Block R → Block R}
    (sound : ∀ b, s.line.blocks[s.block]? = some b → b.Sound t s.line.stations.size →
      (f b).Sound t s.line.stations.size)
    (sections : ∀ b, (f b).sections = b.sections := by exact fun _ => rfl)
    (stops : ∀ b, (f b).stops = b.stops := by exact fun _ => rfl) : (s.modifyBlock f).Intact t :=
  h.modifyBlockAt sound sections stops

/-- A rail that starts or moves also changes the block before, but takes no rail away. -/
theorem Intact.startRail (h : s.Intact t) (rail : Nat) (offset : Vec2 R) :
    (s.startRail rail offset).Intact t := by
  have started : (s.modifyBlock fun b =>
      { b with rails := b.rails.insert rail ⟨true, true, false, offset, offset⟩ }).Intact t :=
    h.modifyBlock fun b _ hb => hb.withRails fun i hi => Std.TreeMap.mem_insert.2 (Or.inr hi)
  unfold Laying.startRail
  dsimp only
  split_ifs
  · exact started
  · exact started.modifyBlockAt fun b _ hb =>
      hb.withRails fun i hi => Std.TreeMap.mem_modify.2 hi

/-! ### Sections -/

/-- What a new section holds its signal for has a red signal to hold, and no section holds it
yet. -/
theorem departureStation_eq_some {i : Nat} (hi : s.departureStation = some i) :
    s.station = some i ∧ (∃ st, s.line.stations[i]? = some st ∧ st.forcedRedSignal) ∧
      s.stationHeld = false := by
  unfold departureStation at hi
  split at hi
  · cases hi
  · split at hi
    · cases hi
    · rename_i st hst
      split_ifs at hi with hred
      obtain rfl := Option.some.inj hi
      rw [Bool.and_eq_true, Bool.not_eq_true'] at hred
      exact ⟨‹_›, ⟨st, hst, hred.1⟩, hred.2⟩

theorem Intact.openSection (h : s.Intact t) (aspects : List Nat) (kind : SectionKind) :
    (s.openSection aspects kind).Intact t := by
  have first : 1 ≤ s.line.sections.size := Nat.one_le_of_lt h.signalSection
  have held : ∀ i, s.departureStation = some i →
      ∀ x ∈ s.line.sections, x.departureStation ≠ some i := by
    intro i hi x hx hxi
    obtain ⟨here, -, free⟩ := departureStation_eq_some hi
    exact h.held free x hx i hxi here
  simp only [Laying.openSection, Laying.modifyBlock, Line.modifyBlock]
  exact
    { block := by simpa using h.block
      signalSection := by simp
      station := h.station
      blocks := by
        dsimp only
        refine forall_mem_modify h.blocks (fun _ hb => hb) ?_
        exact fun _ _ hb => { hb with }
      sectionMarks := by
        refine h.sectionMarks.snoc (a := s.line.sections.size) (by omega)
          (flatMap_modify_perm h.block fun b => by simp) fun i => ?_
        rw [Array.size_push]
        omega
      stopMarks := h.stopMarks.congr (.of_eq (stopMarks_modifyBlock s.line fun _ => rfl))
        fun _ => Iff.rfl
      requestStops := h.requestStops
      departures := by
        refine Array.forall_mem_push.2 ⟨fun i hi => ?_, h.departures⟩
        exact (departureStation_eq_some hi).2.1
      departures_nodup := by
        rw [Array.toList_push, List.filterMap_append]
        refine List.nodup_append.2 ⟨h.departures_nodup, ?_, ?_⟩
        · cases s.departureStation <;> simp
        · rintro i hi j hj rfl
          obtain ⟨x, hx, hxi⟩ := List.mem_filterMap.1 hi
          exact held i (by simpa using hj) x (Array.mem_toList_iff.1 hx) hxi
      held := by
        intro free x hx i hi
        rw [Bool.or_eq_false_iff] at free
        rcases Array.mem_push.1 hx with hx | rfl
        · exact h.held free.1 x hx i hi
        · have free : s.departureStation = none := by simpa using free.2
          have hi : s.departureStation = some i := hi
          rw [free] at hi
          cases hi }

/-! ### Stations -/

theorem Intact.openStation (h : s.Intact t) {st : Station R} (bare : st.stops = #[]) :
    (s.openStation st).Intact t := by
  have kept {i : Nat} {x : Station R} (hx : s.line.stations[i]? = some x) :
      (s.line.stations.push st)[i]? = some x := by
    obtain ⟨hi, -⟩ := Array.getElem?_eq_some_iff.1 hx
    rw [Array.getElem?_push_lt hi, ← Array.getElem?_eq_getElem hi, hx]
  simp only [Laying.openStation, Laying.modifyBlock, Line.modifyBlock]
  exact
    { block := by simpa using h.block
      signalSection := h.signalSection
      station := by simp
      blocks := by
        dsimp only
        rw [Array.size_push]
        refine forall_mem_modify h.blocks (fun _ hb => hb.mono (Nat.le_succ _)) fun _ _ hb => ?_
        exact { hb with station := by simp }
      sectionMarks := h.sectionMarks.congr (.of_eq (sectionMarks_modifyBlock s.line fun _ => rfl))
        fun _ => Iff.rfl
      stopMarks := by
        refine h.stopMarks.congr (.of_eq (stopMarks_modifyBlock s.line fun _ => rfl)) fun x => ?_
        constructor
        · rintro ⟨st', hst', hlt⟩
          rw [Array.getElem?_push] at hst'
          split_ifs at hst' with hx
          · obtain rfl := Option.some.inj hst'
            simp [bare] at hlt
          · exact ⟨st', hst', hlt⟩
        · rintro ⟨st', hst', hlt⟩
          exact ⟨st', kept hst', hlt⟩
      requestStops := fun x hx i hi => (h.requestStops x hx i hi).trans (by simp)
      departures := fun x hx i hi => by
        obtain ⟨st', hst', red⟩ := h.departures x hx i hi
        exact ⟨st', kept hst', red⟩
      departures_nodup := h.departures_nodup
      held := by
        rintro - x hx i hi ⟨⟩
        obtain ⟨st', hst', -⟩ := h.departures x hx _ hi
        simp at hst' }

theorem Intact.addStop (h : s.Intact t) (station : Nat) (stop : StopPoint R) :
    (s.addStop station stop).Intact t := by
  cases hst : s.line.stations[station]? with
  | none => rwa [addStop_of_none hst]
  | some st =>
    have same (i : Nat) : (s.line.stations.modify station fun st =>
        { st with stops := st.stops.push stop })[i]? = s.line.stations[i]?.map fun st' =>
          if station = i then { st' with stops := st'.stops.push stop } else st' := by
      by_cases hi : station = i <;> simp [Array.getElem?_modify, hi]
    simp only [Laying.addStop, hst, Laying.modifyBlock, Line.modifyBlock]
    exact
      { block := by simpa using h.block
        signalSection := h.signalSection
        station := fun i hi => by simpa using h.station i hi
        blocks := by
          dsimp only
          rw [Array.size_modify]
          refine forall_mem_modify h.blocks (fun _ hb => hb) ?_
          exact fun _ _ hb => { hb with }
        sectionMarks := h.sectionMarks.congr (.of_eq (sectionMarks_modifyBlock s.line fun _ => rfl))
          fun _ => Iff.rfl
        stopMarks := by
          refine h.stopMarks.snoc (a := (station, st.stops.size)) ?_
            (flatMap_modify_perm h.block fun b => by simp) fun x => ?_
          · simp [hst]
          · obtain ⟨i, k⟩ := x
            rw [same]
            by_cases hi : station = i
            · subst hi
              simp [hst]
              omega
            · simp [hi, Ne.symm hi]
        requestStops := fun x hx i hi => by simpa using h.requestStops x hx i hi
        departures := fun x hx i hi => by
          obtain ⟨st', hst', red⟩ := h.departures x hx i hi
          refine ⟨_, by rw [same, hst', Option.map_some], ?_⟩
          split_ifs <;> exact red
        departures_nodup := h.departures_nodup
        held := h.held }

/-! ### Any change -/

variable [Scalar R]

theorem currentBlock_eq {b : Block R} (hb : s.line.blocks[s.block]? = some b) :
    s.currentBlock = b := by
  rw [currentBlock, hb, Option.getD_some]

/-- An admitted action leaves everything named there. -/
theorem intact_apply (h : s.Intact t) {a : Action R} (ha : a.Admitted t s) :
    (a.apply s).Intact t := by
  cases a
  case startRail rail offset => exact h.startRail rail offset
  case endRail rail finish =>
    exact h.modifyBlock fun b _ hb => hb.withRails fun i hi => Std.TreeMap.mem_modify.2 hi
  case addFreeObject o =>
    refine h.modifyBlock fun b hb sound => ?_
    exact sound.pushFreeObject (currentBlock_eq hb ▸ ha.1) ha.2
  case setWall rail wall =>
    exact h.modifyBlock fun b _ hb => { hb with walls := IndexMap.forall_insert hb.walls rail ha }
  case setDike rail dike =>
    exact h.modifyBlock fun b _ hb => { hb with dikes := IndexMap.forall_insert hb.dikes rail ha }
  case setPole rail pole =>
    exact h.modifyBlock fun b _ hb => { hb with poles := IndexMap.forall_insert hb.poles rail ha }
  case endWall rail =>
    exact h.modifyBlock fun b _ hb => { hb with walls := IndexMap.forall_erase hb.walls rail }
  case endDike rail =>
    exact h.modifyBlock fun b _ hb => { hb with dikes := IndexMap.forall_erase hb.dikes rail }
  case endPole rail =>
    exact h.modifyBlock fun b _ hb => { hb with poles := IndexMap.forall_erase hb.poles rail }
  case addSignal signal =>
    exact h.modifyBlock fun b _ hb =>
      { hb with signals := Array.forall_mem_push.2 ⟨ha, hb.signals⟩ }
  case addTransponder transponder =>
    exact h.modifyBlock fun b _ hb =>
      { hb with transponders := Array.forall_mem_push.2 ⟨ha.2, hb.transponders⟩ }
  case openSection aspects kind => exact h.openSection aspects kind
  case openSignal head aspects placement =>
    exact (h.openSection aspects .indexBased).modifyBlock fun b _ hb =>
      { hb with signals := Array.forall_mem_push.2 ⟨ha, hb.signals⟩ }
  case openStation station => exact h.openStation ha.2
  case addStop station stop => exact h.addStop station stop
  case addRequestStop stop =>
    refine { h with requestStops := Array.forall_mem_push.2 ⟨fun i hi => ?_, h.requestStops⟩ }
    exact h.station i (ha ▸ hi)
  case addMarker | addBuffer | addPointOfInterest => exact { h with }
  all_goals exact h.modifyBlock fun b _ hb => { hb with }

theorem intact_moveTo (h : s.Intact t) (position : R) : (s.moveTo position).Intact t := by
  have hs : 0 < s.line.blocks.size := Nat.zero_lt_of_lt h.block
  exact
    { h with
      block := by
        rw [size_moveTo, moveTo_block]
        omega
      blocks := forall_mem_moveTo (fun _ hb => hb.inherit) hs h.blocks position
      sectionMarks := h.sectionMarks.congr
        (.of_eq (flatMap_appendBlocks (fun _ => rfl) _ hs)) fun _ => Iff.rfl
      stopMarks := h.stopMarks.congr
        (.of_eq (flatMap_appendBlocks (fun _ => rfl) _ hs)) fun _ => Iff.rfl }

theorem intact_initial (t : Tables R) (interval height : R) :
    (initial interval height).Intact t where
  block := Nat.one_pos
  signalSection := Nat.one_pos
  station _ hi := by simp [initial] at hi
  blocks b hb := by
    obtain rfl := mem_blocks_initial.1 hb
    exact Block.Sound.initial t _ height
  sectionMarks := ⟨List.nodup_nil, fun i => by
    simp [initial, Line.initial, Line.sectionMarks, Block.initial]
    omega⟩
  stopMarks := ⟨List.nodup_nil, fun x => by
    simp [initial, Line.initial, Line.stopMarks, Block.initial]⟩
  requestStops _ hx := by simp [initial, Line.initial] at hx
  departures x hx i hi := by
    obtain rfl : x = Line.firstSection := by simpa [initial, Line.initial] using hx
    simp [Line.firstSection] at hi
  departures_nodup := by simp [initial, Line.initial, Line.firstSection]
  held _ _ _ _ _ := by simp [initial]

/-- Whatever is laid, everything named is there. -/
theorem intact_run {ds : List (Deed R)} (h : s.Intact t)
    (admitted : ∀ i ∈ s.issues ds, i.action.Admitted t i.laying) : (s.run ds).Intact t :=
  run_induction h (fun _ position _ hs => intact_moveTo hs position)
    fun i hi hs => intact_apply hs (admitted i hi)

end Laying

end RailRoute
