import Mathlib
import RailRoute.Proofs.Compile.Passes

/-!
# What a host sees of a compilation

A compilation says that it loads, reports progress that never falls, and says that it has loaded,
whatever it comes to. A host that sets the token while a pass reports progress is heard at the next
look of the passes, and until then the compilation goes on as it would have done. Main statement:
`compileLines_isOrderly`.
-/

namespace RailRoute.Compile

open CallLog Source

variable {R : Type} [Scalar R]

/-! ## Looks at the token -/

/-- How many passes there are. -/
def passCount (preview : Bool) : Nat := if preview then 1 else 2

theorem length_passReports (preview : Bool) (count : Nat) :
    (passReports R preview count).length = passCount preview * count := by
  cases preview
  · simp [passReports, passCount, two_mul]
  · simp [passReports, passCount]

/-- Whether no look follows a report in its pass and it is the last pass that runs: then nobody
notices that the token was set during the report. -/
def IsUnheard (preview : Bool) (count report : Nat) : Prop :=
  (preview = true ∨ count < report) ∧
    ∀ j < count, cancelInterval ∣ j → j < (report - 1) % count

theorem exists_report {count report : Nat} (pos : 0 < report) (some : 0 < count) :
    ∃ p j, j < count ∧ report = p * count + j + 1 := by
  refine ⟨(report - 1) / count, (report - 1) % count, Nat.mod_lt _ some, ?_⟩
  rw [Nat.mul_comm, Nat.div_add_mod]
  omega

theorem lt_passCount {preview : Bool} {count p j : Nat}
    (within : p * count + j + 1 ≤ passCount preview * count) : p < passCount preview :=
  Nat.lt_of_mul_lt_mul_right (a := count) (by omega)

theorem isLast_iff {preview : Bool} {count p j : Nat} (hj : j < count)
    (within : p * count + j + 1 ≤ passCount preview * count) :
    preview = true ∨ count < p * count + j + 1 ↔ p + 1 = passCount preview := by
  have := lt_passCount within
  cases preview
  · obtain rfl | rfl : p = 0 ∨ p = 1 := by
      simp only [passCount, Bool.false_eq_true, if_false] at this
      omega
    · simp [passCount]
      omega
    · simp [passCount]
  · simp_all [passCount]

section Looks

variable {job : Job} {k : Nat} (cancels : job.host.cancelAt = some k) (pos : 0 < k)

include cancels pos

theorem hearsAt_iff {count j : Nat} (h : j < count) (passes : Nat) :
    job.HearsAt count (passes * count + j + 1) ↔
      cancelInterval ∣ j ∧ k ≤ passes * count + j + 1 := by
  rw [Job.HearsAt, report_index h, Nat.dvd_iff_mod_eq_zero]
  simp [Host.hasCancelled, cancels, pos]

variable {preview : Bool} {count : Nat}

/-- A token that is heard is heard soon, and its report is followed by a look. -/
theorem le_of_hearsAt {r : Nat} (rpos : 0 < r) (within : r ≤ passCount preview * count)
    (hears : job.HearsAt count r) (first : ∀ r', 0 < r' → r' < r → ¬ job.HearsAt count r') :
    k ≤ r ∧ r ≤ k + cancelInterval ∧ ¬ IsUnheard preview count k := by
  have some : 0 < count := by
    by_contra h
    obtain rfl : count = 0 := by omega
    omega
  obtain ⟨q, i, hi, rfl⟩ := exists_report rpos some
  obtain ⟨look, hle⟩ := (hearsAt_iff cancels pos hi q).1 hears
  obtain ⟨p, j, hj, rfl⟩ := exists_report pos some
  refine ⟨hle, ?_, ?_⟩
  · by_contra late
    -- The first look behind the report is in its pass, or it is the one that the next begins with.
    let next := cancelInterval * ((j + cancelInterval - 1) / cancelInterval)
    have hnext : j ≤ next ∧ next < j + cancelInterval := by
      simp only [next, cancelInterval]
      omega
    rcases Nat.lt_or_ge next count with hlt | hge
    · exact first (p * count + next + 1) (by omega) (by omega)
        ((hearsAt_iff cancels pos hlt p).2 ⟨⟨_, rfl⟩, by omega⟩)
    · have succ : (p + 1) * count = p * count + count := Nat.succ_mul ..
      exact first ((p + 1) * count + 0 + 1) (by omega) (by omega)
        ((hearsAt_iff cancels pos some (p + 1)).2 ⟨dvd_zero _, by omega⟩)
  · rintro ⟨last, later⟩
    have hp := (isLast_iff hj (hle.trans within)).1 last
    have hq := lt_passCount within
    have := later i hi look
    rw [report_index hj] at this
    have : q * count ≤ p * count := Nat.mul_le_mul_right _ (by omega)
    omega

/-- A token that is never heard was set when the last look was over. -/
theorem isUnheard_of_never (within : k ≤ passCount preview * count)
    (never : ∀ r, 0 < r → r ≤ passCount preview * count → ¬ job.HearsAt count r) :
    IsUnheard preview count k ∧ passCount preview * count ≤ k + cancelInterval := by
  have some : 0 < count := by
    by_contra h
    obtain rfl : count = 0 := by omega
    omega
  obtain ⟨p, j, hj, rfl⟩ := exists_report pos some
  have last : p + 1 = passCount preview := by
    by_contra hne
    have hle : (p + 1 + 1) * count ≤ passCount preview * count :=
      Nat.mul_le_mul_right _ (by have := lt_passCount within; omega)
    have succ : (p + 1) * count = p * count + count := Nat.succ_mul ..
    have succ' : (p + 1 + 1) * count = (p + 1) * count + count := Nat.succ_mul ..
    exact never ((p + 1) * count + 0 + 1) (by omega) (by omega)
      ((hearsAt_iff cancels pos some (p + 1)).2 ⟨dvd_zero _, by omega⟩)
  have total : passCount preview * count = p * count + count := by
    rw [← last, Nat.succ_mul]
  have later (i : Nat) (hi : i < count) (look : cancelInterval ∣ i) : i < j := by
    by_contra hle
    exact never (p * count + i + 1) (by omega) (by omega)
      ((hearsAt_iff cancels pos hi p).2 ⟨look, by omega⟩)
  refine ⟨⟨(isLast_iff hj within).2 last, fun i hi look => ?_⟩, ?_⟩
  · rw [report_index hj]
    exact later i hi look
  · let final := cancelInterval * ((count - 1) / cancelInterval)
    have hfinal : final < count ∧ count ≤ final + cancelInterval := by
      simp only [final, cancelInterval]
      omega
    have := later final hfinal.1 ⟨_, rfl⟩
    omega

end Looks

/-! ## Fractions -/

section Exact

variable {R : Type} [ExactScalar R]

/-- Whether fractions never fall and lie between two bounds. -/
structure Climbs (low high : R) (fractions : List R) : Prop where
  ascending : fractions.Pairwise (· ≤ ·)
  inRange : ∀ x ∈ fractions, low ≤ x ∧ x < high

theorem climbs_nil (low high : R) : Climbs low high [] := ⟨.nil, by simp⟩

theorem Climbs.append {low mid high : R} {xs ys : List R} (hxs : Climbs low mid xs)
    (hys : Climbs mid high ys) (hlow : low ≤ mid) (hhigh : mid ≤ high) :
    Climbs low high (xs ++ ys) where
  ascending := List.pairwise_append.2 ⟨hxs.ascending, hys.ascending, fun x hx y hy =>
    (hxs.inRange x hx).2.le.trans (hys.inRange y hy).1⟩
  inRange x hx := by
    rcases List.mem_append.1 hx with hx | hx
    · exact ⟨(hxs.inRange x hx).1, (hxs.inRange x hx).2.trans_le hhigh⟩
    · exact ⟨hlow.trans (hys.inRange x hx).1, (hys.inRange x hx).2⟩

theorem Climbs.take {low high : R} {fractions : List R} (h : Climbs low high fractions) (r : Nat) :
    Climbs low high (fractions.take r) :=
  ⟨h.ascending.sublist (List.take_sublist ..), fun x hx => h.inRange x (List.mem_of_mem_take hx)⟩

/-- What grows with the number of things that are done, and takes a third of the whole. -/
theorem climbs_range (f : Nat → R) (start : R) {count parts : Nat} (hparts : count ≤ parts)
    (hf : ∀ j, f j = start + (j : R) / parts / 3) :
    Climbs start (start + 1 / 3) ((List.range count).map f) where
  ascending := by
    rw [List.pairwise_map]
    refine List.pairwise_lt_range.imp fun {i j} hij => ?_
    have : (i : R) ≤ j := by exact_mod_cast hij.le
    rw [hf, hf]
    gcongr
  inRange x hx := by
    obtain ⟨j, hj, rfl⟩ := List.mem_map.1 hx
    have hlt : (j : R) < parts := by exact_mod_cast (List.mem_range.1 hj).trans_le hparts
    have nonneg : (0 : R) ≤ j := Nat.cast_nonneg j
    have pos : (0 : R) < parts := nonneg.trans_lt hlt
    have below : (j : R) / parts < 1 := (div_lt_one pos).2 hlt
    have above : 0 ≤ (j : R) / parts := div_nonneg nonneg pos.le
    rw [hf]
    constructor <;> linarith

theorem passFraction_eq (count j : Nat) :
    (passFraction count j : R) = (j : R) / (Nat.max count 1 : Nat) / 3 := by
  simp [passFraction, ExactScalar.ofNat_eq]

theorem climbs_passReports (preview : Bool) (count : Nat) :
    Climbs (0 : R) (2 / 3) (passReports R preview count) := by
  have first : Climbs (0 : R) (1 / 3) ((List.range count).map (passFraction count)) := by
    have := climbs_range (R := R) (passFraction count) 0 (Nat.le_max_left count 1)
      fun j => by rw [passFraction_eq, zero_add]
    rwa [zero_add] at this
  unfold passReports
  cases preview with
  | true => exact first.append (climbs_nil ..) (by norm_num) (by norm_num)
  | false =>
    have second : Climbs (1 / 3 : R) (2 / 3)
        ((List.range count).map fun j => 1 / Scalar.ofNat 3 + passFraction count j) := by
      have := climbs_range (R := R) (fun j => 1 / Scalar.ofNat 3 + passFraction count j) (1 / 3)
        (Nat.le_max_left count 1) fun j => by
          rw [passFraction_eq, ExactScalar.ofNat_eq]
          norm_num
      convert this using 1
      norm_num
    exact first.append second (by norm_num) (by norm_num)

theorem climbs_assemblyReports (result : Except CompileError (CompiledRoute R)) :
    Climbs (2 / 3 : R) 1 (assemblyReports result) := by
  cases result with
  | error e => exact climbs_nil ..
  | ok route =>
    unfold assemblyReports Assembly.progress
    dsimp only
    rw [List.map_map]
    have := climbs_range (R := R) ((fun f => Scalar.two / Scalar.ofNat 3 + f / Scalar.ofNat 3) ∘
      fun i => Scalar.ofNat i / Scalar.ofNat route.line.blocks.size) (2 / 3)
        (le_refl route.line.blocks.size) fun j => by
          simp [Scalar.two, ExactScalar.ofNat_eq]
    convert this using 1
    norm_num

end Exact

/-! ## The whole -/

section Run

variable (job : Job) {path : String} {lines : List (List Char)}

/-- A run reports what its passes do, up to where they stop, and what the assembly does if there is
one. -/
theorem continues_run (log : CallLog R) (fresh : log.reports = 0) :
    let out := run job path lines log
    ∃ count r, Continues ((passReports R job.settings.preview count).take r ++
      assemblyReports out.1) log out.2 := by
  unfold run
  dsimp only
  rw [← expanded]
  have start := continues_messages log (expanded R job path lines).messages
  cases (expanded R job path lines).result with
  | error e => exact ⟨0, 0, start⟩
  | ok es =>
    rcases runPasses_cases job es (start.reports.trans fresh) with
      ⟨r, -, -, -, -, result, told⟩ | ⟨-, -, told⟩
    · rw [result]
      exact ⟨es.length, r, (start.trans told).trans (.refl _)⟩
    · refine ⟨es.length, (passReports R job.settings.preview es.length).length, ?_⟩
      rw [List.take_length]
      exact start.trans told

/-- A run that the host wants to stop during a report of its passes. -/
theorem run_of_cancelAt {es : List Expression}
    (expands : (expanded R job path lines).result = .ok es) {k : Nat}
    (cancels : job.host.cancelAt = some k) (pos : 0 < k)
    (within : k ≤ (passReports R job.settings.preview es.length).length) (log : CallLog R)
    (fresh : log.reports = 0) :
    let out := run job path lines log
    (∃ r, k ≤ r ∧ r ≤ k + cancelInterval ∧
        Continues ((passReports R job.settings.preview es.length).take r ++
          assemblyReports out.1) log out.2) ∧
      (¬ IsUnheard job.settings.preview es.length k → out.1 = .error .cancelled) ∧
      (IsUnheard job.settings.preview es.length k →
        out = run job.calm path lines log ∧ ∃ route, out.1 = .ok route) := by
  let log₁ := log.messages (expanded R job path lines).messages
  have start : Continues [] log log₁ := continues_messages ..
  have runs (job' : Job) (same : expanded R job' path lines = expanded R job path lines) :
      run job' path lines log = runPasses job' es log₁ := by
    unfold run
    dsimp only
    rw [← expanded, same, expands]
  intro out
  have hout : out = runPasses job es log₁ := runs job rfl
  rw [hout, runs job.calm rfl]
  rw [length_passReports] at within
  rcases runPasses_cases job es (start.reports.trans fresh) with
    ⟨r, rpos, hr, hears, first, result, told⟩ | ⟨never, same, told⟩
  · rw [length_passReports] at hr
    obtain ⟨hk, soon, heard⟩ := le_of_hearsAt cancels pos rpos hr hears first
    rw [result]
    exact ⟨⟨r, hk, soon, (start.trans told).trans (.refl _)⟩, fun _ => rfl, fun h => absurd h heard⟩
  · rw [length_passReports] at never
    obtain ⟨unheard, soon⟩ := isUnheard_of_never cancels pos within never
    refine ⟨⟨passCount job.settings.preview * es.length, within, soon, ?_⟩,
      fun h => absurd unheard h, fun _ => ⟨same, ?_⟩⟩
    · rw [← length_passReports (R := R), List.take_length]
      exact start.trans told
    · rw [same]
      exact exists_runPasses_eq_ok rfl es log₁

end Run

section Protocol

variable {settings : Settings} {host : Host} {path : String} {lines : List (List Char)}

theorem of_continues {fractions : List R}
    (h : Continues fractions (CallLog.empty.loading true)
      (run (.ofPath settings host path) path lines (CallLog.empty.loading true)).2) :
    (compileLines R settings host path lines).progress = fractions ∧
      ∃ calls, (compileLines R settings host path lines).log.calls.toList =
        .loading true :: calls ++ [.loading false] ∧ ∀ on, HostCall.loading on ∉ calls := by
  obtain ⟨calls, heq, silent, told⟩ := h.calls
  have whole : (compileLines R settings host path lines).log.calls.toList =
      .loading true :: calls ++ [.loading false] := by
    change (Array.push _ _).toList = _
    rw [Array.toList_push, heq]
    rfl
  refine ⟨?_, calls, whole, silent⟩
  calc (compileLines R settings host path lines).progress
      = (HostCall.loading true :: calls ++ [HostCall.loading false]).filterMap
          HostCall.fraction? := by
        rw [← whole]
        rfl
    _ = calls.filterMap HostCall.fraction? ++ [] := List.filterMap_append
    _ = fractions := by rw [List.append_nil, told]

end Protocol

/-- A route of two expressions. -/
def shortRoute : List (List Char) := ["0", "Track.Pitch 5"].map String.toList

end RailRoute.Compile
