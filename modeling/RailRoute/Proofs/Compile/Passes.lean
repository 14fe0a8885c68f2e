import Mathlib
import RailRoute.Proofs.Compile.Outcome
import RailRoute.Proofs.Compile.Scopes
import RailRoute.Proofs.Source.Sorting

/-!
# Passes that can be stopped

Both passes report progress before each expression and look at the token now and then. So they are
told from the reports they make and from the first look that finds the token set: up to there the
compilation goes on as if nobody could set it. Main statement: `runPasses_cases`.
-/

namespace RailRoute

variable {R : Type}

/-! ## Calls -/

/-- The fraction that a call reports. -/
def HostCall.fraction? : HostCall R → Option R
  | .progress x => some x
  | _ => none

namespace CallLog

/-- Whether one log continues another with reports of some fractions, and with messages, but without
a word about loading. -/
structure Continues (fractions : List R) (log log' : CallLog R) : Prop where
  calls : ∃ calls, log'.calls.toList = log.calls.toList ++ calls ∧
    (∀ on, HostCall.loading on ∉ calls) ∧ calls.filterMap HostCall.fraction? = fractions
  reports : log'.reports = log.reports + fractions.length

theorem Continues.refl (log : CallLog R) : Continues [] log log :=
  ⟨⟨[], by simp⟩, rfl⟩

theorem Continues.trans {xs ys : List R} {log log' log'' : CallLog R} (h : Continues xs log log')
    (h' : Continues ys log' log'') : Continues (xs ++ ys) log log'' := by
  obtain ⟨calls, heq, silent, told⟩ := h.calls
  obtain ⟨calls', heq', silent', told'⟩ := h'.calls
  refine ⟨⟨calls ++ calls', ?_, fun on hon => ?_, ?_⟩, ?_⟩
  · rw [heq', heq, List.append_assoc]
  · exact (List.mem_append.1 hon).elim (silent on) (silent' on)
  · rw [List.filterMap_append, told, told']
  · rw [h'.reports, h.reports, List.length_append, Nat.add_assoc]

theorem continues_progress (log : CallLog R) (x : R) : Continues [x] log (log.progress x) :=
  ⟨⟨[.progress x], by simp [progress, HostCall.fraction?]⟩, rfl⟩

theorem continues_messages (log : CallLog R) (ms : List Message) :
    Continues [] log (log.messages ms) := by
  refine ⟨⟨ms.map .message, by simp [messages], by simp, ?_⟩, rfl⟩
  rw [List.filterMap_map]
  exact List.filterMap_eq_nil_iff.2 fun _ _ => rfl

theorem continues_foldl_progress (fractions : List R) (log : CallLog R) :
    Continues fractions log (fractions.foldl progress log) := by
  induction fractions generalizing log with
  | nil => exact .refl log
  | cons x xs ih => exact (continues_progress log x).trans (ih _)

end CallLog

namespace Compile

open CallLog Source

/-! ## A pass -/

/-- The job with a host that never sets the token. -/
def Job.calm (job : Job) : Job := { job with host := { job.host with cancelAt := none } }

/-- What both passes have in common: before each expression, from number `j` on, they report
progress and look at the token. -/
def passFrom {σ : Type} (job : Job) (fraction : Nat → R)
    (step : σ → Expression → σ × List Problem) :
    Nat → List Expression → σ → CallLog R → Option σ × CallLog R
  | _, [], s, log => (some s, log)
  | j, e :: es, s, log =>
    let log := log.progress (fraction j)
    if stopsAt job j log.reports then (none, log)
    else
      let next := step s e
      passFrom job fraction step (j + 1) es next.1 (log.problems e next.2)

section Pass

variable {σ : Type} (job : Job) (fraction : Nat → R) (step : σ → Expression → σ × List Problem)

/-- A pass stops at the first look that finds the token set, and else it runs as if nobody could set
the token. -/
theorem passFrom_cases (j : Nat) (es : List Expression) (s : σ) (log : CallLog R) :
    let out := passFrom job fraction step j es s log
    (∃ i < es.length, stopsAt job (j + i) (log.reports + i + 1) = true ∧
        (∀ i' < i, stopsAt job (j + i') (log.reports + i' + 1) = false) ∧ out.1 = none ∧
        Continues ((List.range' j (i + 1)).map fraction) log out.2) ∨
      (∀ i < es.length, stopsAt job (j + i) (log.reports + i + 1) = false) ∧
        out = passFrom job.calm fraction step j es s log ∧ (∃ s', out.1 = some s') ∧
        Continues ((List.range' j es.length).map fraction) log out.2 := by
  induction es generalizing j s log with
  | nil => exact .inr ⟨by simp, rfl, ⟨s, rfl⟩, .refl log⟩
  | cons e es ih =>
    intro out
    have reports := continues_progress log (fraction j)
    by_cases stops : stopsAt job j (log.reports + 1) = true
    · have hout : out = (none, log.progress (fraction j)) := by
        simp only [out, passFrom]
        exact if_pos stops
      rw [hout]
      exact .inl ⟨0, by simp, stops, by simp, rfl, reports⟩
    · let next := step s e
      let log' := (log.progress (fraction j)).problems e next.2
      have hout : out = passFrom job fraction step (j + 1) es next.1 log' := by
        simp only [out, passFrom]
        exact if_neg stops
      have calm : passFrom job.calm fraction step j (e :: es) s log =
          passFrom job.calm fraction step (j + 1) es next.1 log' := by
        simp only [passFrom]
        exact if_neg (by simp [stopsAt, Host.hasCancelled, Job.calm])
      have here : Continues [fraction j] log log' := reports.trans (continues_messages _ _)
      have shift (i : Nat) : stopsAt job (j + 1 + i) (log'.reports + i + 1) =
          stopsAt job (j + (i + 1)) (log.reports + (i + 1) + 1) := by
        rw [here.reports, List.length_singleton]
        congr 1 <;> omega
      have first : stopsAt job (j + 0) (log.reports + 0 + 1) = false := by simpa using stops
      rw [hout, calm]
      rcases ih (j + 1) next.1 log' with ⟨i, hi, hstop, before, ends, told⟩ |
        ⟨goesOn, same, ends, told⟩
      · refine .inl ⟨i + 1, by simpa using hi, (shift i).symm.trans hstop, fun i' hi' => ?_, ends,
          here.trans told⟩
        cases i' with
        | zero => exact first
        | succ i' => exact (shift i').symm.trans (before i' (by omega))
      · refine .inr ⟨fun i hi => ?_, same, ends, here.trans told⟩
        cases i with
        | zero => exact first
        | succ i => exact (shift i).symm.trans (goesOn i (by simpa using hi))

/-- Whether the passes over so many expressions look at the token behind a report and find it set.
The reports of both passes are counted together, from one. -/
def Job.HearsAt (job : Job) (count report : Nat) : Prop :=
  (report - 1) % count % cancelInterval = 0 ∧ job.host.hasCancelled report = true

theorem report_index {count j : Nat} (h : j < count) (passes : Nat) :
    (passes * count + j + 1 - 1) % count = j := by
  rw [Nat.add_sub_cancel, Nat.mul_comm, Nat.mul_add_mod, Nat.mod_eq_of_lt h]

theorem stopsAt_iff {count j : Nat} (h : j < count) (passes : Nat) :
    stopsAt job j (passes * count + j + 1) = true ↔
      job.HearsAt count (passes * count + j + 1) := by
  rw [Job.HearsAt, report_index h, stopsAt, Bool.and_eq_true, decide_eq_true_eq]

/-- What a pass over `count` expressions comes to behind `ahead` reports: it stops at the first look
that finds the token set, and else comes to what it would if nobody could set the token. -/
def Job.Passes (job : Job) (count ahead : Nat) (reports : List R) (log : CallLog R)
    (out calm : Option σ × CallLog R) : Prop :=
  (∃ i < count, job.HearsAt count (ahead + i + 1) ∧
      (∀ i' < i, ¬ job.HearsAt count (ahead + i' + 1)) ∧ out.1 = none ∧
      Continues (reports.take (i + 1)) log out.2) ∨
    (∀ i < count, ¬ job.HearsAt count (ahead + i + 1)) ∧ out = calm ∧ (∃ s, out.1 = some s) ∧
      Continues reports log out.2

theorem passes_passFrom {es : List Expression} {count : Nat} (size : es.length = count) (s : σ)
    {log : CallLog R} {passes : Nat} (start : log.reports = passes * count) :
    job.Passes count log.reports ((List.range count).map fraction) log
      (passFrom job fraction step 0 es s log) (passFrom job.calm fraction step 0 es s log) := by
  subst size
  have stops (i : Nat) (hi : i < es.length) :
      stopsAt job (0 + i) (log.reports + i + 1) = true ↔
        job.HearsAt es.length (log.reports + i + 1) := by
    rw [start, Nat.zero_add, stopsAt_iff job hi]
  have goesOn (i : Nat) (hi : i < es.length)
      (h : stopsAt job (0 + i) (log.reports + i + 1) = false) :
      ¬ job.HearsAt es.length (log.reports + i + 1) := by
    rw [← stops i hi, h]
    simp
  rcases passFrom_cases job fraction step 0 es s log with ⟨i, hi, hstop, before, ends, told⟩ |
    ⟨never, same, ends, told⟩
  · refine .inl ⟨i, hi, (stops i hi).1 hstop, fun i' hi' => goesOn i' (hi'.trans hi) (before i' hi'),
      ends, ?_⟩
    rw [← List.range_eq_range'] at told
    rwa [← List.map_take, List.take_range, Nat.min_eq_left hi]
  · refine .inr ⟨fun i hi => goesOn i hi (never i hi), same, ends, ?_⟩
    rwa [← List.range_eq_range'] at told

end Pass

/-! ## Both passes -/

variable [Scalar R]

theorem gatherFrom_eq_passFrom (job : Job) (count j : Nat) (es : List Expression)
    (g : Gathering R) (log : CallLog R) : gatherFrom job count j es g log =
      passFrom job (passFraction count) (gatherOne job) j es g log := by
  induction es generalizing j g log with
  | nil => rfl
  | cons e es ih =>
    unfold gatherFrom passFrom
    simp only [ih]

theorem passes_gather (job : Job) (t : Tables R) {es : List Expression} {count : Nat}
    (size : es.length = count) {log : CallLog R} (start : log.reports = 0) :
    job.Passes count 0 ((List.range count).map (passFraction count)) log (gather job t es log)
      (gather job.calm t es log) := by
  have passes := passes_passFrom job (passFraction count) (gatherOne job) size (gatherStart job t)
    (start.trans (Nat.zero_mul count).symm)
  rw [start] at passes
  subst size
  have eq (job : Job) : gather job t es log = passFrom job (passFraction es.length)
      (gatherOne job) 0 es (gatherStart job t) log := gatherFrom_eq_passFrom ..
  rwa [eq job, eq job.calm]

theorem layFrom_eq_passFrom (job : Job) (t : Tables R) (count j : Nat) (es : List Expression)
    (b : Building R) (log : CallLog R) : layFrom job t count j es b log =
      passFrom job (fun j => 1 / Scalar.ofNat 3 + passFraction count j) (layOne job t) j es b
        log := by
  induction es generalizing j b log with
  | nil => rfl
  | cons e es ih =>
    unfold layFrom passFrom
    simp only [ih]

theorem passes_lay (job : Job) (t : Tables R) {es : List Expression} {count : Nat}
    (size : es.length = count) {log : CallLog R} (behind : log.reports = count) :
    job.Passes count count
      ((List.range count).map fun j => 1 / Scalar.ofNat 3 + passFraction count j) log
      (lay job t es log) (lay job.calm t es log) := by
  have passes := passes_passFrom job (fun j => 1 / Scalar.ofNat 3 + passFraction count j)
    (layOne job t) size (start job t) (behind.trans (Nat.one_mul count).symm)
  rw [behind] at passes
  subst size
  have eq (job : Job) : lay job t es log =
      passFrom job (fun j => 1 / Scalar.ofNat 3 + passFraction es.length j) (layOne job t) 0 es
        (start job t) log := layFrom_eq_passFrom ..
  rwa [eq job, eq job.calm]

/-- The fractions that the passes over so many expressions report, one for each expression of the
first pass and, unless only a preview is wanted, of the second. -/
def passReports (R : Type) [Scalar R] (preview : Bool) (count : Nat) : List R :=
  (List.range count).map (passFraction count) ++
    if preview then []
    else (List.range count).map fun j => 1 / Scalar.ofNat 3 + passFraction count j

/-- The fractions that are reported while a track is assembled. -/
def assemblyReports : Except CompileError (CompiledRoute R) → List R
  | .ok route => (Assembly.progress route.line.blocks.size).map fun f =>
    Scalar.two / Scalar.ofNat 3 + f / Scalar.ofNat 3
  | .error _ => []

theorem continues_assemble (t : Tables R) (l : Line R) (log : CallLog R) :
    Continues (assemblyReports (.ok (assemble t l log).1)) log (assemble t l log).2 := by
  have whole := continues_foldl_progress ((Assembly.progress l.blocks.size).map fun f : R =>
    Scalar.two / Scalar.ofNat 3 + f / Scalar.ofNat 3) log
  rwa [List.foldl_map] at whole

/-- What becomes of the second pass. -/
def afterLaying (t : Tables R) :
    Option (Building R) × CallLog R → Except CompileError (CompiledRoute R) × CallLog R
  | (none, log) => (.error .cancelled, log)
  | (some b, log) => (.ok (assemble t b.laying.line log).1, (assemble t b.laying.line log).2)

/-- What becomes of the first pass. -/
def afterGathering (job : Job) :
    Option (Gathering R) × CallLog R → Except CompileError (CompiledRoute R) × CallLog R
  | (none, log) => (.error .cancelled, log)
  | (some g, log) =>
    if job.settings.preview then (.ok (previewed g.tables), log)
    else afterLaying g.tables (lay job g.tables g.interpreted.toList log)

theorem runPasses_eq (job : Job) (es : List Expression) (log : CallLog R) :
    let reading := Options.readAhead (R := R) job.settings.dialect es
    runPasses job es log = afterGathering job (gather job (startTables job.settings reading.options)
      (sortByPosition reading.options.unitOfLength job.settings.dialect es)
      (log.messages reading.messages.toList)) := rfl

theorem length_interpreted_of_gather {job : Job} {t : Tables R} {es : List Expression}
    {g : Gathering R} {log : CallLog R} (h : (gather job t es log).1 = some g) :
    g.interpreted.toList.length = es.length := by
  rw [eq_of_gather h]
  clear h
  have general (g : Gathering R) :
      (es.foldl (fun g e => (gatherOne job g e).1) g).interpreted.size =
      g.interpreted.size + es.length := by
    induction es generalizing g with
    | nil => rfl
    | cons e es ih =>
      rw [List.foldl_cons, ih, interpreted_gatherOne, Array.size_push, List.length_cons]
      omega
  exact (general _).trans (Nat.zero_add _)

/-- Both passes stop at the first look that finds the token set, and else the compilation goes on as
if nobody could set the token. -/
theorem runPasses_cases (job : Job) (es : List Expression) {log : CallLog R}
    (fresh : log.reports = 0) :
    let out := runPasses job es log
    let reports := passReports R job.settings.preview es.length
    (∃ r, 0 < r ∧ r ≤ reports.length ∧ job.HearsAt es.length r ∧
        (∀ r', 0 < r' → r' < r → ¬ job.HearsAt es.length r') ∧ out.1 = .error .cancelled ∧
        Continues (reports.take r) log out.2) ∨
      (∀ r, 0 < r → r ≤ reports.length → ¬ job.HearsAt es.length r) ∧
        out = runPasses job.calm es log ∧ Continues (reports ++ assemblyReports out.1) log out.2 := by
  intro out reports
  let reading := Options.readAhead (R := R) job.settings.dialect es
  let t := startTables job.settings reading.options
  let sorted := sortByPosition reading.options.unitOfLength job.settings.dialect es
  let log₁ := log.messages reading.messages.toList
  have size : sorted.length = es.length := (sortByPosition_perm ..).length_eq
  have start₁ : Continues [] log log₁ := continues_messages ..
  have fresh₁ : log₁.reports = 0 := start₁.reports.trans fresh
  have hout : out = afterGathering job (gather job t sorted log₁) := runPasses_eq ..
  have hcalm : runPasses job.calm es log =
      afterGathering job.calm (gather job.calm t sorted log₁) := runPasses_eq ..
  let xs : List R := (List.range es.length).map (passFraction es.length)
  let ys : List R :=
    (List.range es.length).map fun j => 1 / Scalar.ofNat 3 + passFraction es.length j
  have hxs : xs.length = es.length := by simp [xs]
  have hys : ys.length = es.length := by simp [ys]
  have hreports : reports = xs ++ if job.settings.preview then [] else ys := rfl
  have gathers := passes_gather job t size fresh₁
  rw [hout, hcalm, hreports]
  rcases hgather : gather job t sorted log₁ with ⟨g?, log₂⟩
  rw [hgather] at gathers
  rcases gathers with ⟨i, hi, hears, before, rfl, told⟩ | ⟨never, same, ⟨g, rfl⟩, told⟩
  · refine .inl ⟨i + 1, Nat.succ_pos i, ?_, by simpa using hears, fun r' pos hr' => ?_, rfl, ?_⟩
    · rw [List.length_append]
      omega
    · have := before (r' - 1) (by omega)
      rwa [show 0 + (r' - 1) + 1 = r' by omega] at this
    · rw [List.take_append_of_le_length (by omega)]
      exact start₁.trans told
  have behind : log₂.reports = es.length := by
    rw [told.reports, fresh₁, hxs, Nat.zero_add]
  have firstPass (r : Nat) (pos : 0 < r) (hr : r ≤ es.length) : ¬ job.HearsAt es.length r := by
    have := never (r - 1) (by omega)
    rwa [show 0 + (r - 1) + 1 = r by omega] at this
  by_cases preview : job.settings.preview = true
  · have ends (job' : Job) (h : job'.settings.preview = true) :
        afterGathering job' (some g, log₂) = (.ok (previewed g.tables), log₂) := if_pos h
    rw [← same, ends job preview, ends job.calm preview, if_pos preview, List.append_nil]
    refine .inr ⟨fun r pos hr => firstPass r pos (hr.trans hxs.le), rfl, ?_⟩
    have silent : assemblyReports (.ok (previewed g.tables)) = [] := rfl
    rw [silent, List.append_nil]
    exact start₁.trans told
  · have goesOn (job' : Job) (h : job'.settings.preview ≠ true) :
        afterGathering job' (some g, log₂) =
          afterLaying g.tables (lay job' g.tables g.interpreted.toList log₂) := if_neg h
    have size' : g.interpreted.toList.length = es.length :=
      (length_interpreted_of_gather (congrArg Prod.fst hgather)).trans size
    have lays := passes_lay job g.tables size' behind
    rw [← same, goesOn job preview, goesOn job.calm preview, if_neg preview]
    rcases hlay : lay job g.tables g.interpreted.toList log₂ with ⟨b?, log₃⟩
    rw [hlay] at lays
    rcases lays with ⟨i, hi, hears, before, rfl, told'⟩ | ⟨never', same', ⟨b, rfl⟩, told'⟩
    · refine .inl ⟨es.length + i + 1, Nat.succ_pos _, ?_, hears, fun r' pos hr' => ?_, rfl, ?_⟩
      · rw [List.length_append]
        omega
      · rcases Nat.lt_or_ge es.length r' with hlt | hle
        · have := before (r' - es.length - 1) (by omega)
          rwa [show es.length + (r' - es.length - 1) + 1 = r' by omega] at this
        · exact firstPass r' pos hle
      · rw [List.take_append, List.take_of_length_le (by omega), hxs,
          show es.length + i + 1 - es.length = i + 1 by omega]
        exact (start₁.trans told).trans told'
    · refine .inr ⟨fun r pos hr => ?_, by rw [same'], ?_⟩
      · rw [List.length_append] at hr
        rcases Nat.lt_or_ge es.length r with hlt | hle
        · have := never' (r - es.length - 1) (by omega)
          rwa [show es.length + (r - es.length - 1) + 1 = r by omega] at this
        · exact firstPass r pos hle
      · exact ((start₁.trans told).trans told').trans (continues_assemble ..)

/-- Whether a look that finds the token set is among so many reports of the passes over so many
expressions. -/
def Job.IsStopped (job : Job) (count reports : Nat) : Prop :=
  ∃ r, 0 < r ∧ r ≤ reports ∧ job.HearsAt count r

/-- The passes come to nothing if they are stopped, and else to what they make of the expressions. -/
theorem result_runPasses (job : Job) (es : List Expression) {log : CallLog R}
    (fresh : log.reports = 0) :
    let stopped := job.IsStopped es.length (passReports R job.settings.preview es.length).length
    stopped ∧ (runPasses job es log).1 = .error .cancelled ∨
      ¬ stopped ∧ (runPasses job es log).1 = .ok (outcome (R := R) job es) := by
  intro stopped
  rcases runPasses_cases job es fresh with ⟨r, pos, hr, hears, -, ends, -⟩ | ⟨never, same, -⟩
  · exact .inl ⟨⟨r, pos, hr, hears⟩, ends⟩
  · have goesOn : job.calm.host.cancelAt = none := rfl
    obtain ⟨route, hroute⟩ := exists_runPasses_eq_ok goesOn es log
    rw [← same] at hroute
    refine .inr ⟨fun ⟨r, pos, hr, hears⟩ => never r pos hr hears, ?_⟩
    rw [hroute, (eq_of_runPasses hroute).1]

/-- Passes come to the same if the host looks as often and they make the same of what they are
given. -/
theorem result_runPasses_congr (job job' : Job) {es es' : List Expression}
    (host : job'.host = job.host) (preview : job'.settings.preview = job.settings.preview)
    (size : es'.length = es.length)
    (same : outcome (R := R) job' es' = outcome job es) {log log' : CallLog R}
    (fresh : log.reports = 0) (fresh' : log'.reports = 0) :
    (runPasses job' es' log').1 = (runPasses job es log).1 := by
  have stopped (reports : Nat) :
      job'.IsStopped es'.length reports ↔ job.IsStopped es.length reports := by
    simp only [Job.IsStopped, Job.HearsAt, host, size]
  have ends := result_runPasses job es fresh
  have ends' := result_runPasses job' es' fresh'
  rw [stopped, preview, size, same] at ends'
  rcases ends with ⟨stops, ends⟩ | ⟨goesOn, ends⟩
  · exact ((ends'.resolve_right fun h => h.1 stops).2).trans ends.symm
  · exact ((ends'.resolve_left fun h => goesOn h.1).2).trans ends.symm

end Compile

end RailRoute
