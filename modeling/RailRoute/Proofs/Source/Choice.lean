import Mathlib
import RailRoute.Proofs.Arithmetic
import RailRoute.Source.Expand

/-!
# Files drawn by weight

An include draws one of the files it names. The draws below the total weight fall into one share for
each file, one share behind the other and each as long as the weight of its file, and the file in
whose share the draw lies is the one that is read. Files without a name have no share. Main
statement: `include_isFair`.
-/

namespace RailRoute.Source

variable {R : Type} [ExactScalar R]

/-! ## Who takes part -/

/-- What an include names: the file at every even place, with its weight if one follows. -/
def entries (args : List (List Char)) : List (List Char × Option (List Char)) :=
  (List.range ((args.length + 1) / 2)).map fun i => (args.getD (2 * i) [], args[2 * i + 1]?)

/-- Whether a weight is the one that is written, or one if none is. -/
def IsWeight : Option (List Char) → R → Prop
  | none, w => w = 1
  | some written, w => parseNumber written = some w ∧ 0 ≤ w

/-- The files that take part, if the weights are the given ones: those with a name. -/
def candidates (args : List (List Char)) (ws : List R) : List (List Char × R) :=
  (((entries args).map Prod.fst).zip ws).filter fun c => !c.1.isEmpty

theorem entries_cons_cons (file weight : List Char) (rest : List (List Char)) :
    entries (file :: weight :: rest) = (file, some weight) :: entries rest := by
  have count : ((file :: weight :: rest).length + 1) / 2 = (rest.length + 1) / 2 + 1 := by
    simp only [List.length_cons]
    omega
  rw [entries, count, List.range_succ_eq_map, List.map_cons, List.map_map]
  rfl

/-- Weights that are no negative numbers are all taken, and the files with names take part. -/
theorem includeCandidates_eq_ok {args : List (List Char)} {ws : List R}
    (h : List.Forall₂ IsWeight ((entries args).map Prod.snd) ws) :
    includeCandidates args = .ok (candidates args ws) := by
  -- A file and its weight are taken off together, so what is left still begins with a file.
  induction args using List.twoStepInduction generalizing ws with
  | nil => rfl
  | singleton file =>
    have only : entries [file] = [(file, none)] := by simp [entries]
    rw [only, List.map_singleton] at h
    obtain ⟨w, others, isOne, nothing, rfl⟩ := List.forall₂_cons_left_iff.1 h
    obtain rfl : others = [] := List.forall₂_nil_left_iff.1 nothing
    obtain rfl : w = 1 := isOne
    cases file <;> simp [includeCandidates, candidates, only]
  | cons_cons file weight rest ih _ =>
    rw [entries_cons_cons, List.map_cons] at h
    obtain ⟨w, others, ⟨number, nonneg⟩, behind, rfl⟩ := List.forall₂_cons_left_iff.1 h
    have more := ih behind
    cases file <;>
      simp [includeCandidates, number, nonneg, more, candidates, entries_cons_cons, Except.map]

theorem nonneg_of_isWeight {written : List (Option (List Char))} {ws : List R}
    (h : List.Forall₂ IsWeight written ws) : ∀ w ∈ ws, 0 ≤ w := by
  induction h with
  | nil => exact List.forall_mem_nil _
  | @cons written w _ ws isWeight _ ih =>
    refine List.forall_mem_cons.2 ⟨?_, ih⟩
    cases written with
    | none => exact isWeight ▸ zero_le_one
    | some written => exact isWeight.2

/-! ## Shares -/

/-- The weight of the candidates in front of the one at place `k`. -/
def weightAhead (cs : List (List Char × R)) (k : Nat) : R := ((cs.take k).map Prod.snd).sum

/-- The draws that fall to the candidate at place `k`. -/
def share (cs : List (List Char × R)) (k : Nat) : Set R :=
  Set.Ico (weightAhead cs k) (weightAhead cs (k + 1))

section Shares

variable (c : List Char × R) (cs : List (List Char × R)) (k : Nat) {draw : R}

@[simp] theorem weightAhead_zero : weightAhead cs 0 = 0 := by simp [weightAhead]

@[simp] theorem weightAhead_cons_succ :
    weightAhead (c :: cs) (k + 1) = c.2 + weightAhead cs k := by
  simp [weightAhead]

theorem mem_share_cons_zero : draw ∈ share (c :: cs) 0 ↔ 0 ≤ draw ∧ draw < c.2 := by
  simp [share]

theorem mem_share_cons_succ : draw ∈ share (c :: cs) (k + 1) ↔ draw - c.2 ∈ share cs k := by
  simp [share, le_sub_iff_add_le', sub_lt_iff_lt_add']

end Shares

variable {cs : List (List Char × R)}

theorem totalWeight_eq : totalWeight cs = weightAhead cs cs.length := by
  rw [totalWeight, weightAhead, List.take_length, List.sum_eq_foldl, List.foldl_map]

/-- A share is as long as the weight of its candidate. -/
theorem weightAhead_succ {c : List Char × R} {k : Nat} (hc : cs[k]? = some c) :
    weightAhead cs (k + 1) = weightAhead cs k + c.2 := by
  simp [weightAhead, List.take_add_one, hc]

/-- Each draw below the total weight lies in a share. -/
theorem exists_mem_share {draw : R} (nonneg : 0 ≤ draw) (below : draw < totalWeight cs) :
    ∃ k < cs.length, draw ∈ share cs k := by
  rw [totalWeight_eq] at below
  induction cs generalizing draw with
  | nil => exact absurd below (by simpa using nonneg)
  | cons c cs ih =>
    by_cases here : draw < c.2
    · exact ⟨0, by simp, (mem_share_cons_zero c cs).2 ⟨nonneg, here⟩⟩
    · rw [List.length_cons, weightAhead_cons_succ] at below
      obtain ⟨k, hk, inside⟩ := ih (sub_nonneg.2 (not_lt.1 here)) (sub_lt_iff_lt_add'.2 below)
      exact ⟨k + 1, by simpa using hk, (mem_share_cons_succ c cs k).2 inside⟩

/-- What is known of files that are drawn by weight. -/
structure IsFairChoice (cs : List (List Char × R)) : Prop where
  /-- Each draw lies in one share. -/
  falls : ∀ draw ∈ Set.Ico 0 (totalWeight cs), ∃! k, k < cs.length ∧ draw ∈ share cs k
  /-- The file that is chosen is one in whose share the draw lies, whatever the fallback is. -/
  chosen : ∀ draw ∈ Set.Ico 0 (totalWeight cs), ∀ fallback file,
    chooseCandidate draw cs fallback = file ↔
      ∃ k w, cs[k]? = some (file, w) ∧ draw ∈ share cs k
  /-- A share consists of draws and is as long as the weight of its file. -/
  long : ∀ k file w, cs[k]? = some (file, w) →
    share cs k = Set.Ico (weightAhead cs k) (weightAhead cs k + w) ∧
      share cs k ⊆ Set.Ico 0 (totalWeight cs)
  /-- No draw falls to a file without weight. -/
  weightless : ∀ k file, cs[k]? = some (file, 0) → share cs k = ∅

section Fair

variable (nonneg : ∀ c ∈ cs, 0 ≤ c.2)
include nonneg

theorem weightAhead_mono : Monotone (weightAhead cs) := by
  refine monotone_nat_of_le_succ fun k => ?_
  cases hc : cs[k]? with
  | none => simp [weightAhead, List.take_add_one, hc]
  | some c =>
    rw [weightAhead_succ hc]
    exact le_add_of_nonneg_right (nonneg c (List.mem_of_getElem? hc))

/-- Two shares have no draw in common. -/
theorem eq_of_mem_share {draw : R} {j k : Nat} (hj : draw ∈ share cs j) (hk : draw ∈ share cs k) :
    j = k := by
  have mono := weightAhead_mono nonneg
  rcases lt_trichotomy j k with before | same | behind
  · exact absurd (hj.2.trans_le (mono before)) (not_lt.2 hk.1)
  · exact same
  · exact absurd (hk.2.trans_le (mono behind)) (not_lt.2 hj.1)

/-- Taking the weights off the draw one by one finds the candidate in whose share it lies. -/
theorem chooseCandidate_of_mem_share {draw : R} {c : List Char × R} {k : Nat}
    (hc : cs[k]? = some c) (inside : draw ∈ share cs k) (fallback : List Char) :
    chooseCandidate draw cs fallback = c.1 := by
  induction cs generalizing draw k with
  | nil => simp at hc
  | cons head cs ih =>
    cases k with
    | zero =>
      obtain rfl : head = c := by simpa using hc
      exact if_pos ((mem_share_cons_zero head cs).1 inside).2
    | succ k =>
      -- The share lies behind the first weight, so the draw gets past it and stays in its share.
      have others : ∀ c ∈ cs, 0 ≤ c.2 := fun c hc => nonneg c (.tail _ hc)
      rw [mem_share_cons_succ] at inside
      have beyond : 0 ≤ draw - head.2 := calc
        0 = weightAhead cs 0 := (weightAhead_zero cs).symm
        _ ≤ weightAhead cs k := weightAhead_mono others k.zero_le
        _ ≤ draw - head.2 := inside.1
      have behind : chooseCandidate draw (head :: cs) fallback =
          chooseCandidate (draw - head.2) cs fallback := if_neg (not_lt.2 (sub_nonneg.1 beyond))
      rw [behind]
      exact ih others (by simpa using hc) inside

theorem isFairChoice : IsFairChoice cs where
  falls draw hd := by
    obtain ⟨k, hk, inside⟩ := exists_mem_share hd.1 hd.2
    exact ⟨k, ⟨hk, inside⟩, fun j hj => eq_of_mem_share nonneg hj.2 inside⟩
  chosen draw hd fallback file := by
    constructor
    · rintro rfl
      obtain ⟨k, hk, inside⟩ := exists_mem_share hd.1 hd.2
      have here : cs[k]? = some cs[k] := List.getElem?_eq_getElem hk
      rw [chooseCandidate_of_mem_share nonneg here inside]
      exact ⟨k, cs[k].2, here, inside⟩
    · rintro ⟨k, w, here, inside⟩
      exact chooseCandidate_of_mem_share nonneg here inside fallback
  long k file w here := by
    have mono := weightAhead_mono nonneg
    have hk : k < cs.length := (List.getElem?_eq_some_iff.1 here).1
    refine ⟨by rw [share, weightAhead_succ here], Set.Ico_subset_Ico ?_ ?_⟩
    · rw [← weightAhead_zero cs]
      exact mono k.zero_le
    · rw [totalWeight_eq]
      exact mono hk
  weightless k file here := by
    rw [share, weightAhead_succ here, add_zero, Set.Ico_self]

end Fair

/-! ## What an include draws -/

/-- A draw below a positive bound is no negative number and lies below it. -/
theorem drawBelow_mem {bound : R} (positive : 0 < bound) (fuel : Nat) (g : Generator) :
    (drawBelow bound fuel g).1 ∈ Set.Ico 0 bound := by
  induction fuel generalizing g with
  | zero => exact ⟨le_rfl, positive⟩
  | succ fuel ih =>
    rw [drawBelow]
    split_ifs with below
    · refine ⟨?_, below⟩
      rw [ExactScalar.ofNat_eq, ExactScalar.ofNat_eq]
      positivity
    · exact ih _

/-- The session behind a draw below a bound. -/
def afterDraw (bound : R) (s : Session) : Session :=
  { s with dictionary := { s.dictionary with
    generator := (drawBelow bound Generator.attempts s.dictionary.generator).2 } }

theorem drawFile?_eq_ok {e : Expression} {argument : List Char}
    (taken : includeCandidates (splitArguments argument) = .ok cs) (positive : 0 < totalWeight cs)
    (s : Session) :
    ∃ fallback, drawFile? R e argument s =
      .ok (some (chooseCandidate
        (drawBelow (totalWeight cs) Generator.attempts s.dictionary.generator).1 cs fallback))
        (afterDraw (totalWeight cs) s) := by
  have ne : cs ≠ [] := by
    rintro rfl
    exact lt_irrefl 0 positive
  have last : cs.getLast? = some (cs.getLast ne) := List.getLast?_eq_getLast_of_ne_nil ne
  refine ⟨(cs.getLast ne).1, ?_⟩
  simp only [drawFile?, taken, last, not_le.2 positive, if_false]
  rfl

/-- An include whose weights are no negative numbers, and not all zero, draws a number below their
sum and names the file in whose share it lies. -/
theorem include_isFair {args : List (List Char)} {ws : List R}
    (weights : List.Forall₂ IsWeight ((entries args).map Prod.snd) ws)
    (positive : 0 < totalWeight (candidates args ws)) :
    includeCandidates args = .ok (candidates args ws) ∧ IsFairChoice (candidates args ws) ∧
      ∀ e argument s, splitArguments argument = args →
        let draw := (drawBelow (totalWeight (candidates args ws)) Generator.attempts
          s.dictionary.generator).1
        draw ∈ Set.Ico 0 (totalWeight (candidates args ws)) ∧
          ∀ fallback, drawFile? R e argument s =
            .ok (some (chooseCandidate draw (candidates args ws) fallback))
              (afterDraw (totalWeight (candidates args ws)) s) := by
  have nonneg : ∀ c ∈ candidates args ws, 0 ≤ c.2 := fun c hc =>
    nonneg_of_isWeight weights c.2 (List.of_mem_zip (List.mem_of_mem_filter hc)).2
  have taken := includeCandidates_eq_ok weights
  have fair := isFairChoice nonneg
  refine ⟨taken, fair, ?_⟩
  rintro e argument s rfl
  have inside := drawBelow_mem positive Generator.attempts s.dictionary.generator
  refine ⟨inside, fun fallback => ?_⟩
  obtain ⟨other, drawn⟩ := drawFile?_eq_ok (e := e) taken positive s
  have same := (fair.chosen _ inside fallback _).2 ((fair.chosen _ inside other _).1 rfl)
  rw [drawn, same]

/-- Of three files the second is never read and the other two share the draws; a weight of five
without a file does not count. -/
theorem include_isFair_three :
    let args := ["a.csv", "1", "", "5", "b.csv", "0", "c.csv"].map String.toList
    let cs : List (List Char × ℚ) :=
      [("a.csv".toList, 1), ("b.csv".toList, 0), ("c.csv".toList, 1)]
    List.Forall₂ IsWeight ((entries args).map Prod.snd) [(1 : ℚ), 5, 0, 1] ∧
      0 < totalWeight cs ∧ includeCandidates args = .ok cs ∧ IsFairChoice cs := by
  intro args cs
  have named : (entries args).map Prod.snd =
    [some "1".toList, some "5".toList, some "0".toList, none] := by decide
  have same : candidates args [(1 : ℚ), 5, 0, 1] = cs := by decide
  have weights : List.Forall₂ IsWeight ((entries args).map Prod.snd) [(1 : ℚ), 5, 0, 1] := by
    rw [named]
    have written : (parseNumber "1".toList : Option ℚ) = some 1 ∧
        (parseNumber "5".toList : Option ℚ) = some 5 ∧
        (parseNumber "0".toList : Option ℚ) = some 0 := by decide_cbv
    obtain ⟨one, five, zero⟩ := written
    exact .cons ⟨one, by norm_num⟩ (.cons ⟨five, by norm_num⟩ (.cons ⟨zero, le_rfl⟩
      (.cons rfl .nil)))
  have positive : 0 < totalWeight (candidates args [(1 : ℚ), 5, 0, 1]) := by decide_cbv
  have fair := include_isFair weights positive
  rw [same] at positive fair
  exact ⟨weights, positive, fair.1, fair.2.1⟩

end RailRoute.Source
