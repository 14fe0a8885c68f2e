import Mathlib
import RailRoute.Document
import RailRoute.Proofs.Document.Json

/-!
# Numbers of a document

Whole numbers are numbers of JSON as they are written, and so is a floating-point number, written
without an exponent, if it is finite. What is written for one that is not is no JSON. Main
statement: `reads_float`.
-/

namespace RailRoute

/-! ## Numbers of JSON -/

namespace Json

/-- Whether a text is made of digits. -/
structure IsDigits (ds : List Char) : Prop where
  ne : ds ≠ []
  digits : ∀ c ∈ ds, c.isDigit

/-- Whether a text is made of digits and has no zero in front of others. -/
structure IsWhole (ds : List Char) : Prop extends IsDigits ds where
  leads : ds.head? = some '0' → ds = ['0']

/-- Whether a text is a decimal number without a sign and without an exponent. -/
def IsMagnitude (cs : List Char) : Prop :=
  ∃ whole fraction, cs = whole ++ fraction ∧ IsWhole whole ∧
    (fraction = [] ∨ ∃ ds, fraction = '.' :: ds ∧ IsDigits ds)

theorem readDigits_append {ds : List Char} (h : IsDigits ds) {rest : List Char}
    (behind : ∀ c ∈ rest.head?, ¬ c.isDigit) : readDigits (ds ++ rest) = some (ds, rest) := by
  have solid : rest.takeWhile Char.isDigit = [] ∧ rest.dropWhile Char.isDigit = rest := by
    cases rest with
    | nil => exact ⟨rfl, rfl⟩
    | cons c rest => simp [behind c rfl]
  simp [readDigits, List.takeWhile_append_of_pos h.digits, List.dropWhile_append_of_pos h.digits,
    solid, h.ne]

theorem readWhole_append {ds : List Char} (h : IsWhole ds) {rest : List Char}
    (behind : ∀ c ∈ rest.head?, ¬ c.isDigit) : readWhole (ds ++ rest) = some (ds, rest) := by
  cases ds with
  | nil => exact absurd rfl h.ne
  | cons c ds =>
    by_cases zero : c = '0'
    · subst zero
      rw [h.leads rfl]
      rfl
    · have digits := readDigits_append h.toIsDigits behind
      unfold readWhole
      split
      · rename_i heq
        exact absurd (List.cons.inj heq).1 zero
      · exact digits

/-- What stands behind a value goes on with no number. -/
theorem IsBoundary.head?_ne {rest : List Char} (h : IsBoundary rest) :
    ∀ c ∈ rest.head?, ¬ c.isDigit ∧ c ≠ '.' ∧ c ≠ 'e' ∧ c ≠ 'E' := by
  intro c hc
  have boundary := h c hc
  simp only [isSpace, decide_eq_true_eq, List.mem_cons, List.not_mem_nil, or_false] at boundary
  rcases boundary with (rfl | rfl | rfl | rfl) | rfl | rfl | rfl <;> decide

theorem readMagnitude_append {cs : List Char} (h : IsMagnitude cs) {rest : List Char}
    (boundary : IsBoundary rest) : readMagnitude (cs ++ rest) = some (cs, rest) := by
  obtain ⟨whole, fraction, rfl, hwhole, hfraction⟩ := h
  have ends := boundary.head?_ne
  have exponent : readExponent rest = some ([], rest) := by
    cases rest with
    | nil => rfl
    | cons c rest =>
      obtain ⟨-, -, small, capital⟩ := ends c rfl
      simp [readExponent, small, capital]
  have fractional : readFraction (fraction ++ rest) = some (fraction, rest) := by
    rcases hfraction with rfl | ⟨ds, rfl, digits⟩
    · cases rest with
      | nil => rfl
      | cons c rest =>
        obtain ⟨-, point, -⟩ := ends c rfl
        rw [List.nil_append, readFraction]
        exact fun _ heq => point (List.cons.inj heq).1
    · rw [List.cons_append, readFraction, readDigits_append digits fun c hc => (ends c hc).1]
      rfl
  have point : ∀ c ∈ (fraction ++ rest).head?, ¬ c.isDigit := by
    rcases hfraction with rfl | ⟨ds, rfl, -⟩
    · exact fun c hc => (ends c hc).1
    · rintro c ⟨⟩
      decide
  rw [List.append_assoc, readMagnitude, readWhole_append hwhole point]
  simp [fractional, exponent]

theorem IsMagnitude.exists_cons {cs : List Char} (h : IsMagnitude cs) :
    ∃ c r, cs = c :: r ∧ c.isDigit := by
  obtain ⟨whole, fraction, rfl, hwhole, -⟩ := h
  obtain ⟨c, r, rfl⟩ := List.exists_cons_of_ne_nil hwhole.ne
  exact ⟨c, r ++ fraction, rfl, hwhole.digits c (List.mem_cons_self ..)⟩

theorem readValue_number {depth : Nat} {c : Char} (h : c.isDigit ∨ c = '-') (cs : List Char) :
    readValue (depth + 1) (c :: cs) =
      (readNumber (c :: cs)).map fun (ds, cs) => (number ds, cs) := by
  have other : c ≠ '"' ∧ c ≠ '[' ∧ c ≠ '\x7b' ∧ c ≠ 'n' ∧ c ≠ 't' ∧ c ≠ 'f' := by
    refine ⟨?_, ?_, ?_, ?_, ?_, ?_⟩ <;> rintro rfl <;> exact absurd h (by decide)
  obtain ⟨quote, bracket, brace, n, t, f⟩ := other
  have word : readWord (c :: cs) = none := by
    simp [readWord, words, Text.afterHead?, n.symm, t.symm, f.symm]
  rw [readValue, if_neg quote, if_neg bracket, if_neg brace, word, Option.none_or]

/-- A decimal number is read, with a sign or without one. -/
theorem reads_magnitude {cs : List Char} (h : IsMagnitude cs) (negative : Bool) (depth : Nat) :
    let text := if negative then '-' :: cs else cs
    Reads (readValue (depth + 1)) text true (.number text) := by
  obtain ⟨c, r, hcs, digit⟩ := h.exists_cons
  cases negative with
  | true =>
    refine ⟨⟨'-', cs, rfl, by decide, by decide⟩, fun rest boundary => ?_⟩
    rw [if_pos rfl, List.cons_append, readValue_number (.inr rfl), readNumber,
      readMagnitude_append h boundary]
    rfl
  | false =>
    have solid : ¬ isSpace c ∧ c ∉ [']', '\x7d'] ∧ c ≠ '-' := by
      refine ⟨fun space => ?_, fun closes => ?_, ?_⟩
      · simp only [isSpace, decide_eq_true_eq, List.mem_cons, List.not_mem_nil, or_false] at space
        rcases space with rfl | rfl | rfl | rfl <;> exact absurd digit (by decide)
      · simp only [List.mem_cons, List.not_mem_nil, or_false] at closes
        rcases closes with rfl | rfl <;> exact absurd digit (by decide)
      · rintro rfl
        exact absurd digit (by decide)
    refine ⟨⟨c, r, hcs, solid.1, solid.2.1⟩, fun rest boundary => ?_⟩
    have magnitude := readMagnitude_append h boundary
    have unsigned : readNumber (cs ++ rest) = readMagnitude (cs ++ rest) := by
      rw [hcs, List.cons_append, readNumber]
      exact fun _ heq => solid.2.2 (List.cons.inj heq).1
    rw [if_neg (by decide)]
    rw [hcs, List.cons_append, readValue_number (.inl digit), ← List.cons_append, ← hcs, unsigned,
      magnitude]
    rfl

end Json

open Json

/-! ## Whole numbers -/

theorem head?_toDigits_ne {n : Nat} (h : n ≠ 0) : (Nat.toDigits 10 n).head? ≠ some '0' := by
  induction n using Nat.strong_induction_on with
  | _ n ih =>
    rcases Nat.lt_or_ge n 10 with small | large
    · rw [Nat.toDigits_of_lt_base small]
      interval_cases n <;> first | exact absurd rfl h | decide
    · rw [Nat.toDigits_of_base_le (by decide) large,
        List.head?_append_of_ne_nil _ Nat.toDigits_ne_nil]
      exact ih (n / 10) (by omega) (by omega)

theorem isWhole_toDigits (n : Nat) : IsWhole (Nat.toDigits 10 n) where
  ne := Nat.toDigits_ne_nil
  digits _ hc := Nat.isDigit_of_mem_toDigits (by decide) (by decide) hc
  leads h := by
    by_cases zero : n = 0
    · subst zero
      rfl
    · exact absurd h (head?_toDigits_ne zero)

theorem isMagnitude_toDigits (n : Nat) : IsMagnitude (Nat.toDigits 10 n) :=
  ⟨_, [], (List.append_nil _).symm, isWhole_toDigits n, .inl rfl⟩

section Whole

variable (depth : Nat)

theorem reads_nat (n : Nat) : Reads (readValue (depth + 1)) (toString n).toList true
    (.number (toString n).toList) := by
  have digits : (toString n).toList = Nat.toDigits 10 n := by simp
  rw [digits]
  exact reads_magnitude (isMagnitude_toDigits n) false depth

theorem reads_int (n : Int) : Reads (readValue (depth + 1)) (toString n).toList true
    (.number (toString n).toList) := by
  cases n with
  | ofNat n => exact reads_nat depth n
  | negSucc n =>
    have digits : (toString (Int.negSucc n)).toList = '-' :: Nat.toDigits 10 (n + 1) := by
      change ("-" ++ Nat.repr (n + 1)).toList = _
      rw [String.toList_append, Nat.toList_repr]
      rfl
    rw [digits]
    exact reads_magnitude (isMagnitude_toDigits (n + 1)) true depth

end Whole

/-! ## Floating-point numbers -/

namespace Decimal

/-- Written without an exponent, digits are a decimal number. A zero must not be followed by
others. -/
theorem isMagnitude_placed {digits : Nat} {exponent : Int} (h : digits = 0 → exponent = 0) :
    IsMagnitude (placed false (Nat.toDigits 10 digits) exponent) := by
  have whole := isWhole_toDigits digits
  generalize hds : Nat.toDigits 10 digits = ds at whole
  have leads (zero : ds.head? = some '0') : exponent = 0 := by
    by_contra ne
    exact head?_toDigits_ne (fun zero => ne (h zero)) (hds ▸ zero)
  by_cases integral : 0 ≤ exponent
  · have text : placed false ds exponent = ds ++ List.replicate exponent.toNat '0' := by
      simp [placed, integral]
    rw [text]
    refine ⟨_, [], (List.append_nil _).symm, ⟨⟨by simp [whole.ne], ?_⟩, fun zero => ?_⟩, .inl rfl⟩
    · intro c hc
      rcases List.mem_append.1 hc with hc | hc
      · exact whole.digits c hc
      · rw [List.eq_of_mem_replicate hc]
        decide
    · rw [List.head?_append_of_ne_nil _ whole.ne] at zero
      rw [leads zero, whole.leads zero]
      rfl
  · have ne : exponent ≠ 0 := by omega
    let places := (-exponent).toNat
    by_cases fraction : places < ds.length
    · have text : placed false ds exponent =
          ds.take (ds.length - places) ++ '.' :: ds.drop (ds.length - places) := by
        simp [placed, integral, places, show (-exponent).toNat < ds.length from fraction]
      have split : ds.length - places ≠ 0 := by omega
      rw [text]
      refine ⟨_, _, rfl, ⟨⟨by simp [whole.ne, split], ?_⟩, fun zero => ?_⟩, .inr ⟨_, rfl, ?_, ?_⟩⟩
      · exact fun c hc => whole.digits c (List.mem_of_mem_take hc)
      · rw [List.head?_take, if_neg split] at zero
        exact absurd (leads zero) ne
      · have : 0 < places := by omega
        rw [Ne, List.drop_eq_nil_iff]
        omega
      · exact fun c hc => whole.digits c (List.mem_of_mem_drop hc)
    · have text : placed false ds exponent =
          ['0'] ++ '.' :: (List.replicate (places - ds.length) '0' ++ ds) := by
        simp [placed, integral, places, show ¬ (-exponent).toNat < ds.length from fraction]
      rw [text]
      refine ⟨_, _, rfl, ⟨⟨by simp, by simp⟩, fun _ => rfl⟩, .inr ⟨_, rfl, by simp [whole.ne], ?_⟩⟩
      intro c hc
      rcases List.mem_append.1 hc with hc | hc
      · rw [List.eq_of_mem_replicate hc]
        decide
      · exact whole.digits c hc

theorem pos_of_gridHit? {i : Interval} {t : Int} {c : Nat} (h : gridHit? i t = some c) :
    0 < c := by
  unfold gridHit? at h
  dsimp only at h
  split at h
  · rename_i inside _
    have pos := (Bool.and_eq_true_iff.1 inside).1
    split_ifs at h
    · exact Option.some.inj h ▸ of_decide_eq_true pos
    · exact Option.some.inj h ▸ Nat.succ_pos _
  · rename_i inside _
    exact Option.some.inj h ▸ of_decide_eq_true (Bool.and_eq_true_iff.1 inside).1
  · exact Option.some.inj h ▸ Nat.succ_pos _
  · cases h

theorem searchGrids_pos {i : Interval} (h : 0 < i.value) (fuel : Nat) (t : Int) :
    0 < (searchGrids i fuel t).1 := by
  induction fuel generalizing t with
  | zero => exact h
  | succ fuel ih =>
    unfold searchGrids
    split
    · rename_i c hit
      exact pos_of_gridHit? hit
    · exact ih (t - 1)

theorem stripZeros_pos {c : Nat} (h : 0 < c) (fuel : Nat) (t : Int) :
    0 < (stripZeros fuel c t).1 := by
  induction fuel generalizing c t with
  | zero => exact h
  | succ fuel ih =>
    unfold stripZeros
    split_ifs with strips
    · exact ih (by omega) (t + 1)
    · exact h

/-- Of all numbers only zero has the digit zero. -/
theorem shortest_zero (bits : UInt64) (h : (shortest bits).1 = 0) : (shortest bits).2 = 0 := by
  unfold shortest at h ⊢
  dsimp only at h ⊢
  split_ifs at h ⊢ with zero
  · rfl
  · have value : 0 < (Binary.ofBits bits).interval.value := by
      exact Nat.mul_pos (by omega) (Nat.pow_pos (by decide))
    exact absurd h (stripZeros_pos (searchGrids_pos value _ _) _ _).ne'

end Decimal

/-- What is written for a floating-point number that is not finite is no value. -/
theorem reads_inf (negative : Bool) (value : Json) (depth : Nat) :
    Reads (readValue (depth + 1)) (if negative then '-' :: "inf".toList else "inf".toList) false
      value := by
  cases negative with
  | true => exact ⟨⟨'-', _, rfl, by decide, by decide⟩, fun rest _ => rfl⟩
  | false => exact ⟨⟨'i', _, rfl, by decide, by decide⟩, fun rest _ => rfl⟩

theorem reads_nan (value : Json) (depth : Nat) :
    Reads (readValue (depth + 1)) "NaN".toList false value :=
  ⟨⟨'N', _, rfl, by decide, by decide⟩, fun _ _ => rfl⟩

/-- A floating-point number is written as a number if, and only if, it is finite. -/
theorem reads_float (x : Float) (depth : Nat) : Reads (readValue (depth + 1))
    (Document.number x).toList (Decimal.isFiniteBits x.toBits)
    (.number (Document.number x).toList) := by
  let negative : Bool := x.toBits.toNat / (2048 * Decimal.fractionCount) = 1
  let digits := Decimal.shortest x.toBits
  unfold Document.number Decimal.text
  dsimp only
  cases finite : Decimal.isFiniteBits x.toBits with
  | true =>
    have magnitude : IsMagnitude (Decimal.magnitudeText Decimal.plain digits.1 digits.2) :=
      Decimal.isMagnitude_placed (Decimal.shortest_zero x.toBits)
    rw [if_pos rfl, String.toList_ofList]
    simpa [negative, digits] using reads_magnitude magnitude negative depth
  | false =>
    rw [if_neg (by decide)]
    by_cases infinite : x.toBits.toNat % Decimal.fractionCount = 0
    · rw [if_pos infinite, String.toList_ofList]
      simpa [negative] using reads_inf negative _ depth
    · rw [if_neg infinite]
      exact reads_nan _ depth

end RailRoute
