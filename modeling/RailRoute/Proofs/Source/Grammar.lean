import Mathlib
import RailRoute.Source.Number

/-!
# The grammar of numbers

A number is a sign or none, digits with a point behind or among them or a point in front of digits,
and an exponent or none. The scanner takes the longest beginning of a text that the grammar allows,
so that a text is a number if the scanner leaves nothing of it. Main statement: `readsNumbers`.
-/

namespace RailRoute.Source

open Text

/-! ## The grammar -/

/-- One or more digits. -/
structure Digits where
  text : List Char
  ne : text ≠ []
  digits : ∀ c ∈ text, isDigit c

namespace Numeral

/-- What may stand in front of a number and in front of the digits of an exponent. -/
inductive Sign where
  | absent
  | plus
  | minus
  deriving DecidableEq

def Sign.text : Sign → List Char
  | absent => []
  | plus => ['+']
  | minus => ['-']

/-- A number without its sign and its exponent. -/
inductive Mantissa where
  | whole (ds : Digits)
  | pointed (ds : Digits) (decimals : List Char) (digits : ∀ c ∈ decimals, isDigit c)
  | fraction (ds : Digits)

namespace Mantissa

def text : Mantissa → List Char
  | whole ds => ds.text
  | pointed ds decimals _ => ds.text ++ '.' :: decimals
  | fraction ds => '.' :: ds.text

/-- The digits in front of the point. -/
def front : Mantissa → List Char
  | whole ds | pointed ds _ _ => ds.text
  | fraction _ => []

/-- The digits behind the point. -/
def decimals : Mantissa → List Char
  | whole _ => []
  | pointed _ decimals _ => decimals
  | fraction ds => ds.text

end Mantissa

structure Exponent where
  letter : Char
  isLetter : letter = 'e' ∨ letter = 'E'
  sign : Sign
  digits : Digits

namespace Exponent

def text (x : Exponent) : List Char := x.letter :: (x.sign.text ++ x.digits.text)

def value (x : Exponent) : Int :=
  if x.sign = .minus then -exponentSize x.digits.text else exponentSize x.digits.text

end Exponent

end Numeral

open Numeral

/-- A number as the grammar has it. -/
structure Numeral where
  sign : Sign
  mantissa : Mantissa
  exponent? : Option Exponent

namespace Numeral

/-- What a number is written as. -/
def text (n : Numeral) : List Char :=
  n.sign.text ++ (n.mantissa.text ++ (n.exponent?.map (·.text)).getD [])

/-- What a number stands for. -/
def value (n : Numeral) : Decimal where
  negative := n.sign = .minus
  digits := digitsValue (n.mantissa.front ++ n.mantissa.decimals)
  exponent := (n.exponent?.map (·.value)).getD 0 - (n.mantissa.decimals.length : Int)

/-- Whether no longer number than `n` stands at the beginning of a text, where `n` does. -/
def IsLongest (n : Numeral) (cs : List Char) : Prop :=
  n.text <+: cs ∧ ∀ m : Numeral, m.text <+: cs → m.text.length ≤ n.text.length

end Numeral

/-! ## Digits -/

section Digits

variable {ds rest : List Char}

theorem digits_append (h : ∀ c ∈ ds, isDigit c) (rest : List Char) :
    leadingDigits (ds ++ rest) = ds ++ leadingDigits rest ∧
      afterDigits (ds ++ rest) = afterDigits rest :=
  ⟨List.takeWhile_append_of_pos h, List.dropWhile_append_of_pos h⟩

theorem digits_of_head (h : ∀ c ∈ rest.head?, ¬ isDigit c) :
    leadingDigits rest = [] ∧ afterDigits rest = rest := by
  cases rest with
  | nil => exact ⟨rfl, rfl⟩
  | cons c rest => simp [leadingDigits, afterDigits, h c rfl]

theorem leadingDigits_append_afterDigits (cs : List Char) :
    leadingDigits cs ++ afterDigits cs = cs := List.takeWhile_append_dropWhile

theorem isDigit_of_mem_leadingDigits {cs : List Char} : ∀ c ∈ leadingDigits cs, isDigit c :=
  fun _ hc => List.mem_takeWhile_imp hc

theorem afterDigits_suffix (cs : List Char) : afterDigits cs <:+ cs := List.dropWhile_suffix _

/-- The digits that a text begins with, if there are any. -/
def Digits.leading (cs : List Char) (h : leadingDigits cs ≠ []) : Digits :=
  ⟨leadingDigits cs, h, isDigit_of_mem_leadingDigits⟩

theorem Digits.exists_cons (ds : Digits) : ∃ c r, ds.text = c :: r ∧ isDigit c := by
  obtain ⟨c, r, heq⟩ := List.exists_cons_of_ne_nil ds.ne
  exact ⟨c, r, heq, ds.digits c (heq ▸ List.mem_cons_self ..)⟩

theorem ne_of_isDigit {c : Char} (h : isDigit c) : c ≠ '-' ∧ c ≠ '+' ∧ c ≠ '.' := by
  refine ⟨?_, ?_, ?_⟩ <;> rintro rfl <;> exact absurd h (by decide)

end Digits

/-! ## Signs -/

theorem takeSign_append (s : Sign) {rest : List Char}
    (h : ∀ c ∈ rest.head?, c ≠ '-' ∧ c ≠ '+') :
    takeSign (s.text ++ rest) = (decide (s = .minus), rest) := by
  cases s with
  | plus | minus => rfl
  | absent =>
    cases rest with
    | nil => rfl
    | cons c rest =>
      obtain ⟨minus, plus⟩ := h c rfl
      simp [Sign.text, takeSign, minus, plus]

theorem exists_takeSign (cs : List Char) : ∃ s : Sign, cs = s.text ++ (takeSign cs).2 ∧
    (takeSign cs).1 = decide (s = .minus) := by
  unfold takeSign
  split
  · exact ⟨.minus, rfl, rfl⟩
  · exact ⟨.plus, rfl, rfl⟩
  · exact ⟨.absent, rfl, rfl⟩

/-! ## Mantissas -/

namespace Numeral.Mantissa

theorem head?_text_append (m : Mantissa) (rest : List Char) :
    ∀ c ∈ (m.text ++ rest).head?, c ≠ '-' ∧ c ≠ '+' := by
  have digits (ds : Digits) (rest : List Char) :
      ∀ c ∈ (ds.text ++ rest).head?, c ≠ '-' ∧ c ≠ '+' := by
    obtain ⟨c, r, heq, digit⟩ := ds.exists_cons
    rw [heq]
    rintro _ ⟨⟩
    exact ⟨(ne_of_isDigit digit).1, (ne_of_isDigit digit).2.1⟩
  cases m with
  | whole ds => exact digits ds rest
  | pointed ds decimals _ => simpa [text] using digits ds ('.' :: (decimals ++ rest))
  | fraction ds =>
    rintro _ ⟨⟩
    decide

end Numeral.Mantissa

theorem takeFraction_suffix (whole cs : List Char) : (takeFraction whole cs).2 <:+ cs := by
  unfold takeFraction
  split
  · split_ifs
    · exact List.suffix_rfl
    · exact (afterDigits_suffix _).trans (List.suffix_cons ..)
  · exact List.suffix_rfl

/-- A point counts with a digit in front of it or behind it. -/
theorem takeFraction_point {whole : List Char} {r : List Char}
    (h : whole ≠ [] ∨ leadingDigits r ≠ []) :
    takeFraction whole ('.' :: r) = (leadingDigits r, afterDigits r) := by
  refine if_neg fun none => ?_
  simp only [Bool.and_eq_true, List.isEmpty_iff] at none
  exact h.elim (fun h => h none.1) fun h => h none.2

theorem takeFraction_of_head {whole rest : List Char} (h : rest.head? ≠ some '.') :
    takeFraction whole rest = ([], rest) := by
  unfold takeFraction
  split
  · exact absurd rfl h
  · rfl

/-- The scanner passes a mantissa. It goes no further, unless what stands behind goes on with a
digit or a point. -/
theorem takeMantissa_append (m : Mantissa) (rest : List Char) :
    let whole := leadingDigits (m.text ++ rest)
    let fraction := takeFraction whole (afterDigits (m.text ++ rest))
    ¬ (whole.isEmpty && fraction.1.isEmpty) ∧ fraction.2 <:+ rest ∧
      ((∀ c ∈ rest.head?, ¬ isDigit c ∧ c ≠ '.') →
        whole = m.front ∧ fraction = (m.decimals, rest)) := by
  intro whole fraction
  cases m with
  | whole ds =>
    obtain ⟨leading, after⟩ := digits_append ds.digits rest
    have hwhole : whole = ds.text ++ leadingDigits rest := leading
    have hfraction : fraction = takeFraction whole (afterDigits rest) :=
      congrArg (takeFraction whole) after
    refine ⟨by simp [hwhole, ds.ne], ?_, fun ends => ?_⟩
    · rw [hfraction]
      exact (takeFraction_suffix _ _).trans (afterDigits_suffix rest)
    · obtain ⟨none, all⟩ := digits_of_head fun c hc => (ends c hc).1
      rw [hwhole, none, List.append_nil, hfraction, all,
        takeFraction_of_head fun point => (ends _ point).2 rfl]
      exact ⟨rfl, rfl⟩
  | pointed ds decimals digits =>
    have text : (Mantissa.pointed ds decimals digits).text ++ rest =
        ds.text ++ '.' :: (decimals ++ rest) := by simp [Mantissa.text]
    obtain ⟨leading, after⟩ := digits_append ds.digits ('.' :: (decimals ++ rest))
    have point : leadingDigits ('.' :: (decimals ++ rest)) = [] ∧
        afterDigits ('.' :: (decimals ++ rest)) = '.' :: (decimals ++ rest) :=
      digits_of_head (by rintro _ ⟨⟩; decide)
    have hwhole : whole = ds.text := by
      simp only [whole, text, leading, point, List.append_nil]
    have hfraction : fraction = (decimals ++ leadingDigits rest, afterDigits rest) := by
      simp only [fraction, hwhole, text, after, point]
      rw [takeFraction_point (.inl ds.ne), (digits_append digits rest).1,
        (digits_append digits rest).2]
    refine ⟨by simp [hwhole, ds.ne], ?_, fun ends => ?_⟩
    · rw [hfraction]
      exact afterDigits_suffix rest
    · obtain ⟨none, all⟩ := digits_of_head fun c hc => (ends c hc).1
      rw [hfraction, none, all, List.append_nil]
      exact ⟨hwhole, rfl⟩
  | fraction ds =>
    have point : leadingDigits ('.' :: (ds.text ++ rest)) = [] ∧
        afterDigits ('.' :: (ds.text ++ rest)) = '.' :: (ds.text ++ rest) :=
      digits_of_head (by rintro _ ⟨⟩; decide)
    obtain ⟨leading, after⟩ := digits_append ds.digits rest
    have hwhole : whole = [] := point.1
    have hfraction : fraction = (ds.text ++ leadingDigits rest, afterDigits rest) := by
      have step : fraction = takeFraction whole ('.' :: (ds.text ++ rest)) :=
        congrArg (takeFraction whole) point.2
      rw [step, takeFraction_point (.inr (by simp [leading, ds.ne])), leading, after]
    refine ⟨by simp [hfraction, ds.ne], ?_, fun ends => ?_⟩
    · rw [hfraction]
      exact afterDigits_suffix rest
    · obtain ⟨none, all⟩ := digits_of_head fun c hc => (ends c hc).1
      rw [hfraction, none, all, List.append_nil]
      exact ⟨hwhole, rfl⟩

/-- What the scanner takes in front of an exponent is a mantissa. -/
theorem exists_mantissa {cs : List Char}
    (h : ¬ ((leadingDigits cs).isEmpty &&
      (takeFraction (leadingDigits cs) (afterDigits cs)).1.isEmpty)) :
    ∃ m : Mantissa, cs = m.text ++ (takeFraction (leadingDigits cs) (afterDigits cs)).2 ∧
      m.front = leadingDigits cs ∧
      m.decimals = (takeFraction (leadingDigits cs) (afterDigits cs)).1 := by
  have parts := leadingDigits_append_afterDigits cs
  by_cases point : (afterDigits cs).head? = some '.'
  · obtain ⟨r, hr⟩ : ∃ r, afterDigits cs = '.' :: r := by
      cases hcs : afterDigits cs with
      | nil => simp [hcs] at point
      | cons c r =>
        obtain rfl : c = '.' := by simpa [hcs] using point
        exact ⟨r, rfl⟩
    by_cases digit : leadingDigits cs ≠ [] ∨ leadingDigits r ≠ []
    · rw [hr, takeFraction_point digit]
      rw [hr] at parts
      by_cases whole : leadingDigits cs = []
      · refine ⟨.fraction (.leading r (digit.resolve_left fun ne => ne whole)), ?_, whole.symm, rfl⟩
        conv_lhs => rw [← parts, whole, ← leadingDigits_append_afterDigits r]
        rfl
      · refine ⟨.pointed (.leading cs whole) (leadingDigits r) isDigit_of_mem_leadingDigits, ?_,
          rfl, rfl⟩
        conv_lhs => rw [← parts, ← leadingDigits_append_afterDigits r]
        simp [Mantissa.text, Digits.leading]
    · simp only [not_or, not_not] at digit
      simp [hr, digit.1, takeFraction, digit.2] at h
  · rw [takeFraction_of_head point] at h ⊢
    have ne : leadingDigits cs ≠ [] := by simpa using h
    exact ⟨.whole (.leading cs ne), parts.symm, rfl, rfl⟩

/-! ## Exponents -/

theorem takeExponent_suffix (cs : List Char) : (takeExponent cs).2 <:+ cs := by
  have sign (cs : List Char) : (takeSign cs).2 <:+ cs := by
    obtain ⟨s, heq, -⟩ := exists_takeSign cs
    exact ⟨s.text, heq.symm⟩
  unfold takeExponent
  split
  · split
    · dsimp only
      split
      · exact List.suffix_rfl
      · exact (afterDigits_suffix _).trans ((sign _).trans (List.suffix_cons ..))
    · exact List.suffix_rfl
  · exact List.suffix_rfl

theorem takeExponent_append (x : Exponent) (rest : List Char) :
    (takeExponent (x.text ++ rest)).2 <:+ rest ∧
      (rest = [] → takeExponent (x.text ++ rest) = (x.value, [])) := by
  have signed : takeSign (x.sign.text ++ (x.digits.text ++ rest)) =
      (decide (x.sign = .minus), x.digits.text ++ rest) := by
    obtain ⟨c, r, heq, digit⟩ := x.digits.exists_cons
    refine takeSign_append x.sign ?_
    rw [heq]
    rintro _ ⟨⟩
    exact ⟨(ne_of_isDigit digit).1, (ne_of_isDigit digit).2.1⟩
  obtain ⟨leading, after⟩ := digits_append x.digits.digits rest
  have taken : takeExponent (x.text ++ rest) =
      (if x.sign = .minus then -(exponentSize (x.digits.text ++ leadingDigits rest) : Int)
        else exponentSize (x.digits.text ++ leadingDigits rest), afterDigits rest) := by
    have text : x.text ++ rest = x.letter :: (x.sign.text ++ (x.digits.text ++ rest)) := by
      simp [Exponent.text]
    rw [text, takeExponent, if_pos x.isLetter]
    simp [signed, leading, after, x.digits.ne]
  rw [taken]
  refine ⟨afterDigits_suffix rest, ?_⟩
  rintro rfl
  have none : leadingDigits [] = [] ∧ afterDigits [] = [] := ⟨rfl, rfl⟩
  rw [none.1, none.2, List.append_nil, Exponent.value]

theorem exists_exponent (cs : List Char) : ∃ x? : Option Exponent,
    cs = (x?.map (·.text)).getD [] ++ (takeExponent cs).2 ∧
      (takeExponent cs).1 = (x?.map (·.value)).getD 0 := by
  unfold takeExponent
  split
  · rename_i c r
    by_cases letter : c = 'e' ∨ c = 'E'
    · rw [if_pos letter]
      by_cases digits : leadingDigits (takeSign r).2 = []
      · exact ⟨none, by simp [digits], by simp [digits]⟩
      · obtain ⟨s, heq, negative⟩ := exists_takeSign r
        refine ⟨some ⟨c, letter, s, .leading _ digits⟩, ?_, ?_⟩
        · have parts := leadingDigits_append_afterDigits (takeSign r).2
          simp [digits, Exponent.text, Digits.leading, parts, ← heq]
        · simp [digits, negative, Exponent.value, Digits.leading]
    · rw [if_neg letter]
      exact ⟨none, rfl, rfl⟩
  · exact ⟨none, rfl, rfl⟩

/-! ## Scanning -/

/-- The scanner passes every number that a text begins with. If nothing stands behind the number, it
comes to what the number stands for. -/
theorem takeNumber_append (n : Numeral) (rest : List Char) :
    ∃ d left, takeNumber (n.text ++ rest) = some (d, left) ∧ left <:+ rest ∧
      (rest = [] → d = n.value) := by
  obtain ⟨sign, mantissa, exponent?⟩ := n
  let exponent := (exponent?.map (·.text)).getD []
  have text : Numeral.text ⟨sign, mantissa, exponent?⟩ ++ rest =
      sign.text ++ (mantissa.text ++ (exponent ++ rest)) := by
    simp [Numeral.text, exponent]
  have signed := takeSign_append sign (mantissa.head?_text_append (exponent ++ rest))
  obtain ⟨number, passed, exact⟩ := takeMantissa_append mantissa (exponent ++ rest)
  rw [text, takeNumber, signed]
  simp only [if_neg number]
  refine ⟨_, _, rfl, ?_⟩
  cases exponent? with
  | none =>
    refine ⟨(takeExponent_suffix _).trans passed, ?_⟩
    rintro rfl
    obtain ⟨whole, fraction⟩ := exact (by rintro _ ⟨⟩)
    simp only [fraction]
    rw [whole]
    rfl
  | some x =>
    have letter : ∀ c ∈ (x.text ++ rest).head?, ¬ isDigit c ∧ c ≠ '.' := by
      rintro _ ⟨⟩
      rcases x.isLetter with h | h <;> rw [h] <;> decide
    obtain ⟨whole, fraction⟩ := exact letter
    obtain ⟨behind, ends⟩ := takeExponent_append x rest
    simp only [fraction]
    refine ⟨behind, fun none => ?_⟩
    rw [whole, show exponent = x.text from rfl, ends none]
    rfl

/-- What the scanner takes is a number of the grammar. -/
theorem exists_numeral {cs rest : List Char} {d : Decimal} (h : takeNumber cs = some (d, rest)) :
    ∃ n : Numeral, cs = n.text ++ rest ∧ n.value = d := by
  unfold takeNumber at h
  dsimp only at h
  split_ifs at h with number
  obtain ⟨rfl, rfl⟩ := Prod.mk.inj (Option.some.inj h)
  obtain ⟨sign, hsign, negative⟩ := exists_takeSign cs
  obtain ⟨mantissa, hmantissa, front, decimals⟩ := exists_mantissa number
  obtain ⟨exponent?, hexponent, size⟩ := exists_exponent
    (takeFraction (leadingDigits (takeSign cs).2) (afterDigits (takeSign cs).2)).2
  refine ⟨⟨sign, mantissa, exponent?⟩, ?_, ?_⟩
  · rw [Numeral.text, List.append_assoc, List.append_assoc, ← hexponent, ← hmantissa, ← hsign]
  · rw [Numeral.value, front, decimals, negative, size]

section Scanned

variable {cs rest : List Char} {d : Decimal}

theorem takeNumber_text (n : Numeral) : takeNumber n.text = some (n.value, []) := by
  obtain ⟨d, left, taken, behind, exact⟩ := takeNumber_append n []
  obtain rfl := List.suffix_nil.1 behind
  rwa [List.append_nil, exact rfl] at taken

/-- What is written the same stands for the same. -/
theorem Numeral.value_eq {m n : Numeral} (h : m.text = n.text) : m.value = n.value := by
  have same := (takeNumber_text m).symm.trans (h ▸ takeNumber_text n)
  exact (Prod.mk.inj (Option.some.inj same)).1

theorem Numeral.IsLongest.text_eq {m n : Numeral} (hm : m.IsLongest cs) (hn : n.IsLongest cs) :
    m.text = n.text := by
  have same : m.text.length = n.text.length := Nat.le_antisymm (hn.2 m hm.1) (hm.2 n hn.1)
  exact (List.prefix_of_prefix_length_le hm.1 hn.1 same.le).eq_of_length same

/-- The scanner takes the longest number that a text begins with. -/
theorem takeNumber_eq_some_iff : takeNumber cs = some (d, rest) ↔
    ∃ n : Numeral, n.IsLongest cs ∧ cs = n.text ++ rest ∧ n.value = d := by
  have longest {d : Decimal} {rest : List Char} (h : takeNumber cs = some (d, rest)) :
      ∃ n : Numeral, n.IsLongest cs ∧ cs = n.text ++ rest ∧ n.value = d := by
    obtain ⟨n, heq, value⟩ := exists_numeral h
    refine ⟨n, ⟨⟨rest, heq.symm⟩, fun m hm => ?_⟩, heq, value⟩
    obtain ⟨tail, htail⟩ := hm
    obtain ⟨d', left, taken, behind, -⟩ := takeNumber_append m tail
    rw [htail, h] at taken
    obtain ⟨rfl, rfl⟩ := Prod.mk.inj (Option.some.inj taken)
    have lengths := congrArg List.length (htail.trans heq)
    have shorter := behind.length_le
    simp only [List.length_append] at lengths
    omega
  refine ⟨longest, ?_⟩
  rintro ⟨n, hn, heq, rfl⟩
  obtain ⟨d, left, taken, -, -⟩ := takeNumber_append n rest
  rw [← heq] at taken
  obtain ⟨m, hm, heq', rfl⟩ := longest taken
  have same := hm.text_eq hn
  have behind : left = rest := List.append_cancel_left (same ▸ heq'.symm.trans heq)
  rw [taken, behind, Numeral.value_eq same]

theorem takeNumber_eq_none_iff : takeNumber cs = none ↔ ∀ n : Numeral, ¬ n.text <+: cs := by
  constructor
  · rintro none n ⟨tail, rfl⟩
    obtain ⟨d, left, taken, -⟩ := takeNumber_append n tail
    rw [none] at taken
    cases taken
  · intro h
    cases taken : takeNumber cs with
    | none => rfl
    | some x =>
      obtain ⟨d, rest⟩ := x
      obtain ⟨n, heq, -⟩ := exists_numeral taken
      exact absurd ⟨rest, heq.symm⟩ (h n)

end Scanned

/-! ## Values -/

section Values

variable {R : Type} [Scalar R] {cs : List Char}

theorem parseNumber_eq_some_iff {x : R} : parseNumber cs = some x ↔
    ∃ n : Numeral, n.text = trim cs ∧ Scalar.ofDecimal n.value = x := by
  unfold parseNumber
  constructor
  · intro h
    split at h
    · rename_i d taken
      obtain ⟨n, heq, rfl⟩ := exists_numeral taken
      rw [List.append_nil] at heq
      exact ⟨n, heq.symm, Option.some.inj h⟩
    · cases h
  · rintro ⟨n, heq, rfl⟩
    rw [← heq, takeNumber_text]

theorem parseLenient_eq_some_iff {x : R} : parseLenient cs = some x ↔
    ∃ n : Numeral, n.IsLongest (trim cs) ∧ Scalar.ofDecimal n.value = x := by
  unfold parseLenient
  rw [Option.map_eq_some_iff]
  constructor
  · rintro ⟨⟨d, rest⟩, taken, rfl⟩
    obtain ⟨n, longest, -, rfl⟩ := takeNumber_eq_some_iff.1 taken
    exact ⟨n, longest, rfl⟩
  · rintro ⟨n, longest, rfl⟩
    obtain ⟨rest, heq⟩ := longest.1
    exact ⟨(n.value, rest), takeNumber_eq_some_iff.2 ⟨n, longest, heq.symm, rfl⟩, rfl⟩

theorem parseLenient_isSome_iff :
    (parseLenient cs : Option R).isSome ↔ ∃ n : Numeral, n.text <+: trim cs := by
  rw [parseLenient, Option.isSome_map, Option.isSome_iff_ne_none, Ne, takeNumber_eq_none_iff]
  simp

/-! ## Lengths -/

theorem parts_eq_splitOnP (separates : Char → Bool) (cs : List Char) :
    parts separates cs = cs.splitOnP separates := by
  induction cs with
  | nil => rfl
  | cons c cs ih =>
    rw [List.splitOnP_cons_eq_if_modifyHead, ← ih, parts, List.foldr_cons, ← parts]
    have ne : parts separates cs ≠ [] := by
      rw [ih]
      exact List.splitOnP_ne_nil separates cs
    obtain ⟨p, ps, heq⟩ := List.exists_cons_of_ne_nil ne
    rw [heq]
    rfl

/-- The sum of numbers that are weighted by factors, from the left to the right. -/
def weighted (xs factors : List R) : R := (List.zipWith (· * ·) xs factors).foldl (· + ·) 0

theorem weightedSum_eq_some_iff {l : List (List Char × R)} {total v : R} :
    weightedSum l total = some v ↔ ∃ xs, List.Forall₂ (fun p x => parseNumber p = some x)
      (l.map Prod.fst) xs ∧ v = (List.zipWith (· * ·) xs (l.map Prod.snd)).foldl (· + ·) total := by
  induction l generalizing total with
  | nil => simp [weightedSum, eq_comm]
  | cons p l ih =>
    obtain ⟨part, factor⟩ := p
    simp only [List.map_cons, List.forall₂_cons_left_iff]
    cases hx : (parseNumber part : Option R) with
    | none => simp [weightedSum, hx]
    | some x =>
      simp only [weightedSum, hx, ih]
      constructor
      · rintro ⟨xs, read, rfl⟩
        exact ⟨x :: xs, ⟨x, xs, rfl, read, rfl⟩, rfl⟩
      · rintro ⟨_, ⟨y, xs, hy, read, rfl⟩, rfl⟩
        obtain rfl := Option.some.inj hy
        exact ⟨xs, read, rfl⟩

theorem parseLength_eq_some_iff {factors : List R} {v : R} : parseLength factors cs = some v ↔
    (cs.splitOn ':').length ≤ factors.length ∧
      ∃ xs, List.Forall₂ (fun p x => parseNumber p = some x) (cs.splitOn ':') xs ∧
        v = weighted xs (factors.drop (factors.length - (cs.splitOn ':').length)) := by
  have parts : parts (· = ':') cs = cs.splitOn ':' := parts_eq_splitOnP ..
  unfold parseLength
  simp only [parts]
  split_ifs with many
  · simp [many]
  · have fits : (cs.splitOn ':').length ≤ factors.length := not_lt.1 many
    have count : (factors.drop (factors.length - (cs.splitOn ':').length)).length =
        (cs.splitOn ':').length := by
      rw [List.length_drop]
      omega
    rw [weightedSum_eq_some_iff, List.map_fst_zip count.ge, List.map_snd_zip count.le]
    simp [fits, weighted]

/-- Factors in front of those that are needed have no part in a length. -/
theorem parseLength_append {factors : List R} {v : R} (h : parseLength factors cs = some v)
    (more : List R) : parseLength (more ++ factors) cs = some v := by
  obtain ⟨fits, xs, read, rfl⟩ := parseLength_eq_some_iff.1 h
  refine parseLength_eq_some_iff.2 ⟨by rw [List.length_append]; omega, xs, read, ?_⟩
  have behind : (more ++ factors).length - (cs.splitOn ':').length =
      more.length + (factors.length - (cs.splitOn ':').length) := by
    rw [List.length_append]
    omega
  rw [behind, ← List.drop_drop, List.drop_left]

/-! ## Reading -/

variable (R cs) in
/-- What is read as a number off a text. -/
structure ReadsNumbers : Prop where
  /-- The scanner takes the longest number that the text begins with. -/
  scanned : ∀ d rest, takeNumber cs = some (d, rest) ↔
    ∃ n : Numeral, n.IsLongest cs ∧ cs = n.text ++ rest ∧ n.value = d
  /-- It takes nothing only if the text begins with no number. -/
  unscanned : takeNumber cs = none ↔ ∀ n : Numeral, ¬ n.text <+: cs
  /-- A text is a number if the grammar has it, blanks around it aside. -/
  strict : ∀ x : R, parseNumber cs = some x ↔
    ∃ n : Numeral, n.text = trim cs ∧ Scalar.ofDecimal n.value = x
  /-- An argument is the longest number that it begins with. -/
  lenient : ∀ x : R, parseLenient cs = some x ↔
    ∃ n : Numeral, n.IsLongest (trim cs) ∧ Scalar.ofDecimal n.value = x
  /-- It is read if it begins with any number. -/
  begun : (parseLenient cs : Option R).isSome ↔ ∃ n : Numeral, n.text <+: trim cs
  /-- A length has no more parts between colons than there are factors, and its parts are numbers.
  It is their sum, weighted by the last factors. -/
  length : ∀ (factors : List R) (v : R), parseLength factors cs = some v ↔
    (cs.splitOn ':').length ≤ factors.length ∧
      ∃ xs, List.Forall₂ (fun p x => parseNumber p = some x) (cs.splitOn ':') xs ∧
        v = weighted xs (factors.drop (factors.length - (cs.splitOn ':').length))
  /-- It stays the same with further factors in front. -/
  further : ∀ (more factors : List R) (v : R), parseLength factors cs = some v →
    parseLength (more ++ factors) cs = some v

variable (R cs) in
/-- Numbers are read by the grammar: a text as a whole, an argument as far as it goes, and a length
part by part. -/
theorem readsNumbers : ReadsNumbers R cs where
  scanned _ _ := takeNumber_eq_some_iff
  unscanned := takeNumber_eq_none_iff
  strict _ := parseNumber_eq_some_iff
  lenient _ := parseLenient_eq_some_iff
  begun := parseLenient_isSome_iff
  length _ _ := parseLength_eq_some_iff
  further more _ _ h := parseLength_append h more

end Values

end RailRoute.Source
