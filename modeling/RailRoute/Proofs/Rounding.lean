import Mathlib
import RailRoute.Proofs.Comparison

/-!
# What rounding does to signs

Rounding keeps the sign of a number, but it may take a number that is not zero to zero, and a
product of numbers need not be a number. For what is written in a route there are few such cases.
Main statements: what is written is a number (`beq_self_toFloat`), a product is one unless zero
meets infinity (`mul_beq_self_iff`), and of all positive numbers only the least is lost when
kilometers per hour are made into meters per second (`zero_lt_div_iff`).

What is positive is compared with `Zero.zero` here, the zero of the arithmetic of a route.
-/

namespace RailRoute.FloatOrder

open Float.Model UnpackedFloat

/-! ## Packing -/

/-- The sign of what is a number. -/
def sign? : UnpackedFloat → Option Sign
  | .notANumber => none
  | .infinity s | .zero s | .finite s .. => some s

theorem unpack_packedInfinity (s : Sign) :
    UnpackedFloat.unpack Format.binary64 (packedInfinity Format.binary64 s) = .infinity s := by
  simp [UnpackedFloat.unpack, packedInfinity]

theorem unpack_pack_infinity (s : Sign) : (Float.Model.pack (.infinity s)).unpack = .infinity s :=
  unpack_packedInfinity s

section Components

variable (s : Sign) {e : BitVec 11} (m : BitVec 52) (he : e ≠ -1#11)

include he

theorem sign?_unpack_packComponents :
    sign? (UnpackedFloat.unpack Format.binary64 (packComponents Format.binary64 s e m)) =
      some s := by
  simp only [UnpackedFloat.unpack, unpackExponent_packComponents, unpackMantissa_packComponents,
    unpackSign_packComponents, if_neg he, Sign.ofBitVec_toBitVec]
  split_ifs <;> rfl

theorem unpack_packComponents_ne_zero (ne : e ≠ 0#11 ∨ m ≠ 0#52) (s' : Sign) :
    UnpackedFloat.unpack Format.binary64 (packComponents Format.binary64 s e m) ≠ .zero s' := by
  simp only [UnpackedFloat.unpack, unpackExponent_packComponents, unpackMantissa_packComponents,
    if_neg he]
  split_ifs with exponent mantissa
  · exact absurd mantissa (ne.resolve_left (not_not.2 exponent))
  all_goals rintro ⟨⟩

end Components

/-- The biased exponent of a finite number is not the one that is left for infinity. -/
theorem ofNat_ne_neg_one {b : ℕ} (h : ¬ 2 ^ 11 ≤ b + 1) : BitVec.ofNat 11 b ≠ -1#11 := by
  intro heq
  have := congrArg BitVec.toNat heq
  simp at this
  omega

/-- Packing keeps the sign of a number. -/
theorem sign?_unpack_pack (u : UnpackedFloat) : sign? (Float.Model.pack u).unpack = sign? u := by
  change sign? (UnpackedFloat.unpack _ (UnpackedFloat.pack Format.binary64 u)) = _
  cases u with
  | notANumber => simp [UnpackedFloat.pack, sign?]
  | infinity s => simp [UnpackedFloat.pack, unpack_packedInfinity]
  | zero s => simp [UnpackedFloat.pack]
  | finite s m e hm =>
    unfold UnpackedFloat.pack
    dsimp only
    split_ifs with large normal
    · rw [unpack_packedInfinity]
      rfl
    · exact sign?_unpack_packComponents s _ (ofNat_ne_neg_one large)
    · exact sign?_unpack_packComponents s _ (by decide)

theorem unpack_pack_ne_notANumber {u : UnpackedFloat} :
    (Float.Model.pack u).unpack ≠ .notANumber ↔ u ≠ .notANumber := by
  have number (u : UnpackedFloat) : u ≠ .notANumber ↔ sign? u ≠ none := by cases u <;> simp [sign?]
  rw [number, sign?_unpack_pack, ← number]

/-- A number other than zero is not packed as zero, if floating point has its digits and its
exponent. -/
theorem unpack_pack_finite_ne_zero {s : Sign} {m : ℕ} {e : ℤ} (hm : 0 < m) (fits : m < 2 ^ 53)
    (he : -1074 ≤ e) (s' : Sign) : (Float.Model.pack (.finite s m e hm)).unpack ≠ .zero s' := by
  change UnpackedFloat.unpack _ (UnpackedFloat.pack Format.binary64 _) ≠ _
  unfold UnpackedFloat.pack
  dsimp only
  split_ifs with large normal
  · rw [unpack_packedInfinity]
    rintro ⟨⟩
  · refine unpack_packComponents_ne_zero s _ (ofNat_ne_neg_one large) (.inl fun heq => ?_) s'
    have biased : (e + 1023 + 52).toNat % 2 ^ 11 = 0 :=
      (BitVec.toNat_ofNat ..).symm.trans (congrArg BitVec.toNat heq)
    have small : ¬ 2 ^ 11 ≤ (e + 1023 + 52).toNat + 1 := large
    omega
  · refine unpack_packComponents_ne_zero s _ (by decide) (.inr fun heq => ?_) s'
    have mantissa : m % 2 ^ 52 = 0 := by simpa using congrArg BitVec.toNat heq
    have below : m.log2 < 53 := (Nat.log2_lt hm.ne').2 fits
    have other : m.log2 + 1 ≠ 53 := normal
    have small : m < 2 ^ 52 := (Nat.log2_lt hm.ne').1 (by omega)
    omega

/-- What is unpacked has 53 digits at the most, and fewer only at the least exponent. -/
theorem bounds_of_unpack {x : Float} {s : Sign} {m : ℕ} {e : ℤ} {hm : 0 < m}
    (h : x.toModel.unpack = .finite s m e hm) :
    m < 2 ^ 53 ∧ -1074 ≤ e ∧ (2 ^ 52 ≤ m ∨ e = -1074) := by
  have bias : ((Format.binary64.exponentBias : ℕ) : ℤ) = 1023 := rfl
  have digits (mantissa : BitVec 52) : mantissa.toNat < 2 ^ 52 := mantissa.isLt
  change UnpackedFloat.unpack Format.binary64 x.toModel.toBits.toBitVec = _ at h
  unfold UnpackedFloat.unpack at h
  dsimp only at h
  split_ifs at h with infinite number subnormal zero
  · cases h
    refine ⟨(digits _).trans (by decide), ?_, .inr ?_⟩ <;> rw [subnormal] <;> decide
  · cases h
    have implicit (mantissa : BitVec 52) : (1#1 ++ mantissa).toNat = 2 ^ 52 + mantissa.toNat := by
      rw [BitVec.toNat_append, ← Nat.shiftLeft_add_eq_or_of_lt mantissa.isLt]
      rfl
    have pos := mt BitVec.eq_of_toNat_eq subnormal
    rw [BitVec.toNat_zero] at pos
    rw [implicit, bias]
    refine ⟨?_, by omega, .inl (Nat.le_add_right ..)⟩
    exact (Nat.add_lt_add_left (digits _) _).trans_eq (by norm_num)

/-! ## Rounding -/

section Rounding

variable (m : ℕ) (e : ℤ) (a : Accuracy)

theorem shiftRight_mantissa (em : ExtendedMantissa) (k : ℕ) :
    (em >>> k).mantissa = em.mantissa / 2 ^ k := by
  change (Nat.repeat ExtendedMantissa.shiftRightOne k em).mantissa = _
  induction k with
  | zero => simp [Nat.repeat]
  | succ k ih =>
    rw [Nat.repeat, ExtendedMantissa.shiftRightOne, ih, Nat.div_div_eq_div_mul, pow_succ]

theorem mantissa_le_roundedMantissa (em : ExtendedMantissa) : em.mantissa ≤ em.roundedMantissa := by
  obtain ⟨m, r, s⟩ := em
  cases r <;> cases s <;> simp [ExtendedMantissa.roundedMantissa, ExtendedMantissa.accuracy,
    Accuracy.roundToNearestEven]

theorem ofMantissaAndAccuracy_mantissa :
    (ExtendedMantissa.ofMantissaAndAccuracy m a).mantissa = m := by
  rcases a with _ | _ | _ | _ <;> rfl

/-- By how many digits a mantissa is too long for its exponent. -/
def excess : ℕ := (Format.binary64.targetExponent (totalExponent m e) - e).toNat

theorem excess_eq : excess m e = max (m.log2 - 52) (-1074 - e).toNat := by
  have least : Format.binary64.minExponent = -1074 := rfl
  have digits : Format.binary64.mantissaBits = 53 := rfl
  rw [excess, Format.targetExponent, totalExponent, least, digits]
  omega

theorem shiftToTargetExponent_eq : shiftToTargetExponent Format.binary64 m e a =
    (ExtendedMantissa.ofMantissaAndAccuracy m a >>> excess m e, e + excess m e) := rfl

theorem le_add_excess : -1074 ≤ e + excess m e := by
  rw [excess_eq]
  omega

theorem div_excess_lt : m / 2 ^ excess m e < 2 ^ 53 := by
  rw [Nat.div_lt_iff_lt_mul (by positivity), ← pow_add]
  have digits : m.log2 + 1 ≤ 53 + excess m e := by
    rw [excess_eq]
    omega
  exact Nat.lt_log2_self.trans_le (Nat.pow_le_pow_right (by decide) digits)

variable {m e} in
/-- The first digit of a mantissa is kept, unless the exponent is too small. -/
theorem div_excess_pos (hm : 0 < m) (he : -1074 ≤ e) : 0 < m / 2 ^ excess m e := by
  have digits : excess m e ≤ m.log2 := by
    rw [excess_eq]
    omega
  exact Nat.div_pos ((Nat.pow_le_pow_right (by decide) digits).trans (Nat.log2_self_le hm.ne'))
    (by positivity)

/-- What a mantissa is rounded to. -/
def rounded : ℕ := (ExtendedMantissa.ofMantissaAndAccuracy m a >>> excess m e).roundedMantissa

/-- What is rounded up may have a digit too many again. -/
theorem roundWithAccuracy_eq (s : Sign) : roundWithAccuracy Format.binary64 s m e a =
    if h : rounded m e a / 2 ^ excess (rounded m e a) (e + excess m e) = 0 then .zero s
    else .finite s _ (e + excess m e + excess (rounded m e a) (e + excess m e))
      (Nat.pos_of_ne_zero h) := by
  unfold roundWithAccuracy
  simp only [shiftToTargetExponent_eq, shiftRight_mantissa, ofMantissaAndAccuracy_mantissa]
  rfl

variable {m e a}

theorem sign?_roundWithAccuracy (s : Sign) :
    sign? (roundWithAccuracy Format.binary64 s m e a) = some s := by
  rw [roundWithAccuracy_eq]
  split_ifs <;> rfl

theorem roundWithAccuracy_ne_notANumber (s : Sign) :
    roundWithAccuracy Format.binary64 s m e a ≠ .notANumber := by
  rw [roundWithAccuracy_eq]
  split_ifs <;> rintro ⟨⟩

/-- A number is rounded to zero only if its mantissa is. -/
theorem unpack_pack_roundWithAccuracy (s : Sign) (pos : 0 < rounded m e a) (s' : Sign) :
    (Float.Model.pack (roundWithAccuracy Format.binary64 s m e a)).unpack ≠ .zero s' := by
  have first := le_add_excess m e
  rw [roundWithAccuracy_eq, dif_neg (div_excess_pos pos first).ne']
  refine unpack_pack_finite_ne_zero _ (div_excess_lt ..) ?_ s'
  exact first.trans (Int.le_add_of_nonneg_right (Int.natCast_nonneg _))

theorem rounded_pos (he : -1074 ≤ e) (h : 0 < m ∨ a = .inexact .gt) : 0 < rounded m e a := by
  by_cases hm : 0 < m
  · have kept := mantissa_le_roundedMantissa
      (ExtendedMantissa.ofMantissaAndAccuracy m a >>> excess m e)
    rw [shiftRight_mantissa, ofMantissaAndAccuracy_mantissa] at kept
    exact (div_excess_pos hm he).trans_le kept
  · obtain rfl := h.resolve_left hm
    obtain rfl : m = 0 := by omega
    have none : excess 0 e = 0 := by
      rw [excess_eq]
      simpa using he
    rw [rounded, none]
    decide

end Rounding

/-! ## Signs of numbers -/

theorem beq_self_iff_ne {x : Float} : x == x ↔ x.toModel.unpack ≠ .notANumber := by
  rw [beq_self_iff]
  rcases x.toModel.unpack with (_ | _) | _ | _ | ⟨_ | _, m, e, hm⟩ <;> simp [rank]

theorem zero_lt_iff {x : Float} : Zero.zero < x ↔
    sign? x.toModel.unpack = some .positive ∧ ∀ s, x.toModel.unpack ≠ .zero s := by
  have zero : rank (Zero.zero : Float).toModel.unpack = some (toLex (0, toLex (0, 0))) := rfl
  rw [lt_iff_rank, zero]
  rcases x.toModel.unpack with (_ | _) | _ | _ | ⟨_ | _, m, e, hm⟩ <;>
    simp [rank, sign?, Prod.Lex.lt_iff]

theorem beq_zero_iff {x : Float} : x == 0 ↔ ∃ s, x.toModel.unpack = .zero s := by
  have zero : rank (0 : Float).toModel.unpack = some (toLex (0, toLex (0, 0))) := rfl
  change (x.toModel.unpack.compare (0 : Float).toModel.unpack == some .eq) = true ↔ _
  rw [compare_eq, zero]
  rcases x.toModel.unpack with (_ | _) | _ | _ | ⟨_ | _, m, e, hm⟩ <;> simp [rank, Prod.ext_iff]

theorem unpack_of_pos {x : Float} (h : Zero.zero < x) : x.toModel.unpack = .infinity .positive ∨
    ∃ m e hm, x.toModel.unpack = .finite .positive m e hm := by
  obtain ⟨sign, nonzero⟩ := zero_lt_iff.1 h
  cases hu : x.toModel.unpack with
  | notANumber => simp [hu, sign?] at sign
  | zero s => exact absurd hu (nonzero s)
  | infinity s =>
    obtain rfl : s = .positive := by simpa [hu, sign?] using sign
    exact .inl rfl
  | finite s m e hm =>
    obtain rfl : s = .positive := by simpa [hu, sign?] using sign
    exact .inr ⟨m, e, hm, rfl⟩

/-! ## Products and quotients -/

section Operations

variable {x y : Float}

theorem unpack_mul : (x * y).toModel.unpack = (Float.Model.pack
    (UnpackedFloat.mul Format.binary64 x.toModel.unpack y.toModel.unpack)).unpack := rfl

theorem unpack_div : (x / y).toModel.unpack = (Float.Model.pack
    (UnpackedFloat.div Format.binary64 x.toModel.unpack y.toModel.unpack)).unpack := rfl

theorem isInf_eq : y.isInf = y.toModel.unpack.isInf := rfl

/-- A product of numbers is a number, unless it is zero times infinity. -/
theorem mul_beq_self_iff (hx : x == x) (hy : Zero.zero < y) :
    x * y == x * y ↔ ¬ (x == 0 ∧ y.isInf) := by
  rw [beq_self_iff_ne] at hx
  rw [beq_self_iff_ne, unpack_mul, unpack_pack_ne_notANumber, beq_zero_iff, isInf_eq]
  generalize x.toModel.unpack = u at hx ⊢
  rcases unpack_of_pos hy with hv | ⟨m, e, hm, hv⟩ <;> rw [hv]
  · cases u <;> simp_all [UnpackedFloat.mul, UnpackedFloat.isInf]
  · cases u <;> simp_all [UnpackedFloat.mul, UnpackedFloat.isInf, roundWithAccuracy_ne_notANumber]

theorem div_beq_self (hx : x == x) (hy : Zero.zero < y) (finite : ¬ y.isInf) :
    x / y == x / y := by
  rw [beq_self_iff_ne] at hx
  rw [isInf_eq] at finite
  rw [beq_self_iff_ne, unpack_div, unpack_pack_ne_notANumber]
  generalize x.toModel.unpack = u at hx ⊢
  rcases unpack_of_pos hy with hv | ⟨m, e, hm, hv⟩
  · simp [hv, UnpackedFloat.isInf] at finite
  · rw [hv]
    cases u <;> simp_all [UnpackedFloat.div, roundWithAccuracy_ne_notANumber]

theorem unpack_fixed : (Scalar.fixed 36 1 : Float).toModel.unpack =
    .finite .positive 8106479329266893 (-51) (by decide) := by
  have bits : (Scalar.fixed 36 1 : Float) = Float.ofBits 0x400CCCCCCCCCCCCD := by decide
  rw [bits]
  rfl

/-- Divided by 3.6, whatever is not less than twice the least number is more than half of it. -/
theorem rounded_divCore {m : ℕ} {e : ℤ} (hm : 2 ≤ m) (fits : m < 2 ^ 53) (he : -1074 ≤ e) :
    let q := divCore Format.binary64 m e 8106479329266893 (-51)
    0 < rounded q.1 q.2.1 q.2.2 := by
  have least : Format.binary64.minExponent = -1074 := rfl
  have digits : Format.binary64.mantissaBits = 53 := rfl
  have below : m.log2 < 53 := (Nat.log2_lt (by omega)).2 fits
  have divisor : Nat.log2 8106479329266893 = 52 := by decide
  simp only [divCore, Format.targetExponent, least, digits, totalExponent, divisor]
  refine rounded_pos (by omega) ?_
  generalize hshift : (e - (-51) - _ : ℤ).toNat = shift
  have places : 51 ≤ shift := by omega
  have enough : 8106479329266893 < 2 * m <<< shift := by
    have := Nat.pow_le_pow_right (n := 2) (by decide) places
    rw [Nat.shiftLeft_eq]
    nlinarith
  refine (Nat.eq_zero_or_pos _).symm.imp id fun none => ?_
  have small : m <<< shift < 8106479329266893 := by
    rwa [Nat.div_eq_zero_iff_lt (by decide)] at none
  rw [Nat.mod_eq_of_lt small, accuracyOfFraction, if_neg (by omega), compare_gt_iff_gt.2 enough]

theorem eq_of_toBits {b : UInt64} (h : x.toBits = b) : x = Float.ofBits b := by
  rw [← h, Float.ofBits_toBits]

theorem toBits_of_unpack_one {e : ℤ} {h₁ : 0 < 1}
    (h : x.toModel.unpack = .finite .positive 1 e h₁) : x.toBits = 1 := by
  obtain ⟨-, -, least⟩ := bounds_of_unpack h
  obtain rfl : e = -1074 := least.resolve_left (by decide)
  have same : x.toModel.unpack = (Float.ofBits 1).toModel.unpack := h
  have bits := (unpack_inj_of_valid x.toModel.valid (Float.ofBits 1).toModel.valid).1 same
  exact UInt64.toBitVec_inj.1 bits

/-- Of all positive numbers, only the least is lost when it is divided by 3.6. -/
theorem zero_lt_div_iff (hx : Zero.zero < x) :
    Zero.zero < x / Scalar.fixed 36 1 ↔ x.toBits ≠ 1 := by
  constructor
  · intro pos least
    rw [eq_of_toBits least] at pos
    exact absurd pos (by decide)
  · intro ne
    rw [zero_lt_iff, unpack_div, sign?_unpack_pack, unpack_fixed]
    rcases unpack_of_pos hx with hu | ⟨m, e, hm, hu⟩ <;> rw [hu]
    · exact ⟨rfl, fun s => unpack_pack_infinity .positive ▸ nofun⟩
    · obtain ⟨fits, he, -⟩ := bounds_of_unpack hu
      have two : 2 ≤ m := by
        by_contra one
        obtain rfl : m = 1 := by omega
        exact ne (toBits_of_unpack_one hu)
      exact ⟨sign?_roundWithAccuracy .positive,
        unpack_pack_roundWithAccuracy .positive (rounded_divCore two fits he)⟩

theorem zero_le_div (hx : Zero.zero < x) : Zero.zero ≤ x / Scalar.fixed 36 1 := by
  by_cases least : x.toBits = 1
  · rw [eq_of_toBits least]
    decide
  · exact (ComparableScalar.lt_iff.1 ((zero_lt_div_iff hx).2 least)).1

end Operations

/-! ## Written numbers -/

theorem beq_self_ofUInt64 (n : UInt64) : n.toFloat == n.toFloat := by
  rw [beq_self_iff_ne]
  change (Float.Model.pack _).unpack ≠ _
  rw [unpack_pack_ne_notANumber]
  unfold UnpackedFloat.ofUInt64 UnpackedFloat.ofNat UnpackedFloat.ofInt UnpackedFloat.normalize
  split
  · exact roundWithAccuracy_ne_notANumber _
  · nofun
  · exact roundWithAccuracy_ne_notANumber _

theorem beq_self_ofScientific (n : ℕ) (negative : Bool) (e : ℕ) :
    Float.ofScientific n negative e == Float.ofScientific n negative e := by
  have powers : ∀ p ∈ Float.exactlyRepresentablePowersOfTen, Zero.zero < p ∧ ¬ p.isInf := by
    decide
  unfold Float.ofScientific
  split_ifs with fast small
  · exact div_beq_self (beq_self_ofUInt64 _) (powers _ (Array.getElem_mem _)).1
      (powers _ (Array.getElem_mem _)).2
  · exact (mul_beq_self_iff (beq_self_ofUInt64 _) (powers _ (Array.getElem_mem _)).1).2
      fun h => (powers _ (Array.getElem_mem _)).2 h.2
  all_goals
    rw [beq_self_iff_ne]
    change (Float.Model.pack _).unpack ≠ _
    rw [unpack_pack_ne_notANumber]
    unfold UnpackedFloat.ofScientific
    split_ifs
    all_goals first | exact roundWithAccuracy_ne_notANumber _ | simp

theorem beq_self_neg {x : Float} (hx : x == x) : -x == -x := by
  rw [beq_self_iff_ne] at hx ⊢
  change (Float.Model.pack x.toModel.unpack.neg).unpack ≠ _
  rw [unpack_pack_ne_notANumber]
  generalize x.toModel.unpack = u at hx ⊢
  cases u <;> simp_all [UnpackedFloat.neg]

/-- What is written is a number. -/
theorem beq_self_toFloat (d : Decimal) : d.toFloat == d.toFloat := by
  have magnitude (n : ℕ) (e : ℤ) :
      Decimal.floatMagnitude n e == Decimal.floatMagnitude n e := by
    have zero : (0.0 : Float) == 0.0 := by decide
    have infinity : (1.0 / 0.0 : Float) == 1.0 / 0.0 := by decide
    unfold Decimal.floatMagnitude
    split
    · exact zero
    · cases e with
      | ofNat e =>
        dsimp only
        split_ifs
        exacts [infinity, beq_self_ofScientific ..]
      | negSucc k =>
        dsimp only
        split_ifs
        exacts [zero, infinity, beq_self_ofScientific ..]
  unfold Decimal.toFloat
  split_ifs
  · exact beq_self_neg (magnitude ..)
  · exact magnitude ..

end RailRoute.FloatOrder
