import RailRoute.Decimal.Shortest

/-!
# Layouts of numbers

The shortest digits of a number can be laid out with or without an exponent. `plain` never uses
one and writes whole numbers without a point; `marked` always shows that a number is not an integer,
by a fractional part or by an exponent.
-/

namespace RailRoute.Decimal

/-- How the digits of a number are laid out. -/
structure Layout where
  /-- Whole numbers end in `.0`. -/
  keepPoint : Bool
  /-- The powers of ten of the first digit for which no exponent is written; all of them if
  absent. -/
  positional : Option (Int × Int)
  deriving DecidableEq, Repr

/-- Never an exponent, and whole numbers without a point. -/
def plain : Layout := ⟨false, none⟩

/-- At least one decimal place, and an exponent below `10 ^ (-4)` and from `10 ^ 16` on. -/
def marked : Layout := ⟨true, some (-4, 15)⟩

/-- The digits written out at their places. -/
def placed (keepPoint : Bool) (digits : List Char) (exponent : Int) : List Char :=
  if 0 ≤ exponent then
    digits ++ List.replicate exponent.toNat '0' ++ if keepPoint then ['.', '0'] else []
  else
    let places := (-exponent).toNat
    if places < digits.length then
      digits.take (digits.length - places) ++ '.' :: digits.drop (digits.length - places)
    else '0' :: '.' :: (List.replicate (places - digits.length) '0' ++ digits)

/-- The digits with a point behind the first one and an exponent. -/
def scientific (digits : List Char) (exponent : Int) : List Char :=
  let power := exponent + (digits.length : Int) - 1
  digits.take 1 ++ (if digits.length ≤ 1 then [] else '.' :: digits.drop 1) ++
    'e' :: (toString power).toList

/-- The text of the magnitude `digits * 10 ^ exponent`. -/
def magnitudeText (layout : Layout) (digits : Nat) (exponent : Int) : List Char :=
  let ds := Nat.toDigits 10 digits
  let power := exponent + (ds.length : Int) - 1
  match layout.positional with
  | none => placed layout.keepPoint ds exponent
  | some (low, high) =>
    if digits = 0 ∨ (low ≤ power ∧ power ≤ high) then placed layout.keepPoint ds exponent
    else scientific ds exponent

/-- Whether a floating-point number with the given bits is neither infinite nor undefined. -/
def isFiniteBits (bits : UInt64) : Bool := bits.toNat / fractionCount % 2048 < 2047

/-- The text of a floating-point number. -/
def text (layout : Layout) (x : Float) : String :=
  let bits := x.toBits
  let signed (cs : List Char) : String :=
    String.ofList (if bits.toNat / (2048 * fractionCount) = 1 then '-' :: cs else cs)
  if isFiniteBits bits then
    let digits := shortest bits
    signed (magnitudeText layout digits.1 digits.2)
  else if bits.toNat % fractionCount = 0 then signed "inf".toList
  else "NaN"

end RailRoute.Decimal
