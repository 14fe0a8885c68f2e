import RailRoute.Scalar
import RailRoute.Source.Digits

/-!
# Numbers in a route

A number is an optional sign, digits with an optional point among, before or behind them, and an
optional exponent. Track positions are strict: the whole text must be a number, or several numbers
divided by colons and weighted by the factors of the unit of length. Arguments of commands are
lenient and take the longest beginning that is a number.
-/

namespace RailRoute.Source

/-! ## Scanning -/

/-- Whether a text begins with a minus sign, and what follows its sign, if it has one. -/
def takeSign : List Char → Bool × List Char
  | '-' :: r => (true, r)
  | '+' :: r => (false, r)
  | cs => (false, cs)

/-- The digits behind the point, and what follows them. A point counts only if a digit stands
before or behind it. -/
def takeFraction (whole : List Char) : List Char → List Char × List Char
  | '.' :: r =>
    if whole.isEmpty && (leadingDigits r).isEmpty then ([], '.' :: r)
    else (leadingDigits r, afterDigits r)
  | cs => ([], cs)

/-- From this size on an exponent takes no more digits. -/
def exponentBound : Nat := 0x10000

/-- The size of an exponent. The first of its digits that make it `exponentBound` or more are the
last that count. -/
def exponentSize (ds : List Char) : Nat :=
  ds.foldl (fun n d => if n < exponentBound then 10 * n + digitValue d else n) 0

/-- The exponent, and what follows it. A letter without digits behind it is no exponent. -/
def takeExponent (cs : List Char) : Int × List Char :=
  match cs with
  | c :: r =>
    if c = 'e' ∨ c = 'E' then
      let signed := takeSign r
      let ds := leadingDigits signed.2
      if ds.isEmpty then (0, cs)
      else
        let size : Int := exponentSize ds
        (if signed.1 then -size else size, afterDigits signed.2)
    else (0, cs)
  | [] => (0, cs)

/-- The longest number a text begins with, and what follows it. -/
def takeNumber (cs : List Char) : Option (Decimal × List Char) :=
  let signed := takeSign cs
  let whole := leadingDigits signed.2
  let fraction := takeFraction whole (afterDigits signed.2)
  if whole.isEmpty && fraction.1.isEmpty then none
  else
    let exponent := takeExponent fraction.2
    some (⟨signed.1, digitsValue (whole ++ fraction.1), exponent.1 - (fraction.1.length : Int)⟩,
      exponent.2)

/-! ## Values -/

variable {R : Type} [Scalar R]

/-- The value of a text that is a number as a whole, blanks around it aside. -/
def parseNumber (cs : List Char) : Option R :=
  match takeNumber (Text.trim cs) with
  | some (d, []) => some (Scalar.ofDecimal d)
  | _ => none

/-- The value of the longest number a text begins with, blanks before it aside. -/
def parseLenient (cs : List Char) : Option R :=
  (takeNumber (Text.trim cs)).map fun x => Scalar.ofDecimal x.1

/-- The integer part of the longest number a text begins with, computed in `R`; none from
`9 * 10 ^ 18` on. -/
def parseInt (R : Type) [Scalar R] (cs : List Char) : Option Int :=
  match (parseLenient cs : Option R) with
  | some x =>
    if Scalar.abs x < Scalar.ofDecimal ⟨false, 9, 18⟩ then some (Scalar.truncInt x) else none
  | none => none

/-- Adds up the values of the parts, each weighted by its factor. -/
def weightedSum : List (List Char × R) → R → Option R
  | [], total => some total
  | (part, factor) :: rest, total =>
    match parseNumber part with
    | some x => weightedSum rest (total + x * factor)
    | none => none

/-- A length under the factors of the unit of length: the last of its parts, which are divided by
colons, is weighted by the last factor, the one before by the last factor but one, and so on. -/
def parseLength (factors : List R) (cs : List Char) : Option R :=
  let parts := Text.parts (· = ':') cs
  if factors.length < parts.length then none
  else weightedSum (parts.zip (factors.drop (factors.length - parts.length))) 0

/-! ## Times of day -/

/-- One or two digits at the beginning of a text, and what follows them. -/
def takeTwoDigits : List Char → Option (List Char × List Char)
  | a :: b :: r =>
    if isDigit a then if isDigit b then some ([a, b], r) else some ([a], b :: r) else none
  | [a] => if isDigit a then some ([a], []) else none
  | [] => none

/-- Minutes or seconds; a single digit counts tens. -/
def sixtieths (ds : List Char) : Nat :=
  if ds.length = 1 then 10 * digitsValue ds else digitsValue ds

/-- Seconds at the end of a time: nothing, or one or two digits that end the text. -/
def secondsAtEnd : List Char → Option Nat
  | [] => some 0
  | cs =>
    match takeTwoDigits cs with
    | some (ds, []) => some (sixtieths ds)
    | _ => none

/-- A time of day `hh`, `hh.mm`, `hh.mmss` or `hh:mm:ss`, in seconds. -/
def parseTime (cs : List Char) : Option Nat :=
  match takeTwoDigits (Text.trim cs) with
  | some (hours, []) => some (3600 * digitsValue hours)
  | some (hours, c :: r) =>
    if c = '.' ∨ c = ':' then
      match takeTwoDigits r with
      | some (minutes, r₁) =>
        let rest := match r₁ with
          | ':' :: r₂ => r₂
          | _ => r₁
        (secondsAtEnd rest).map fun s => 3600 * digitsValue hours + 60 * sixtieths minutes + s
      | none => none
    else none
  | none => none

end RailRoute.Source
