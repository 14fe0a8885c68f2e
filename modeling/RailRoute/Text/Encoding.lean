import RailRoute.Text.Basic

/-!
# Bytes, text and lines

A route file is a sequence of bytes in one of four encodings. A byte order mark at its beginning
overrides the declared one. Bytes that encode nothing become replacement characters: in UTF-8 one
for each longest beginning of a valid sequence, in UTF-16 one for each half of a surrogate pair that
stands alone. The decoded text is cut into lines at line feeds, carriage returns and pairs of both.
-/

namespace RailRoute

/-- The encodings a route file may be declared to have. -/
inductive Encoding where
  | utf8
  | latin1
  | utf16le
  | utf16be
  deriving DecidableEq, Repr

namespace Encoding

/-- The encoding with the given name, in which neither case nor the choice between `_` and `-`
matters. The spelling that was looked up is returned if there is none. -/
def ofName (name : String) : Except String Encoding :=
  let spelling := String.ofList ((Text.lower name.toList).map fun c => if c = '_' then '-' else c)
  if spelling ∈ ["utf8", "utf-8"] then .ok .utf8
  else if spelling ∈ ["latin1", "latin-1", "iso-8859-1", "windows-1252"] then .ok .latin1
  else if spelling ∈ ["utf16", "utf-16", "utf-16le", "utf16le"] then .ok .utf16le
  else if spelling ∈ ["utf-16be", "utf16be"] then .ok .utf16be
  else .error spelling

/-- What is said about a name that belongs to no encoding. -/
def unknownText (spelling : String) : String := s!"unknown encoding \"{spelling}\""

end Encoding

namespace Text

/-- What stands in for bytes that encode nothing. -/
def replacement : Char := '\uFFFD'

/-! ## UTF-8 -/

/-- Whether a byte continues a sequence of UTF-8. -/
def isContinuation (b : UInt8) : Bool := 0x80 ≤ b && b ≤ 0xBF

/-- Whether a byte may follow the lead byte of a sequence. Some lead bytes allow fewer second
bytes, so that nothing is encoded too long, as a surrogate or beyond the last code point. -/
def mayFollow (lead b : UInt8) : Bool :=
  if lead = 0xE0 then 0xA0 ≤ b && b ≤ 0xBF
  else if lead = 0xED then 0x80 ≤ b && b ≤ 0x9F
  else if lead = 0xF0 then 0x90 ≤ b && b ≤ 0xBF
  else if lead = 0xF4 then 0x80 ≤ b && b ≤ 0x8F
  else isContinuation b

/-- How many bytes follow a lead byte, if the byte can begin a sequence of UTF-8. -/
def followers? (lead : UInt8) : Option Nat :=
  if lead < 0x80 then some 0
  else if 0xC2 ≤ lead ∧ lead ≤ 0xDF then some 1
  else if 0xE0 ≤ lead ∧ lead ≤ 0xEF then some 2
  else if 0xF0 ≤ lead ∧ lead ≤ 0xF4 then some 3
  else none

/-- The payload of a continuation byte. -/
def payload (b : UInt8) : Nat := b.toNat % 64

/-- The character whose sequence begins with the byte `a`, and how many bytes behind it belong to
the sequence. -/
def sequenceAt (a : UInt8) (r : List UInt8) : Char × Nat :=
  match followers? a with
  | none => (replacement, 0)
  | some 0 => (Char.ofNat a.toNat, 0)
  | some n =>
    match r with
    | [] => (replacement, 0)
    | b :: r₁ =>
      if !mayFollow a b then (replacement, 0)
      else if n = 1 then (Char.ofNat (a.toNat % 32 * 64 + payload b), 1)
      else
        match r₁ with
        | [] => (replacement, 1)
        | c :: r₂ =>
          if !isContinuation c then (replacement, 1)
          else if n = 2 then
            (Char.ofNat ((a.toNat % 16 * 64 + payload b) * 64 + payload c), 2)
          else
            match r₂ with
            | [] => (replacement, 2)
            | d :: _ =>
              if !isContinuation d then (replacement, 2)
              else (Char.ofNat
                (((a.toNat % 8 * 64 + payload b) * 64 + payload c) * 64 + payload d), 3)

/-- Decodes UTF-8; `skip` counts the bytes still to come of a sequence already decoded. -/
def decodeUtf8From : Nat → List UInt8 → List Char
  | _, [] => []
  | skip + 1, _ :: r => decodeUtf8From skip r
  | 0, a :: r => (sequenceAt a r).1 :: decodeUtf8From (sequenceAt a r).2 r

/-- Decodes UTF-8. -/
def decodeUtf8 (bytes : List UInt8) : List Char := decodeUtf8From 0 bytes

/-! ## UTF-16 -/

/-- The code units of UTF-16 in the given byte order; a byte left over at the end is dropped. -/
def units16 (bigEndian : Bool) : List UInt8 → List Nat
  | a :: b :: r =>
    (if bigEndian then a.toNat * 256 + b.toNat else b.toNat * 256 + a.toNat) :: units16 bigEndian r
  | _ => []

/-- Whether a code unit is the first half of a surrogate pair. -/
def isHighSurrogate (u : Nat) : Bool := 0xD800 ≤ u && u < 0xDC00

/-- Whether a code unit is the second half of a surrogate pair. -/
def isLowSurrogate (u : Nat) : Bool := 0xDC00 ≤ u && u < 0xE000

/-- The character of a code unit that is no part of a surrogate pair. -/
def loneUnit (u : Nat) : Char :=
  if isHighSurrogate u || isLowSurrogate u then replacement else Char.ofNat u

/-- Decodes code units of UTF-16. -/
def decodeUnits16 : List Nat → List Char
  | [] => []
  | [u] => [loneUnit u]
  | u :: v :: r =>
    if isHighSurrogate u && isLowSurrogate v then
      Char.ofNat (0x10000 + (u - 0xD800) * 1024 + (v - 0xDC00)) :: decodeUnits16 r
    else loneUnit u :: decodeUnits16 (v :: r)

/-! ## Files -/

/-- Decodes bytes that carry no byte order mark. -/
def decodeBody : Encoding → List UInt8 → List Char
  | .utf8, bytes => decodeUtf8 bytes
  | .latin1, bytes => bytes.map fun b => Char.ofNat b.toNat
  | .utf16le, bytes => decodeUnits16 (units16 false bytes)
  | .utf16be, bytes => decodeUnits16 (units16 true bytes)

/-- Decodes the contents of a file. A byte order mark overrides the declared encoding. -/
def decode (declared : Encoding) : List UInt8 → List Char
  | 0xEF :: 0xBB :: 0xBF :: body => decodeBody .utf8 body
  | 0xFF :: 0xFE :: body => decodeBody .utf16le body
  | 0xFE :: 0xFF :: body => decodeBody .utf16be body
  | bytes => decodeBody declared bytes

/-- The text with every pair of carriage return and line feed made one line feed. -/
def joinLineEnds : List Char → List Char
  | '\r' :: '\n' :: r => '\n' :: joinLineEnds r
  | c :: r => c :: joinLineEnds r
  | [] => []

/-- The lines of a text. -/
def lines (text : List Char) : List (List Char) :=
  parts (fun c => c = '\n' || c = '\r') (joinLineEnds text)

end Text

end RailRoute
