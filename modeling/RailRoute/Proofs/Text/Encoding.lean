import Mathlib
import RailRoute.Text.Encoding

/-!
# Encoded text

What a text is written as in each of the four encodings, and that decoding gives the text back. In
UTF-8 and UTF-16 this holds for all texts, in Latin-1 for those of characters up to `0xFF`. A byte
order mark in front of the bytes settles the encoding; without one it is the declared one. Main
statements: `decodeBody_encode`, `decode_of_not_isMarked` and `decode_mark`.
-/

namespace RailRoute.Text

/-! ## Writing -/

/-- The code units of UTF-16 for a character. Those beyond `0xFFFF` take a surrogate pair. -/
def codeUnits (c : Char) : List Nat :=
  if c.toNat < 0x10000 then [c.toNat]
  else [0xD800 + (c.toNat - 0x10000) / 1024, 0xDC00 + (c.toNat - 0x10000) % 1024]

/-- The two bytes of a code unit in the given byte order. -/
def unitBytes (bigEndian : Bool) (u : Nat) : List UInt8 :=
  if bigEndian then [.ofNat (u / 256), .ofNat (u % 256)] else [.ofNat (u % 256), .ofNat (u / 256)]

/-- The bytes that a text is written as. -/
def encode : Encoding → List Char → List UInt8
  | .utf8, cs => cs.flatMap String.utf8EncodeChar
  | .latin1, cs => cs.map fun c => .ofNat c.toNat
  | .utf16le, cs => (cs.flatMap codeUnits).flatMap (unitBytes false)
  | .utf16be, cs => (cs.flatMap codeUnits).flatMap (unitBytes true)

/-- The byte order marks. -/
def marks : List (Encoding × List UInt8) :=
  [(.utf8, [0xEF, 0xBB, 0xBF]), (.utf16le, [0xFF, 0xFE]), (.utf16be, [0xFE, 0xFF])]

/-- Whether bytes begin with a byte order mark. -/
def IsMarked (bytes : List UInt8) : Prop := ∃ m ∈ marks, m.2 <+: bytes

instance (bytes : List UInt8) : Decidable (IsMarked bytes) :=
  inferInstanceAs (Decidable (∃ m ∈ marks, m.2 <+: bytes))

/-- A code point is one of a character: no half of a surrogate pair, and not beyond the last. -/
theorem isValid_toNat (c : Char) : c.toNat < 0xD800 ∨ 0xDFFF < c.toNat ∧ c.toNat < 0x110000 :=
  c.valid

/-! ## UTF-8 -/

section Sequences

variable {a b c d : UInt8} (r : List UInt8)

theorem sequenceAt_one (lead : followers? a = some 0) :
    sequenceAt a r = (Char.ofNat a.toNat, 0) := by
  simp [sequenceAt, lead]

theorem sequenceAt_two (lead : followers? a = some 1) (second : mayFollow a b) :
    sequenceAt a (b :: r) = (Char.ofNat (a.toNat % 32 * 64 + payload b), 1) := by
  simp [sequenceAt, lead, second]

theorem sequenceAt_three (lead : followers? a = some 2) (second : mayFollow a b)
    (third : isContinuation c) : sequenceAt a (b :: c :: r) =
      (Char.ofNat ((a.toNat % 16 * 64 + payload b) * 64 + payload c), 2) := by
  simp [sequenceAt, lead, second, third]

theorem sequenceAt_four (lead : followers? a = some 3) (second : mayFollow a b)
    (third : isContinuation c) (fourth : isContinuation d) : sequenceAt a (b :: c :: d :: r) =
      (Char.ofNat (((a.toNat % 8 * 64 + payload b) * 64 + payload c) * 64 + payload d), 3) := by
  simp [sequenceAt, lead, second, third, fourth]

end Sequences

theorem continuation_byte : ∀ e < 64,
    isContinuation (.ofNat (e + 128)) ∧ payload (.ofNat (e + 128)) = e := by
  decide

theorem lead_one : ∀ v < 128, followers? (.ofNat v) = some 0 ∧ (UInt8.ofNat v).toNat = v := by
  decide

theorem lead_two : ∀ d < 32, 2 ≤ d →
    followers? (.ofNat (d + 192)) = some 1 ∧ (UInt8.ofNat (d + 192)).toNat % 32 = d := by
  decide

theorem lead_three : ∀ d < 16,
    followers? (.ofNat (d + 224)) = some 2 ∧ (UInt8.ofNat (d + 224)).toNat % 16 = d := by
  decide

theorem lead_four : ∀ d < 5,
    followers? (.ofNat (d + 240)) = some 3 ∧ (UInt8.ofNat (d + 240)).toNat % 8 = d := by
  decide

theorem mayFollow_two : ∀ d < 32, ∀ e < 64, mayFollow (.ofNat (d + 192)) (.ofNat (e + 128)) := by
  decide

/-- A sequence of three bytes is neither too long for its character nor half of a surrogate pair. -/
theorem mayFollow_three : ∀ d < 16, ∀ e < 64, (d = 0 → 32 ≤ e) → (d = 13 → e < 32) →
    mayFollow (.ofNat (d + 224)) (.ofNat (e + 128)) := by
  decide

/-- A sequence of four bytes is not too long and does not lie beyond the last code point. -/
theorem mayFollow_four : ∀ d < 5, ∀ e < 64, (d = 0 → 16 ≤ e) → (d = 4 → e < 16) →
    mayFollow (.ofNat (d + 240)) (.ofNat (e + 128)) := by
  decide

/-- A character is read off the front of what begins with its bytes. -/
theorem decodeUtf8From_encodeChar (c : Char) (rest : List UInt8) :
    decodeUtf8From 0 (String.utf8EncodeChar c ++ rest) = c :: decodeUtf8From 0 rest := by
  have valid := isValid_toNat c
  have same : Char.ofNat c.toNat = c := Char.ofNat_toNat c
  have code : c.val.toNat = c.toNat := rfl
  unfold String.utf8EncodeChar
  simp only [code]
  generalize c.toNat = v at valid same
  have last := continuation_byte (v % 64) (Nat.mod_lt v (by decide))
  have third := continuation_byte (v / 64 % 64) (Nat.mod_lt _ (by decide))
  have second := continuation_byte (v / 4096 % 64) (Nat.mod_lt _ (by decide))
  split_ifs with one two three
  · obtain ⟨lead, value⟩ := lead_one v (by omega)
    simp only [List.cons_append, List.nil_append, decodeUtf8From, sequenceAt_one _ lead, value,
      same]
  · obtain ⟨lead, value⟩ := lead_two (v / 64 % 32) (by omega) (by omega)
    have follows := mayFollow_two (v / 64 % 32) (by omega) (v % 64) (by omega)
    have whole : v / 64 % 32 * 64 + v % 64 = v := by omega
    simp only [List.cons_append, List.nil_append, decodeUtf8From, sequenceAt_two _ lead follows,
      value, last, whole, same]
  · obtain ⟨lead, value⟩ := lead_three (v / 4096 % 16) (by omega)
    have follows := mayFollow_three (v / 4096 % 16) (by omega) (v / 64 % 64) (by omega) (by omega)
      (by omega)
    have whole : (v / 4096 % 16 * 64 + v / 64 % 64) * 64 + v % 64 = v := by omega
    simp only [List.cons_append, List.nil_append, decodeUtf8From,
      sequenceAt_three _ lead follows last.1, value, third, last, whole, same]
  · obtain ⟨lead, value⟩ := lead_four (v / 262144 % 8) (by omega)
    have follows := mayFollow_four (v / 262144 % 8) (by omega) (v / 4096 % 64) (by omega) (by omega)
      (by omega)
    have whole : ((v / 262144 % 8 * 64 + v / 4096 % 64) * 64 + v / 64 % 64) * 64 + v % 64 = v := by
      omega
    simp only [List.cons_append, List.nil_append, decodeUtf8From,
      sequenceAt_four _ lead follows third.1 last.1, value, second, third, last, whole, same]

theorem decodeUtf8_encode (cs : List Char) :
    decodeUtf8 (cs.flatMap String.utf8EncodeChar) = cs := by
  unfold decodeUtf8
  induction cs with
  | nil => rfl
  | cons c cs ih => rw [List.flatMap_cons, decodeUtf8From_encodeChar, ih]

/-! ## UTF-16 -/

theorem units16_unitBytes (bigEndian : Bool) {u : Nat} (h : u < 0x10000) (rest : List UInt8) :
    units16 bigEndian (unitBytes bigEndian u ++ rest) = u :: units16 bigEndian rest := by
  have value : u / 256 % 256 * 256 + u % 256 = u := by omega
  cases bigEndian <;> simp [unitBytes, units16, value]

theorem lt_of_mem_codeUnits {c : Char} {u : Nat} (h : u ∈ codeUnits c) : u < 0x10000 := by
  have valid := isValid_toNat c
  unfold codeUnits at h
  split_ifs at h with small
  · rw [List.mem_singleton.1 h]
    exact small
  · rcases List.mem_pair.1 h with h | h <;> omega

theorem units16_flatMap_unitBytes (bigEndian : Bool) {us : List Nat} (h : ∀ u ∈ us, u < 0x10000) :
    units16 bigEndian (us.flatMap (unitBytes bigEndian)) = us := by
  induction us with
  | nil => rfl
  | cons u us ih =>
    obtain ⟨hu, hus⟩ := List.forall_mem_cons.1 h
    rw [List.flatMap_cons, units16_unitBytes _ hu, ih hus]

/-- A character is read off the front of what begins with its code units. -/
theorem decodeUnits16_codeUnits (c : Char) (rest : List Nat) :
    decodeUnits16 (codeUnits c ++ rest) = c :: decodeUnits16 rest := by
  have valid := isValid_toNat c
  have same : Char.ofNat c.toNat = c := Char.ofNat_toNat c
  unfold codeUnits
  generalize c.toNat = v at valid same
  split_ifs with small
  · have high : isHighSurrogate v = false := by simp [isHighSurrogate]; omega
    have low : isLowSurrogate v = false := by simp [isLowSurrogate]; omega
    have lone : loneUnit v = c := by simp [loneUnit, high, low, same]
    cases rest <;> simp [decodeUnits16, high, lone]
  · have high : isHighSurrogate (0xD800 + (v - 0x10000) / 1024) = true := by
      simp [isHighSurrogate]; omega
    have low : isLowSurrogate (0xDC00 + (v - 0x10000) % 1024) = true := by
      simp [isLowSurrogate]; omega
    have whole : 0x10000 + (0xD800 + (v - 0x10000) / 1024 - 0xD800) * 1024 +
        (0xDC00 + (v - 0x10000) % 1024 - 0xDC00) = v := by omega
    simp only [List.cons_append, List.nil_append, decodeUnits16, high, low, Bool.and_self, if_true,
      whole, same]

theorem decodeUnits16_flatMap_codeUnits (cs : List Char) :
    decodeUnits16 (cs.flatMap codeUnits) = cs := by
  induction cs with
  | nil => rfl
  | cons c cs ih => rw [List.flatMap_cons, decodeUnits16_codeUnits, ih]

theorem decodeUnits16_units16 (bigEndian : Bool) (cs : List Char) :
    decodeUnits16 (units16 bigEndian ((cs.flatMap codeUnits).flatMap (unitBytes bigEndian))) =
      cs := by
  have small : ∀ u ∈ cs.flatMap codeUnits, u < 0x10000 := fun u hu => by
    obtain ⟨c, -, hu⟩ := List.mem_flatMap.1 hu
    exact lt_of_mem_codeUnits hu
  rw [units16_flatMap_unitBytes _ small, decodeUnits16_flatMap_codeUnits]

/-! ## Files -/

/-- A text is decoded as it was encoded. -/
theorem decodeBody_encode {encoding : Encoding} {cs : List Char}
    (fits : encoding = .latin1 → ∀ c ∈ cs, c.toNat ≤ 0xFF) :
    decodeBody encoding (encode encoding cs) = cs := by
  cases encoding with
  | utf8 => exact decodeUtf8_encode cs
  | latin1 =>
    have same : ∀ c ∈ cs, Char.ofNat (UInt8.ofNat c.toNat).toNat = c := fun c hc => by
      rw [UInt8.toNat_ofNat', Nat.mod_eq_of_lt (Nat.lt_succ_of_le (fits rfl c hc)),
        Char.ofNat_toNat]
    simp only [decodeBody, encode, List.map_map]
    exact (List.map_congr_left same).trans (List.map_id cs)
  | utf16le => exact decodeUnits16_units16 false cs
  | utf16be => exact decodeUnits16_units16 true cs

/-- Without a byte order mark the declared encoding counts. -/
theorem decode_of_not_isMarked {bytes : List UInt8} (h : ¬ IsMarked bytes) (declared : Encoding) :
    decode declared bytes = decodeBody declared bytes := by
  unfold decode
  split
  · exact absurd ⟨_, List.mem_of_getElem? (i := 0) rfl, _, rfl⟩ h
  · exact absurd ⟨_, List.mem_of_getElem? (i := 1) rfl, _, rfl⟩ h
  · exact absurd ⟨_, List.mem_of_getElem? (i := 2) rfl, _, rfl⟩ h
  · rfl

/-- A byte order mark settles the encoding, whatever the declared one is. -/
theorem decode_mark {encoding : Encoding} {mark : List UInt8} (h : (encoding, mark) ∈ marks)
    (declared : Encoding) (body : List UInt8) :
    decode declared (mark ++ body) = decodeBody encoding body := by
  simp only [marks, List.mem_cons, Prod.mk.injEq, List.not_mem_nil, or_false] at h
  rcases h with ⟨rfl, rfl⟩ | ⟨rfl, rfl⟩ | ⟨rfl, rfl⟩ <;> rfl

end RailRoute.Text
