import Mathlib
import RailRoute.Proofs.Document.Render

/-!
# Escaped strings

A string of a document is a literal of JSON and stands for the text that it was written for. It has
no control characters, and every quote inside it is escaped, so whatever follows it is read to the
quote that closes it and no further. Main statement: `quoted_isLiteral`.
-/

namespace RailRoute.Document

open Text

/-! ## One character -/

/-- Whether a character may stand in a string as it is. -/
def IsUnescaped (c : Char) : Prop := c ≠ '"' ∧ c ≠ '\\' ∧ 0x20 ≤ c.toNat

theorem isUnescaped_hexDigit : ∀ d < 16,
    hexDigit d ≠ '"' ∧ hexDigit d ≠ '\\' ∧ 0x20 ≤ (hexDigit d).toNat := by
  decide

theorem isUnescaped_of_mem_hexDigits {count n : Nat} {c : Char} (h : c ∈ hexDigits count n) :
    IsUnescaped c := by
  induction count generalizing n with
  | zero => exact nomatch h
  | succ count ih =>
    rcases List.mem_append.1 h with front | last
    · exact ih front
    · rw [List.mem_singleton.1 last]
      exact isUnescaped_hexDigit (n % 16) (Nat.mod_lt n (by decide))

/-- A character is written as it is, or as another one behind a backslash, with digits behind that
if it takes more than one. -/
theorem escapeChar_cases (c : Char) : escapeChar c = [c] ∧ IsUnescaped c ∨
    ∃ d tail, escapeChar c = '\\' :: d :: tail ∧ 0x20 ≤ d.toNat ∧ ∀ e ∈ tail, IsUnescaped e := by
  have short (d : Char) (hd : 0x20 ≤ d.toNat) : ∃ d' tail, ['\\', d] = '\\' :: d' :: tail ∧
      0x20 ≤ d'.toNat ∧ ∀ e ∈ tail, IsUnescaped e := ⟨d, [], rfl, hd, by simp⟩
  unfold escapeChar
  split_ifs with quote backslash feed carriage tab control
  · exact .inr (short '"' (by decide))
  · exact .inr (short '\\' (by decide))
  · exact .inr (short 'n' (by decide))
  · exact .inr (short 'r' (by decide))
  · exact .inr (short 't' (by decide))
  · exact .inr ⟨'u', _, rfl, by decide, fun _ => isUnescaped_of_mem_hexDigits⟩
  · exact .inl ⟨rfl, quote, backslash, not_lt.1 control⟩

theorem toNat_of_mem_escapeChar {c d : Char} (h : d ∈ escapeChar c) : 0x20 ≤ d.toNat := by
  rcases escapeChar_cases c with ⟨plain, unescaped⟩ | ⟨e, tail, escaped, he, htail⟩
  · rw [plain] at h
    rw [List.mem_singleton.1 h]
    exact unescaped.2.2
  · rw [escaped] at h
    rcases List.mem_cons.1 h with rfl | h
    · decide
    rcases List.mem_cons.1 h with rfl | h
    · exact he
    · exact (htail d h).2.2

/-- A quote in what a character is written as stands behind a backslash that begins it. -/
theorem eq_of_escapeChar {c : Char} {before behind : List Char}
    (h : escapeChar c = before ++ '"' :: behind) : before = ['\\'] := by
  rcases escapeChar_cases c with ⟨plain, unescaped⟩ | ⟨d, tail, escaped, -, htail⟩
  · have quote : '"' ∈ [c] := by rw [← plain, h]; simp
    exact absurd (List.mem_singleton.1 quote).symm unescaped.1
  · rw [escaped] at h
    rcases before with - | ⟨b, - | ⟨b', before⟩⟩
    · exact absurd (List.cons.inj h).1 (by decide)
    · rw [(List.cons.inj h).1]
    · have quote : '"' ∈ tail := by
        rw [(List.cons.inj (List.cons.inj h).2).2]
        exact List.mem_append_right _ (List.mem_cons_self ..)
      exact absurd rfl (htail _ quote).1

/-! ## Backslashes -/

/-- How many backslashes a text ends in. -/
def backslashes (cs : List Char) : Nat := (cs.rtakeWhile (· = '\\')).length

theorem backslashes_concat (cs : List Char) : backslashes (cs ++ ['\\']) = backslashes cs + 1 := by
  simp [backslashes]

theorem backslashes_concat_of_ne (cs : List Char) {c : Char} (h : c ≠ '\\') :
    backslashes (cs ++ [c]) = 0 := by
  simp [backslashes, h]

/-- An escaped text escapes nothing behind it: the backslashes at its end belong to pairs. -/
theorem even_backslashes_escape (content : List Char) :
    Even (backslashes (content.flatMap escapeChar)) := by
  induction content using List.reverseRecOn with
  | nil => exact Even.zero
  | append_singleton content c ih =>
    rw [List.flatMap_append, List.flatMap_singleton]
    rcases escapeChar_cases c with ⟨plain, unescaped⟩ | ⟨d, tail, escaped, -, htail⟩
    · rw [plain, backslashes_concat_of_ne _ unescaped.2.1]
      exact Even.zero
    · rw [escaped]
      rcases List.eq_nil_or_concat tail with rfl | ⟨t, e, rfl⟩
      · rw [List.append_cons]
        by_cases hd : d = '\\'
        · rw [hd, backslashes_concat, backslashes_concat]
          exact ih.add even_two
        · rw [backslashes_concat_of_ne _ hd]
          exact Even.zero
      · have last : content.flatMap escapeChar ++ '\\' :: d :: t.concat e =
            content.flatMap escapeChar ++ '\\' :: d :: t ++ [e] := by simp
        rw [last, backslashes_concat_of_ne _ (htail e (by simp)).2.1]
        exact Even.zero

/-- A quote in an escaped text is one of the text and has its backslash in front. -/
theorem exists_of_escape {content before behind : List Char}
    (h : content.flatMap escapeChar = before ++ '"' :: behind) :
    ∃ front : List Char, before = front.flatMap escapeChar ++ ['\\'] := by
  induction content generalizing before with
  | nil => simp at h
  | cons c content ih =>
    rw [List.flatMap_cons, List.append_eq_append_iff] at h
    rcases h with ⟨further, rfl, rest⟩ | ⟨inside, here, rest⟩
    · obtain ⟨front, rfl⟩ := ih rest
      exact ⟨c :: front, by simp⟩
    · cases inside with
      | nil =>
        obtain ⟨front, hnil⟩ := @ih [] rest.symm
        simp at hnil
      | cons q inside =>
        obtain ⟨rfl, -⟩ := List.cons.inj rest
        exact ⟨[], eq_of_escapeChar here⟩

/-! ## Strings -/

/-- What is known of the string that is written for a text. -/
structure IsLiteral (s : String) : Prop where
  /-- It is a JSON text: a string with that content. -/
  parsed : Json.parse (quoted s) = some (.string s.toList)
  /-- It is read to its last quote, whatever follows. -/
  ends : ∀ rest, Json.readString ((Text.escape s).toList ++ '"' :: rest) = some (s.toList, rest)
  /-- There is no control character in it. -/
  visible : ∀ c ∈ (quoted s).toList, 0x20 ≤ c.toNat
  /-- A quote inside it is escaped. -/
  guarded : ∀ before behind, (Text.escape s).toList = before ++ '"' :: behind →
    Odd (backslashes before)
  /-- No other text is escaped alike. -/
  unique : ∀ t, Text.escape t = Text.escape s → t = s

theorem toList_escape (s : String) : (Text.escape s).toList = s.toList.flatMap escapeChar := by
  simp [Text.escape]

theorem toNat_of_mem_escape {s : String} {c : Char} (h : c ∈ (Text.escape s).toList) :
    0x20 ≤ c.toNat := by
  rw [toList_escape] at h
  obtain ⟨d, -, hd⟩ := List.mem_flatMap.1 h
  exact toNat_of_mem_escapeChar hd

/-- A text is written as a string that stands for it and for no other text. -/
theorem quoted_isLiteral (s : String) : IsLiteral s where
  parsed := by
    have whole : (quoted s).toList = (quoted s).toList ++ [] := (List.append_nil _).symm
    exact Json.parse_of_reads 1 whole (List.forall_mem_nil _) (by simp [quoted]) fun depth =>
      reads_quoted s
  ends rest := by rw [toList_escape, Json.readString_escape]
  visible c hc := by
    have parts : c = '"' ∨ c ∈ (Text.escape s).toList := by
      simpa [quoted, or_comm, or_assoc] using hc
    rcases parts with rfl | inside
    · decide
    · exact toNat_of_mem_escape inside
  guarded before behind h := by
    rw [toList_escape] at h
    obtain ⟨front, rfl⟩ := exists_of_escape h
    rw [backslashes_concat]
    exact (even_backslashes_escape front).add_one
  unique t h := by
    have same := Json.readString_escape t.toList []
    rw [← toList_escape, h, toList_escape, Json.readString_escape] at same
    exact String.toList_injective (by simpa using same.symm)

end RailRoute.Document
