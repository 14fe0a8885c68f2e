import Mathlib
import RailRoute.Proofs.Source.Grammar
import RailRoute.Proofs.Text.Encoding

/-!
# Lines of a file

Lines that are joined by one kind of line end come out of the file that they are written to. The
file may be written in any of the encodings: either it is declared to be, and does not begin with
what looks like a byte order mark, or the byte order mark of its encoding stands in front. Main
statement: `lines_decode_encode`.
-/

namespace RailRoute

/-- What may stand between two lines. -/
inductive LineEnd where
  | lf
  | crlf
  | cr
  deriving DecidableEq, Repr

namespace LineEnd

/-- The characters of a line end. -/
def text : LineEnd → List Char
  | lf => ['\n']
  | crlf => ['\r', '\n']
  | cr => ['\r']

/-- The text of lines with the line end between any two of them. -/
def join (e : LineEnd) (ls : List (List Char)) : List Char := e.text.intercalate ls

end LineEnd

namespace Text

/-- Whether a line has no line end in it. -/
def IsLine (cs : List Char) : Prop := '\r' ∉ cs ∧ '\n' ∉ cs

instance (cs : List Char) : Decidable (IsLine cs) :=
  inferInstanceAs (Decidable ('\r' ∉ cs ∧ '\n' ∉ cs))

/-! ## Line ends -/

theorem joinLineEnds_append {xs : List Char} (h : '\r' ∉ xs) (rest : List Char) :
    joinLineEnds (xs ++ rest) = xs ++ joinLineEnds rest := by
  induction xs with
  | nil => rfl
  | cons c xs ih =>
    obtain ⟨hc, hxs⟩ := not_or.1 (mt List.mem_cons.2 h)
    rw [List.cons_append, joinLineEnds, ih hxs, List.cons_append]
    rintro _ rfl
    exact absurd rfl hc

/-- A line end comes to one character. A carriage return does so only if no line feed follows. -/
theorem exists_joinLineEnds (e : LineEnd) {rest : List Char}
    (apart : e = .cr → rest.head? ≠ some '\n') :
    ∃ c, (c = '\n' ∨ c = '\r') ∧ joinLineEnds (e.text ++ rest) = c :: joinLineEnds rest := by
  cases e with
  | lf => exact ⟨'\n', .inl rfl, rfl⟩
  | crlf => exact ⟨'\n', .inl rfl, rfl⟩
  | cr =>
    refine ⟨'\r', .inr rfl, ?_⟩
    change joinLineEnds ('\r' :: rest) = _
    rw [joinLineEnds]
    rintro r - rfl
    exact absurd rfl (apart rfl)

theorem separates_eq_false {cs : List Char} (h : IsLine cs) :
    ∀ c ∈ cs, (c = '\n' || c = '\r') = false := by
  intro c hc
  have feed : c ≠ '\n' := fun heq => h.2 (heq ▸ hc)
  have carriage : c ≠ '\r' := fun heq => h.1 (heq ▸ hc)
  simp [feed, carriage]

theorem lines_of_isLine {l : List Char} (h : IsLine l) : lines l = [l] := by
  have joined : joinLineEnds l = l := by
    rw [← List.append_nil l, joinLineEnds_append h.1, joinLineEnds]
  rw [lines, joined, Source.parts_eq_splitOnP,
    List.splitOnP_eq_singleton (separates_eq_false h)]

/-- The first line is what stands before the first line end. -/
theorem lines_append {l rest : List Char} (h : IsLine l) (e : LineEnd)
    (apart : e = .cr → rest.head? ≠ some '\n') :
    lines (l ++ (e.text ++ rest)) = l :: lines rest := by
  obtain ⟨c, ends, joined⟩ := exists_joinLineEnds e apart
  have separates : (c = '\n' || c = '\r') = true := by simpa using ends
  rw [lines, joinLineEnds_append h.1, joined, Source.parts_eq_splitOnP,
    List.splitOnP_append_cons_of_forall_mem (separates_eq_false h) c separates,
    ← Source.parts_eq_splitOnP]
  rfl

theorem join_cons_cons (e : LineEnd) (l l' : List Char) (ls : List (List Char)) :
    e.join (l :: l' :: ls) = l ++ (e.text ++ e.join (l' :: ls)) := by
  rw [LineEnd.join, List.intercalate_cons_cons, List.append_assoc]
  rfl

theorem mem_join {e : LineEnd} {ls : List (List Char)} {c : Char} (h : c ∈ e.join ls) :
    c ∈ e.text ∨ ∃ l ∈ ls, c ∈ l := by
  induction ls with
  | nil => exact nomatch h
  | cons l ls ih =>
    cases ls with
    | nil =>
      rw [LineEnd.join, List.intercalate_singleton] at h
      exact .inr ⟨l, List.mem_cons_self .., h⟩
    | cons l' ls =>
      rw [join_cons_cons, List.mem_append, List.mem_append] at h
      rcases h with here | between | behind
      · exact .inr ⟨l, List.mem_cons_self .., here⟩
      · exact .inl between
      · exact (ih behind).imp_right fun ⟨k, hk, hc⟩ => ⟨k, List.mem_cons_of_mem _ hk, hc⟩

/-- Joined lines are cut where they were joined. -/
theorem lines_join (e : LineEnd) {ls : List (List Char)} (ne : ls ≠ []) (h : ∀ l ∈ ls, IsLine l) :
    lines (e.join ls) = ls := by
  induction ls with
  | nil => exact absurd rfl ne
  | cons l ls ih =>
    obtain ⟨hl, hls⟩ := List.forall_mem_cons.1 h
    cases ls with
    | nil => rw [LineEnd.join, List.intercalate_singleton, lines_of_isLine hl]
    | cons l' ls =>
      rw [join_cons_cons, lines_append hl e, ih (by simp) hls]
      rintro rfl first
      rcases mem_join (List.mem_of_head? first) with between | ⟨k, hk, feed⟩
      · exact absurd between (by decide)
      · exact (hls k hk).2 feed

/-! ## Files -/

/-- Lines come out of the file that they are written to. Without a byte order mark the file is read
in the encoding that it is written in, and what is written must not begin with what looks like a
mark; with the mark of its encoding in front it may be declared to be in any. -/
theorem lines_decode_encode {encoding : Encoding} {ls : List (List Char)} (e : LineEnd)
    (ne : ls ≠ []) (isLine : ∀ l ∈ ls, IsLine l)
    (fits : encoding = .latin1 → ∀ l ∈ ls, ∀ c ∈ l, c.toNat ≤ 0xFF) :
    (¬ IsMarked (encode encoding (e.join ls)) →
      lines (decode encoding (encode encoding (e.join ls))) = ls) ∧
    ∀ mark, (encoding, mark) ∈ marks → ∀ declared,
      lines (decode declared (mark ++ encode encoding (e.join ls))) = ls := by
  have fits : encoding = .latin1 → ∀ c ∈ e.join ls, c.toNat ≤ 0xFF := fun latin1 c hc => by
    have ends : ∀ c ∈ e.text, c.toNat ≤ 0xFF := by cases e <;> simp [LineEnd.text]
    rcases mem_join hc with between | ⟨l, hl, hc⟩
    · exact ends c between
    · exact fits latin1 l hl c hc
  have body : lines (decodeBody encoding (encode encoding (e.join ls))) = ls := by
    rw [decodeBody_encode fits, lines_join e ne isLine]
  refine ⟨fun unmarked => ?_, fun mark hmark declared => ?_⟩
  · rw [decode_of_not_isMarked unmarked, body]
  · rw [decode_mark hmark, body]

theorem lines_decode_encode_umlauts :
    let ls := ["Öre".toList, [], "ÿ".toList]
    let bytes := encode .latin1 (LineEnd.crlf.join ls)
    let units := encode .utf16be (LineEnd.cr.join ls)
    (ls ≠ [] ∧ (∀ l ∈ ls, IsLine l) ∧ (∀ l ∈ ls, ∀ c ∈ l, c.toNat ≤ 0xFF) ∧ ¬ IsMarked bytes) ∧
      lines (decode .latin1 bytes) = ls ∧ lines (decode .utf8 ([0xFE, 0xFF] ++ units)) = ls := by
  intro ls bytes units
  have ne : ls ≠ [] := by decide
  have isLine : ∀ l ∈ ls, IsLine l := by decide
  have fits : ∀ l ∈ ls, ∀ c ∈ l, c.toNat ≤ 0xFF := by simp [ls]
  have unmarked : ¬ IsMarked bytes := by decide
  have latin1 := @lines_decode_encode .latin1 ls .crlf ne isLine fun _ => fits
  have utf16be := @lines_decode_encode .utf16be ls .cr ne isLine fun _ => fits
  exact ⟨⟨ne, isLine, fits, unmarked⟩, latin1.1 unmarked, utf16be.2 _ (by simp [marks]) .utf8⟩

/-- A text that begins with the character of the byte order mark loses it. -/
example : lines (decode .utf8 (encode .utf8 ['\uFEFF', 'a'])) = [['a']] := by decide

end Text

end RailRoute
