import Mathlib
import RailRoute.Proofs.Source.Inclusion

/-!
# Where expressions stand

The expressions of a file are stretches of its lines, each at the place that it says it was written
at, and in the order of these places. A line that is cut has one expression for each piece between
its commas outside parentheses, unless the piece is blank or a comment. Main statement:
`splitLines_isSplit`.
-/

namespace RailRoute.Source

open Text

/-! ## What splitting is to do -/

/-- Whether a line is a section header. -/
def IsHeaderLine (cs : List Char) : Prop := ∃ name, trim cs = '[' :: name ++ [']']

/-- The name of the last section header among lines. -/
def lastHeader? (lines : List (List Char)) : Option (List Char) :=
  (lines.filterMap headerName?).getLast?

/-- Whether a line behind others is cut: in CSV it always is, in RW if the last header opens the
section of the track. -/
def IsCutBehind (dialect : Dialect) (ahead : List (List Char)) : Prop :=
  dialect = .csv ∨ ∃ name ∈ lastHeader? ahead, isTrackSection name

/-- How many parentheses are open behind a text if `depth` of them are open in front of it. One that
closes nothing is ignored. -/
def depthBehind (depth : Nat) (cs : List Char) : Nat :=
  cs.foldl (fun depth c => if c = '(' then depth + 1 else if c = ')' then depth - 1 else depth)
    depth

/-- Whether a stretch of a text runs from one comma outside parentheses to the next. The ends of the
text do as well as commas. -/
structure IsBetweenCommas (depth : Nat) (front piece back : List Char) : Prop where
  opens : front = [] ∨ ∃ before, front = before ++ [','] ∧ depthBehind depth before = 0
  closes : back = [] ∨ (∃ behind, back = ',' :: behind) ∧ depthBehind depth (front ++ piece) = 0
  uncut : ∀ before behind, piece = before ++ ',' :: behind →
    depthBehind depth (front ++ before) ≠ 0

/-- Whether a line behind others has a piece, with `front` ahead of it in the line. A line that is
not cut is one piece. -/
def HasPiece (dialect : Dialect) (ahead : List (List Char)) (cs front piece : List Char) : Prop :=
  (IsCutBehind dialect ahead → ∃ back, cs = front ++ piece ++ back ∧
    IsBetweenCommas 0 front piece back) ∧
  (¬ IsCutBehind dialect ahead → front = [] ∧ piece = cs)

/-- What expressions are to the lines of the file that they come from. -/
structure IsSplit (file : String) (dialect : Dialect) (lines : List (List Char))
    (es : List Expression) : Prop where
  /-- No expression is empty, and none begins or ends with a blank. -/
  solid : ∀ e ∈ es, e.text.toList ≠ [] ∧
    ∀ c, e.text.toList.head? = some c ∨ e.text.toList.getLast? = some c → ¬ isBlank c
  /-- Each is found in the line that it says, from the column on that it says. Only a header could
  begin like a comment. -/
  placed : ∀ e ∈ es, e.location.file = file ∧ ∃ ahead cs behind front back,
    lines = ahead ++ cs :: behind ∧ e.location.line = ahead.length + 1 ∧
      cs = front ++ e.text.toList ++ back ∧ e.location.column = front.length + 1 ∧
      (¬ IsHeaderLine cs → e.text.toList.head? ≠ some ';')
  /-- Each begins behind the end of the one before. -/
  ordered : es.Pairwise fun e e' => e.location.line < e'.location.line ∨
    e.location.line = e'.location.line ∧
      e.location.column + e.text.toList.length ≤ e'.location.column
  /-- A header is one expression. -/
  header : ∀ ahead cs behind, lines = ahead ++ cs :: behind → IsHeaderLine cs →
    ∀ e, (e ∈ es ∧ e.location.line = ahead.length + 1) ↔
      e = ⟨⟨file, ahead.length + 1, leadingBlanks cs + 1⟩, String.ofList (trim cs)⟩
  /-- Any other line has the expressions that its pieces are, blank ones and comments aside. -/
  pieces : ∀ ahead cs behind, lines = ahead ++ cs :: behind → ¬ IsHeaderLine cs →
    ∀ e, (e ∈ es ∧ e.location.line = ahead.length + 1) ↔
      ∃ front piece, HasPiece dialect ahead cs front piece ∧ trim piece ≠ [] ∧
        (trim piece).head? ≠ some ';' ∧
        e = ⟨⟨file, ahead.length + 1, front.length + leadingBlanks piece + 1⟩,
          String.ofList (trim piece)⟩
  /-- Split again, an expression of a CSV line stays as it is. -/
  again : dialect = .csv → ∀ ahead cs behind, lines = ahead ++ cs :: behind → ¬ IsHeaderLine cs →
    ∀ e ∈ es, e.location.line = ahead.length + 1 → ∀ file' : String,
      splitLines file' .csv [e.text.toList] = [⟨⟨file', 1, 1⟩, e.text⟩]

/-! ## Headers -/

theorem headerName?_isSome_iff (cs : List Char) : (headerName? cs).isSome ↔ IsHeaderLine cs := by
  unfold headerName? IsHeaderLine between?
  cases trim cs with
  | nil => simp
  | cons c r =>
    by_cases h : c = '[' ∧ r.getLast? = some ']'
    · obtain ⟨rfl, last⟩ := h
      obtain ⟨name, rfl⟩ := List.getLast?_eq_some_iff.1 last
      simp
    · simp only [h, if_false, Option.map_none, Option.isSome_none, Bool.false_eq_true, false_iff]
      rintro ⟨name, hname⟩
      obtain ⟨rfl, rfl⟩ := List.cons.inj hname
      exact h ⟨rfl, by simp⟩

theorem headerName?_eq_none_iff (cs : List Char) : headerName? cs = none ↔ ¬ IsHeaderLine cs := by
  rw [← headerName?_isSome_iff, Option.not_isSome_iff_eq_none]

theorem lastHeader?_cons (cs : List Char) (lines : List (List Char)) :
    lastHeader? (cs :: lines) = (lastHeader? lines).or (headerName? cs) := by
  unfold lastHeader?
  cases h : headerName? cs with
  | none => rw [List.filterMap_cons_none h, Option.or_none]
  | some name =>
    rw [List.filterMap_cons_some h, List.getLast?_cons]
    cases (lines.filterMap headerName?).getLast? <;> rfl

/-- The last header alone tells whether the section of the track is open. -/
theorem trackBehind_eq (onTrack : Bool) (ahead : List (List Char)) :
    trackBehind onTrack ahead = ((lastHeader? ahead).map isTrackSection).getD onTrack := by
  induction ahead generalizing onTrack with
  | nil => rfl
  | cons cs ahead ih =>
    have step : trackBehind onTrack (cs :: ahead) =
        trackBehind (((headerName? cs).map isTrackSection).getD onTrack) ahead := rfl
    rw [step, ih, lastHeader?_cons]
    cases lastHeader? ahead <;> rfl

theorem isCutBehind_iff (dialect : Dialect) (ahead : List (List Char)) :
    IsCutBehind dialect ahead ↔ (dialect = .csv || trackBehind false ahead) = true := by
  rw [trackBehind_eq, IsCutBehind]
  cases lastHeader? ahead <;> simp

/-! ## Pieces -/

theorem le_of_mem_placePieces {start : Nat} {ps : List (List Char)} {p : Nat × List Char}
    (h : p ∈ placePieces start ps) : start ≤ p.1 := by
  induction ps generalizing start with
  | nil => cases h
  | cons q ps ih =>
    rcases List.mem_cons.1 h with rfl | h
    · exact le_rfl
    · have := ih h
      omega

/-- There is a place for a comma between any two pieces. -/
theorem pairwise_placePieces (start : Nat) (ps : List (List Char)) :
    (placePieces start ps).Pairwise fun p q => p.1 + p.2.length < q.1 := by
  induction ps generalizing start with
  | nil => exact .nil
  | cons p ps ih =>
    refine List.pairwise_cons.2 ⟨fun q hq => ?_, ih _⟩
    have := le_of_mem_placePieces hq
    dsimp only
    omega

theorem depthBehind_append (depth : Nat) (xs ys : List Char) :
    depthBehind depth (xs ++ ys) = depthBehind (depthBehind depth xs) ys := List.foldl_append

namespace IsBetweenCommas

variable {depth : Nat} {c : Char} {front piece back : List Char}

/-- A character further ahead changes nothing but the number of open parentheses. -/
theorem cons_front_iff (h : front ≠ [] ∨ c = ',' ∧ depth = 0) :
    IsBetweenCommas depth (c :: front) piece back ↔
      IsBetweenCommas (depthBehind depth [c]) front piece back := by
  have opens : (c :: front = [] ∨ ∃ before, c :: front = before ++ [','] ∧
      depthBehind depth before = 0) ↔ front = [] ∨ ∃ before, front = before ++ [','] ∧
        depthBehind (depthBehind depth [c]) before = 0 := by
    constructor
    · rintro (hnil | ⟨before, heq, hdepth⟩)
      · cases hnil
      · cases before with
        | nil => exact .inl (List.cons.inj heq).2
        | cons d before =>
          obtain ⟨rfl, rfl⟩ := List.cons.inj heq
          exact .inr ⟨before, rfl, hdepth⟩
    · rintro (rfl | ⟨before, rfl, hdepth⟩)
      · obtain ⟨rfl, rfl⟩ := h.resolve_left (fun hne => hne rfl)
        exact .inr ⟨[], rfl, rfl⟩
      · exact .inr ⟨c :: before, rfl, hdepth⟩
  exact ⟨fun h => ⟨opens.1 h.opens, h.closes, h.uncut⟩,
    fun h => ⟨opens.2 h.opens, h.closes, h.uncut⟩⟩

theorem of_singleton (h : IsBetweenCommas depth [c] piece back) : c = ',' ∧ depth = 0 := by
  obtain hnil | ⟨before, heq, hdepth⟩ := h.opens
  · cases hnil
  · obtain ⟨rfl, hc⟩ : before = [] ∧ [c] = [','] := by
      cases before with
      | nil => exact ⟨rfl, heq⟩
      | cons d before => simp at heq
    exact ⟨(List.cons.inj hc).1, hdepth⟩

theorem cons_piece_iff : IsBetweenCommas depth [] (c :: piece) back ↔
    ¬ (c = ',' ∧ depth = 0) ∧ IsBetweenCommas (depthBehind depth [c]) [] piece back := by
  constructor
  · intro h
    refine ⟨?_, .inl rfl, h.closes, fun before behind heq => ?_⟩
    · rintro ⟨rfl, rfl⟩
      exact h.uncut [] piece rfl rfl
    · exact h.uncut (c :: before) behind (congrArg (c :: ·) heq)
  · rintro ⟨hc, h⟩
    refine ⟨.inl rfl, h.closes, fun before behind heq => ?_⟩
    cases before with
    | nil => exact fun hdepth => hc ⟨(List.cons.inj heq).1, hdepth⟩
    | cons d before =>
      obtain ⟨rfl, rfl⟩ := List.cons.inj heq
      exact h.uncut before behind rfl

theorem nil_piece_iff : IsBetweenCommas depth [] [] (c :: back) ↔ c = ',' ∧ depth = 0 := by
  constructor
  · intro h
    obtain hnil | ⟨⟨behind, heq⟩, hdepth⟩ := h.closes
    · cases hnil
    · exact ⟨(List.cons.inj heq).1, hdepth⟩
  · rintro ⟨rfl, rfl⟩
    exact ⟨.inl rfl, .inr ⟨⟨back, rfl⟩, rfl⟩, fun before behind heq => by simp at heq⟩

end IsBetweenCommas

theorem exists_commaPieces_cons {depth : Nat} {c : Char} (h : ¬ (c = ',' ∧ depth = 0))
    (r : List Char) : ∃ p ps, commaPieces (depthBehind depth [c]) r = p :: ps ∧
      commaPieces depth (c :: r) = (c :: p) :: ps := by
  have ne (depth : Nat) (cs : List Char) : commaPieces depth cs ≠ [] := by
    cases cs with
    | nil => simp [commaPieces]
    | cons c r =>
      unfold commaPieces
      dsimp only
      split_ifs
      · simp
      all_goals split <;> simp
  obtain ⟨p, ps, rest⟩ := List.exists_cons_of_ne_nil (ne (depthBehind depth [c]) r)
  refine ⟨p, ps, rest, ?_⟩
  have step : (if c = '(' then depth + 1 else if c = ')' then depth - 1 else depth) =
      depthBehind depth [c] := rfl
  rw [commaPieces, if_neg h]
  simp only [step, rest]

/-- The pieces of a line are what stands between its commas. -/
theorem mem_placePieces_commaPieces (depth start : Nat) (cs : List Char) (p : Nat × List Char) :
    p ∈ placePieces start (commaPieces depth cs) ↔ ∃ front back, cs = front ++ p.2 ++ back ∧
      p.1 = start + front.length ∧ IsBetweenCommas depth front p.2 back := by
  obtain ⟨k, piece⟩ := p
  dsimp only
  induction cs generalizing depth start k piece with
  | nil =>
    rw [commaPieces, placePieces, placePieces, List.mem_singleton, Prod.mk.injEq]
    constructor
    · rintro ⟨rfl, rfl⟩
      exact ⟨[], [], rfl, rfl, .inl rfl, .inl rfl, fun before behind heq => by simp at heq⟩
    · rintro ⟨front, back, heq, rfl, -⟩
      obtain ⟨rfl, rfl, -⟩ : front = [] ∧ piece = [] ∧ back = [] := by simpa using heq.symm
      exact ⟨rfl, rfl⟩
  | cons c r ih =>
    by_cases hcut : c = ',' ∧ depth = 0
    · -- The line is cut at once: its first piece is empty, the others are those of the rest.
      have here : depthBehind depth [c] = 0 := by
        obtain ⟨rfl, rfl⟩ := hcut
        rfl
      rw [commaPieces, if_pos hcut, placePieces, List.mem_cons, ih, Prod.mk.injEq]
      constructor
      · rintro (⟨rfl, rfl⟩ | ⟨front, back, rfl, rfl, h⟩)
        · exact ⟨[], c :: r, rfl, rfl, IsBetweenCommas.nil_piece_iff.2 hcut⟩
        · refine ⟨c :: front, back, rfl, ?_, (IsBetweenCommas.cons_front_iff (.inr hcut)).2 ?_⟩
          · simp only [List.length_nil, List.length_cons]
            omega
          · rwa [here]
      · rintro ⟨front, back, heq, rfl, h⟩
        cases front with
        | nil =>
          cases piece with
          | nil => exact .inl ⟨rfl, rfl⟩
          | cons d piece =>
            obtain ⟨rfl, -⟩ := List.cons.inj heq
            exact absurd hcut (IsBetweenCommas.cons_piece_iff.1 h).1
        | cons d front =>
          obtain ⟨rfl, rfl⟩ := List.cons.inj heq
          refine .inr ⟨front, back, rfl, ?_, ?_⟩
          · simp only [List.length_nil, List.length_cons]
            omega
          · rw [← here]
            exact (IsBetweenCommas.cons_front_iff (.inr hcut)).1 h
    · -- The first piece goes on with the first one of the rest, the others are the same.
      obtain ⟨q, qs, rest, whole⟩ := exists_commaPieces_cons hcut r
      have ih := ih (depthBehind depth [c]) (start + 1)
      rw [rest] at ih
      have others (k : Nat) (piece : List Char) : (k, piece) ∈ placePieces (start + 1) (q :: qs) ↔
          k = start + 1 ∧ piece = q ∨ (k, piece) ∈ placePieces (start + (q.length + 1) + 1) qs := by
        rw [placePieces, List.mem_cons, Prod.mk.injEq]
        have : start + 1 + q.length + 1 = start + (q.length + 1) + 1 := by omega
        rw [this]
      rw [whole, placePieces, List.mem_cons, Prod.mk.injEq, List.length_cons]
      constructor
      · rintro (⟨rfl, rfl⟩ | hmem)
        · obtain ⟨front, back, heq, hk, h⟩ := (ih (k + 1) q).1 ((others _ _).2 (.inl ⟨rfl, rfl⟩))
          obtain rfl : front = [] := List.length_eq_zero_iff.1 (by omega)
          exact ⟨[], back, by rw [heq]; rfl, rfl, IsBetweenCommas.cons_piece_iff.2 ⟨hcut, h⟩⟩
        · have further := le_of_mem_placePieces hmem
          obtain ⟨front, back, rfl, hk, h⟩ := (ih k piece).1 ((others _ _).2 (.inr hmem))
          have ne : front ≠ [] := by
            rintro rfl
            simp only [List.length_nil] at hk
            omega
          refine ⟨c :: front, back, rfl, ?_, (IsBetweenCommas.cons_front_iff (.inl ne)).2 h⟩
          rw [hk, List.length_cons]
          omega
      · rintro ⟨front, back, heq, rfl, h⟩
        cases front with
        | nil =>
          cases piece with
          | nil =>
            obtain rfl : c :: r = back := heq
            exact absurd (IsBetweenCommas.nil_piece_iff.1 h) hcut
          | cons d piece =>
            obtain ⟨rfl, rfl⟩ := List.cons.inj heq
            have first := (ih (start + 1) piece).2
              ⟨[], back, rfl, rfl, (IsBetweenCommas.cons_piece_iff.1 h).2⟩
            rcases (others _ _).1 first with ⟨-, rfl⟩ | hmem
            · exact .inl ⟨rfl, rfl⟩
            · have := le_of_mem_placePieces hmem
              dsimp only at this
              omega
        | cons d front =>
          obtain ⟨rfl, rfl⟩ := List.cons.inj heq
          have ne : front ≠ [] := by
            rintro rfl
            exact hcut h.of_singleton
          have later := (ih (start + 1 + front.length) piece).2
            ⟨front, back, rfl, rfl, (IsBetweenCommas.cons_front_iff (.inl ne)).1 h⟩
          have pos := List.length_pos_iff.2 ne
          rcases (others _ _).1 later with ⟨hk, -⟩ | hmem
          · omega
          · refine .inr ?_
            rw [List.length_cons]
            rwa [show start + (front.length + 1) = start + 1 + front.length by omega]

/-! ## The expression of a piece -/

theorem pieceExpression?_eq_some {file : String} {line : Nat} {p : Nat × List Char}
    {e : Expression} : pieceExpression? file line p = some e ↔
      trim p.2 ≠ [] ∧ (trim p.2).head? ≠ some ';' ∧
        e = ⟨⟨file, line, p.1 + leadingBlanks p.2 + 1⟩, String.ofList (trim p.2)⟩ := by
  unfold pieceExpression?
  cases trim p.2 with
  | nil => simp
  | cons c r =>
    by_cases hc : c = ';'
    · simp [hc]
    · simp [hc, eq_comm]

/-- What is trimmed off the front of a text are its leading blanks. -/
theorem exists_append_trim (cs : List Char) :
    ∃ after, cs = cs.takeWhile isBlank ++ trim cs ++ after := by
  obtain ⟨after, hafter⟩ := trim_prefix_trimStart cs
  refine ⟨after, ?_⟩
  rw [List.append_assoc, hafter]
  exact List.takeWhile_append_dropWhile.symm

theorem length_trim_add_le (cs : List Char) :
    leadingBlanks cs + (trim cs).length ≤ cs.length := by
  obtain ⟨after, hafter⟩ := exists_append_trim cs
  have := congrArg List.length hafter
  simp only [List.length_append] at this
  unfold leadingBlanks
  omega

theorem solid_of_trim {cs t : List Char} (h : trim cs = t) {c : Char}
    (hc : t.head? = some c ∨ t.getLast? = some c) : ¬ isBlank c := by
  rcases hc with hc | hc
  · obtain ⟨r, rfl⟩ := List.head?_eq_some_iff.1 hc
    exact not_isBlank_of_trim_eq_cons h
  · obtain ⟨r, rfl⟩ := List.getLast?_eq_some_iff.1 hc
    exact not_isBlank_of_trim_eq h

/-- An expression in a piece of a line has its text at its column of the line. -/
theorem exists_stretch (front piece back : List Char) : ∃ front' back',
    front ++ piece ++ back = front' ++ trim piece ++ back' ∧
      front'.length = front.length + leadingBlanks piece := by
  obtain ⟨after, hafter⟩ := exists_append_trim piece
  refine ⟨front ++ piece.takeWhile isBlank, after ++ back, ?_, List.length_append⟩
  conv_lhs => rw [hafter]
  simp only [List.append_assoc]

/-! ## The expressions of a line -/

/-- The expressions of a line behind others. -/
def expressionsBehind (file : String) (dialect : Dialect) (ahead : List (List Char))
    (cs : List Char) : List Expression :=
  match headerName? cs with
  | some _ => [⟨⟨file, ahead.length + 1, leadingBlanks cs + 1⟩, String.ofList (trim cs)⟩]
  | none => lineExpressions file (ahead.length + 1) (dialect = .csv || trackBehind false ahead) cs

section Line

variable {file : String} {dialect : Dialect} {ahead : List (List Char)} {cs : List Char}
  {e : Expression}

theorem mem_expressionsBehind_of_isHeaderLine (h : IsHeaderLine cs) :
    e ∈ expressionsBehind file dialect ahead cs ↔
      e = ⟨⟨file, ahead.length + 1, leadingBlanks cs + 1⟩, String.ofList (trim cs)⟩ := by
  obtain ⟨name, hname⟩ := Option.isSome_iff_exists.1 ((headerName?_isSome_iff cs).2 h)
  simp [expressionsBehind, hname]

theorem hasPiece_iff {front piece : List Char} : HasPiece dialect ahead cs front piece ↔
    (front.length, piece) ∈ placePieces 0
        (if (dialect = .csv || trackBehind false ahead) = true then commaPieces 0 cs else [cs]) ∧
      ∃ back, cs = front ++ piece ++ back := by
  unfold HasPiece
  rw [isCutBehind_iff]
  split_ifs with hcut
  · simp only [hcut, forall_const, not_true_eq_false, false_imp_iff, and_true,
      mem_placePieces_commaPieces, Nat.zero_add]
    constructor
    · rintro ⟨back, heq, h⟩
      exact ⟨⟨front, back, heq, rfl, h⟩, back, heq⟩
    · rintro ⟨⟨front', back, heq, hlength, h⟩, back', heq'⟩
      -- The line has only one beginning of this length.
      obtain ⟨rfl, -⟩ : front = front' ∧ piece ++ back' = piece ++ back :=
        List.append_inj (by rw [← List.append_assoc, ← List.append_assoc, ← heq', heq]) hlength
      exact ⟨back, heq, h⟩
  · simp only [hcut, Bool.false_eq_true, false_imp_iff, not_false_eq_true, forall_const, true_and,
      placePieces, List.mem_singleton, Prod.mk.injEq, List.length_eq_zero_iff]
    constructor
    · rintro ⟨rfl, rfl⟩
      exact ⟨⟨rfl, rfl⟩, [], by simp⟩
    · exact And.left

theorem mem_expressionsBehind_of_not_isHeaderLine (h : ¬ IsHeaderLine cs) :
    e ∈ expressionsBehind file dialect ahead cs ↔
      ∃ front piece, HasPiece dialect ahead cs front piece ∧ trim piece ≠ [] ∧
        (trim piece).head? ≠ some ';' ∧
        e = ⟨⟨file, ahead.length + 1, front.length + leadingBlanks piece + 1⟩,
          String.ofList (trim piece)⟩ := by
  unfold expressionsBehind lineExpressions
  rw [(headerName?_eq_none_iff cs).2 h]
  dsimp only
  rw [List.mem_filterMap]
  constructor
  · rintro ⟨⟨k, piece⟩, hmem, hpiece⟩
    obtain ⟨front, rfl, back, heq⟩ : ∃ front : List Char, k = front.length ∧
        ∃ back, cs = front ++ piece ++ back := by
      split_ifs at hmem
      · obtain ⟨front, back, heq, rfl, -⟩ := (mem_placePieces_commaPieces ..).1 hmem
        exact ⟨front, Nat.zero_add _, back, heq⟩
      · obtain ⟨rfl, rfl⟩ := Prod.mk.inj (List.mem_singleton.1 hmem)
        exact ⟨[], rfl, [], by simp⟩
    exact ⟨front, piece, hasPiece_iff.2 ⟨hmem, back, heq⟩, pieceExpression?_eq_some.1 hpiece⟩
  · rintro ⟨front, piece, hmem, hpiece⟩
    exact ⟨_, (hasPiece_iff.1 hmem).1, pieceExpression?_eq_some.2 hpiece⟩

/-- The places of expressions of one line. -/
theorem pairwise_expressionsBehind : (expressionsBehind file dialect ahead cs).Pairwise
    fun e e' => e.location.column + e.text.toList.length ≤ e'.location.column := by
  unfold expressionsBehind
  split
  · exact List.pairwise_singleton ..
  · refine List.Pairwise.filterMap _ (fun p q hpq e he e' he' => ?_)
      (pairwise_placePieces 0 _)
    obtain ⟨-, -, rfl⟩ := pieceExpression?_eq_some.1 he
    obtain ⟨-, -, rfl⟩ := pieceExpression?_eq_some.1 he'
    have := length_trim_add_le p.2
    simp only [String.toList_ofList]
    omega

theorem of_mem_expressionsBehind (h : e ∈ expressionsBehind file dialect ahead cs) :
    e.location.file = file ∧ e.location.line = ahead.length + 1 ∧ e.text.toList ≠ [] ∧
      (∃ cs', trim cs' = e.text.toList) ∧ (¬ IsHeaderLine cs → e.text.toList.head? ≠ some ';') ∧
      ∃ front back, cs = front ++ e.text.toList ++ back ∧
        e.location.column = front.length + 1 := by
  by_cases hheader : IsHeaderLine cs
  · obtain rfl := (mem_expressionsBehind_of_isHeaderLine hheader).1 h
    obtain ⟨front, back, heq, hlength⟩ := exists_stretch [] cs []
    refine ⟨rfl, rfl, ?_, ⟨cs, by simp⟩, fun h => absurd hheader h, front, back, ?_, ?_⟩
    · obtain ⟨name, hname⟩ := hheader
      simp [hname]
    · simpa using heq
    · simp [hlength]
  · obtain ⟨front, piece, hpiece, ne, comment, rfl⟩ :=
      (mem_expressionsBehind_of_not_isHeaderLine hheader).1 h
    obtain ⟨-, back, hcs⟩ := hasPiece_iff.1 hpiece
    obtain ⟨front', back', heq, hlength⟩ := exists_stretch front piece back
    refine ⟨rfl, rfl, by simpa using ne, ⟨piece, by simp⟩, fun _ => by simpa using comment,
      front', back', ?_, ?_⟩
    · rw [hcs, heq, String.toList_ofList]
    · simp [hlength]

/-! ## An expression once more -/

theorem commaPieces_eq_singleton {depth : Nat} (h : IsBetweenCommas depth [] cs []) :
    commaPieces depth cs = [cs] := by
  induction cs generalizing depth with
  | nil => rfl
  | cons c cs ih =>
    obtain ⟨hcut, rest⟩ := IsBetweenCommas.cons_piece_iff.1 h
    exact commaPieces_cons (by tauto) (ih rest)

theorem depthBehind_of_isPlain {depth : Nat} (h : IsPlain cs) : depthBehind depth cs = depth := by
  induction cs generalizing depth with
  | nil => rfl
  | cons c cs ih =>
    obtain ⟨⟨hopen, hclose⟩, rest⟩ := List.forall_mem_cons.1 h
    unfold depthBehind
    rw [List.foldl_cons, if_neg hopen, if_neg hclose]
    exact ih rest

/-- No parenthesis is open where a piece begins, so that its text is not cut. -/
theorem commaPieces_trim {front piece back : List Char} (h : IsBetweenCommas 0 front piece back) :
    commaPieces 0 (trim piece) = [trim piece] := by
  have closed : depthBehind 0 front = 0 := by
    rcases h.opens with rfl | ⟨before, rfl, hbefore⟩
    · rfl
    · rw [depthBehind_append, hbefore]
      rfl
  obtain ⟨blanks, after, heq, hblanks, -⟩ := exists_trim piece
  have same : depthBehind 0 (front ++ blanks) = 0 := by
    rw [depthBehind_append, closed]
    exact depthBehind_of_isPlain (isPlain_of_isBlank hblanks)
  refine commaPieces_eq_singleton ⟨.inl rfl, .inl rfl, fun before behind hcut => ?_⟩
  have uncut := h.uncut (blanks ++ before) (behind ++ after) (by rw [heq, hcut]; simp)
  rwa [← List.append_assoc, depthBehind_append, same] at uncut

theorem splitLines_singleton {t : List Char} (whole : trim t = t) (ne : t ≠ [])
    (comment : t.head? ≠ some ';') (uncut : commaPieces 0 t = [t]) (file : String) :
    splitLines file .csv [t] = [⟨⟨file, 1, 1⟩, String.ofList t⟩] := by
  have lead : leadingBlanks t = 0 := by
    cases t with
    | nil => rfl
    | cons c r => simp [leadingBlanks, not_isBlank_of_trim_eq_cons whole]
  have here : pieceExpression? file 1 (0, t) = some ⟨⟨file, 1, 1⟩, String.ofList t⟩ := by
    rw [pieceExpression?_eq_some, whole, lead]
    exact ⟨ne, comment, rfl⟩
  unfold splitLines splitFrom lineExpressions
  cases headerName? t with
  | some name => simp [whole, lead, splitFrom]
  | none => simp [uncut, placePieces, here, splitFrom]

theorem splitLines_of_mem_expressionsBehind (h : ¬ IsHeaderLine cs)
    (he : e ∈ expressionsBehind file .csv ahead cs) (file' : String) :
    splitLines file' .csv [e.text.toList] = [⟨⟨file', 1, 1⟩, e.text⟩] := by
  obtain ⟨front, piece, hpiece, ne, comment, rfl⟩ :=
    (mem_expressionsBehind_of_not_isHeaderLine h).1 he
  obtain ⟨back, -, between⟩ := hpiece.1 (.inl rfl)
  simpa using splitLines_singleton (trim_trim piece) ne comment (commaPieces_trim between) file'

end Line

/-! ## The expressions of a file -/

section File

variable (file : String) (dialect : Dialect)

theorem splitLines_concat (ahead : List (List Char)) (cs : List Char) :
    splitLines file dialect (ahead ++ [cs]) =
      splitLines file dialect ahead ++ expressionsBehind file dialect ahead cs := by
  unfold splitLines
  rw [splitFrom_append, Nat.add_comm]
  unfold expressionsBehind
  congr 1
  rw [splitFrom]
  cases headerName? cs with
  | some name => rfl
  | none => exact List.append_nil _

variable {file dialect}

theorem mem_splitLines {lines : List (List Char)} {e : Expression} :
    e ∈ splitLines file dialect lines ↔ ∃ ahead cs behind, lines = ahead ++ cs :: behind ∧
      e ∈ expressionsBehind file dialect ahead cs := by
  induction lines using List.reverseRecOn with
  | nil =>
    constructor
    · rintro ⟨⟩
    · rintro ⟨ahead, cs, behind, heq, -⟩
      simp at heq
  | append_singleton lines last ih =>
    rw [splitLines_concat, List.mem_append, ih]
    constructor
    · rintro (⟨ahead, cs, behind, rfl, he⟩ | he)
      · exact ⟨ahead, cs, behind ++ [last], by simp, he⟩
      · exact ⟨lines, last, [], rfl, he⟩
    · rintro ⟨ahead, cs, behind, heq, he⟩
      rcases List.eq_nil_or_concat' behind with rfl | ⟨behind, last', rfl⟩
      · obtain ⟨rfl, rfl⟩ := List.append_singleton_inj.1 heq
        exact .inr he
      · rw [← List.cons_append, ← List.append_assoc] at heq
        obtain ⟨rfl, -⟩ := List.append_singleton_inj.1 heq
        exact .inl ⟨ahead, cs, behind, rfl, he⟩

/-- An expression tells the line that it comes from. -/
theorem mem_splitLines_of_line {ahead behind : List (List Char)} {cs : List Char} {e : Expression} :
    (e ∈ splitLines file dialect (ahead ++ cs :: behind) ∧ e.location.line = ahead.length + 1) ↔
      e ∈ expressionsBehind file dialect ahead cs := by
  constructor
  · rintro ⟨hmem, hline⟩
    obtain ⟨ahead', cs', behind', heq, he⟩ := mem_splitLines.1 hmem
    have hline' := (of_mem_expressionsBehind he).2.1
    obtain ⟨rfl, hcons⟩ := List.append_inj heq (by omega)
    obtain ⟨rfl, -⟩ := List.cons.inj hcons
    exact he
  · intro he
    exact ⟨mem_splitLines.2 ⟨ahead, cs, behind, rfl, he⟩, (of_mem_expressionsBehind he).2.1⟩

theorem line_le_of_mem_splitLines {lines : List (List Char)} {e : Expression}
    (h : e ∈ splitLines file dialect lines) : e.location.line ≤ lines.length := by
  obtain ⟨ahead, cs, behind, rfl, he⟩ := mem_splitLines.1 h
  have := (of_mem_expressionsBehind he).2.1
  simp only [List.length_append, List.length_cons]
  omega

theorem pairwise_splitLines (lines : List (List Char)) :
    (splitLines file dialect lines).Pairwise fun e e' => e.location.line < e'.location.line ∨
      e.location.line = e'.location.line ∧
        e.location.column + e.text.toList.length ≤ e'.location.column := by
  induction lines using List.reverseRecOn with
  | nil => exact .nil
  | append_singleton lines last ih =>
    rw [splitLines_concat, List.pairwise_append]
    refine ⟨ih, ?_, fun e he e' he' => .inl ?_⟩
    · refine pairwise_expressionsBehind.imp_of_mem fun {e e'} he he' hle => .inr ⟨?_, hle⟩
      rw [(of_mem_expressionsBehind he).2.1, (of_mem_expressionsBehind he').2.1]
    · rw [(of_mem_expressionsBehind he').2.1]
      have := line_le_of_mem_splitLines he
      omega

/-- Splitting loses nothing but blank pieces and comments, and says where everything stands. -/
theorem splitLines_isSplit (file : String) (dialect : Dialect) (lines : List (List Char)) :
    IsSplit file dialect lines (splitLines file dialect lines) where
  solid e he := by
    obtain ⟨ahead, cs, behind, -, he⟩ := mem_splitLines.1 he
    obtain ⟨-, -, ne, ⟨cs', htrim⟩, -⟩ := of_mem_expressionsBehind he
    exact ⟨ne, fun c => solid_of_trim htrim⟩
  placed e he := by
    obtain ⟨ahead, cs, behind, hlines, he⟩ := mem_splitLines.1 he
    obtain ⟨hfile, hline, -, -, comment, front, back, hcs, hcolumn⟩ := of_mem_expressionsBehind he
    exact ⟨hfile, ahead, cs, behind, front, back, hlines, hline, hcs, hcolumn, comment⟩
  ordered := pairwise_splitLines lines
  header := by
    rintro ahead cs behind rfl hheader e
    rw [mem_splitLines_of_line, mem_expressionsBehind_of_isHeaderLine hheader]
  pieces := by
    rintro ahead cs behind rfl hheader e
    rw [mem_splitLines_of_line, mem_expressionsBehind_of_not_isHeaderLine hheader]
  again := by
    rintro rfl ahead cs behind rfl hheader e he hline file'
    exact splitLines_of_mem_expressionsBehind hheader (mem_splitLines_of_line.1 ⟨he, hline⟩) file'

end File

end RailRoute.Source
