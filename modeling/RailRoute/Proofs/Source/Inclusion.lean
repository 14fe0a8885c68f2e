import Mathlib
import RailRoute.Proofs.Source.Likeness
import RailRoute.Proofs.Source.Nesting
import RailRoute.Proofs.Source.Numeral

/-!
# Included files

Including a file comes to the same as writing its lines in place of the include, if these lines are
cut into expressions alike. That is so in CSV. In RW, where a line is cut only in the section of the
track, a file is cut without regard to the section it is included in, and a section that it opens is
not open behind the include. Main statements: `Inclusion.outcome_route` and
`Inclusion.outcome_inTrack_ne`.
-/

namespace RailRoute.Source

open Text

/-! ## Splitting -/

/-- Whether the section of the track is open behind lines. -/
def trackBehind (onTrack : Bool) (lines : List (List Char)) : Bool :=
  lines.foldl (fun onTrack cs => ((headerName? cs).map isTrackSection).getD onTrack) onTrack

/-- The text of the expression in a piece of a line. -/
def pieceText? (piece : List Char) : Option String :=
  match trim piece with
  | [] => none
  | c :: r => if c = ';' then none else some (String.ofList (c :: r))

/-- The texts of the expressions of lines. -/
def splitTexts (dialect : Dialect) : Bool → List (List Char) → List String
  | _, [] => []
  | onTrack, cs :: rest =>
    match headerName? cs with
    | some name => String.ofList (trim cs) :: splitTexts dialect (isTrackSection name) rest
    | none =>
      (if dialect = .csv || onTrack then commaPieces 0 cs else [cs]).filterMap pieceText? ++
        splitTexts dialect onTrack rest

theorem map_snd_placePieces (start : Nat) (ps : List (List Char)) :
    (placePieces start ps).map Prod.snd = ps := by
  induction ps generalizing start with
  | nil => rfl
  | cons p ps ih => simp [placePieces, ih]

theorem map_text_pieceExpression? (file : String) (line : Nat) (piece : Nat × List Char) :
    (pieceExpression? file line piece).map (·.text) = pieceText? piece.2 := by
  unfold pieceExpression? pieceText?
  cases trim piece.2 with
  | nil => rfl
  | cons c r => by_cases h : c = ';' <;> simp [h]

theorem map_text_lineExpressions (file : String) (line : Nat) (isCut : Bool) (cs : List Char) :
    (lineExpressions file line isCut cs).map (·.text) =
      (if isCut then commaPieces 0 cs else [cs]).filterMap pieceText? := by
  rw [lineExpressions, List.map_filterMap]
  simp only [map_text_pieceExpression?]
  conv_rhs => rw [← map_snd_placePieces 0 (if isCut then commaPieces 0 cs else [cs])]
  rw [List.filterMap_map]
  rfl

section Splitting

variable (file : String) (dialect : Dialect) (line : Nat) (onTrack : Bool)

theorem map_text_splitFrom (lines : List (List Char)) :
    (splitFrom file dialect line onTrack lines).map (·.text) =
      splitTexts dialect onTrack lines := by
  induction lines generalizing line onTrack with
  | nil => rfl
  | cons cs rest ih =>
    unfold splitFrom splitTexts
    cases headerName? cs with
    | some name => simp [ih]
    | none => simp [ih, map_text_lineExpressions]

theorem splitFrom_append (xs ys : List (List Char)) :
    splitFrom file dialect line onTrack (xs ++ ys) =
      splitFrom file dialect line onTrack xs ++
        splitFrom file dialect (line + xs.length) (trackBehind onTrack xs) ys := by
  induction xs generalizing line onTrack with
  | nil => rfl
  | cons cs xs ih =>
    have count : line + 1 + xs.length = line + (cs :: xs).length := by
      rw [List.length_cons]
      omega
    rw [List.cons_append, splitFrom, splitFrom]
    cases hh : headerName? cs with
    | some name => simp [ih, count, trackBehind, hh]
    | none => simp [ih, count, trackBehind, hh]

theorem splitTexts_csv (onTrack onTrack' : Bool) (lines : List (List Char)) :
    splitTexts .csv onTrack lines = splitTexts .csv onTrack' lines := by
  induction lines generalizing onTrack onTrack' with
  | nil => rfl
  | cons cs rest ih =>
    unfold splitTexts
    cases headerName? cs with
    | some name => rfl
    | none => simp [ih onTrack onTrack']

end Splitting

/-! ## The line of an include -/

theorem commaPieces_cons {depth : Nat} {c : Char} {r : List Char} (h : c ≠ ',' ∨ depth ≠ 0)
    (rest : commaPieces (if c = '(' then depth + 1 else if c = ')' then depth - 1 else depth) r =
      [r]) : commaPieces depth (c :: r) = [c :: r] := by
  rw [commaPieces, if_neg (by tauto)]
  simp only [rest]

theorem commaPieces_append_of_isPlain {xs ys : List Char} (plain : IsPlain xs) (solid : ',' ∉ xs)
    {depth : Nat} (rest : commaPieces depth ys = [ys]) :
    commaPieces depth (xs ++ ys) = [xs ++ ys] := by
  induction xs with
  | nil => exact rest
  | cons c xs ih =>
    obtain ⟨⟨hopen, hclose⟩, others⟩ := List.forall_mem_cons.1 plain
    obtain ⟨comma, solid⟩ := not_or.1 (mt List.mem_cons.2 solid)
    refine commaPieces_cons (.inl (Ne.symm comma)) ?_
    rw [if_neg hopen, if_neg hclose]
    exact ih others solid

/-- There are no commas outside parentheses up to the end of a group. -/
theorem commaPieces_of_closeGroup? {depth : Nat} {cs a b : List Char}
    (h : closeGroup? depth cs = some (a, b)) (rest : commaPieces 0 b = [b]) :
    commaPieces (depth + 1) cs = [cs] := by
  induction cs generalizing depth a with
  | nil => cases h
  | cons c cs ih =>
    refine commaPieces_cons (.inr (by omega)) ?_
    unfold closeGroup? at h
    split_ifs at h ⊢ with hopen hclose
    · obtain ⟨a, hx, -⟩ := exists_of_map_cons h
      exact ih hx
    · cases depth with
      | zero =>
        obtain ⟨-, rfl⟩ := Prod.mk.inj (Option.some.inj h)
        exact rest
      | succ depth =>
        obtain ⟨a, hx, -⟩ := exists_of_map_cons h
        exact ih hx
    · obtain ⟨a, hx, -⟩ := exists_of_map_cons h
      exact ih hx

/-- The name of a block directive has neither parentheses nor commas. -/
theorem isPlain_of_blockHead {cs name inside : List Char}
    (h : directiveHead? ["if", "else", "endif", "include"] cs = some (name, inside)) :
    IsPlain name ∧ ',' ∉ name := by
  obtain ⟨w, hw, spelled, -⟩ := directiveHead?_eq_some h
  have letters : ∀ w ∈ ["if", "else", "endif", "include"],
      '(' ∉ w.toList ∧ ')' ∉ w.toList ∧ ',' ∉ w.toList := by decide
  obtain ⟨hopen, hclose, hcomma⟩ := letters w hw
  refine ⟨fun c hc => ⟨?_, ?_⟩, not_mem_of_spelled spelled (by decide) (by decide) hcomma⟩
  · rintro rfl
    exact not_mem_of_spelled spelled (by decide) (by decide) hopen hc
  · rintro rfl
    exact not_mem_of_spelled spelled (by decide) (by decide) hclose hc

theorem commaPieces_append_of_isBlank {xs ys : List Char} (h : ∀ c ∈ xs, isBlank c) {depth : Nat}
    (rest : commaPieces depth ys = [ys]) : commaPieces depth (xs ++ ys) = [xs ++ ys] :=
  commaPieces_append_of_isPlain (isPlain_of_isBlank h) (fun hc => absurd (h _ hc) (by decide)) rest

/-- A block directive that is the whole of a line is one piece of it. -/
theorem commaPieces_of_scanBlock {cs inside : List Char} {name : BlockName}
    (h : scanBlock (trim cs) = .found name inside) : commaPieces 0 cs = [cs] := by
  obtain ⟨before, after, hcs, hbefore, hafter⟩ := exists_trim cs
  obtain ⟨written, argument, rest, hhead, hclose, hrest⟩ := scanBlock_eq_found h
  obtain ⟨-, -, -, gap, htrim, hgap⟩ := directiveHead?_eq_some hhead
  obtain ⟨plain, solid⟩ := isPlain_of_blockHead hhead
  have behind : commaPieces 0 (rest ++ after) = [rest ++ after] := by
    have blank : ∀ c ∈ rest ++ after, isBlank c := fun c hc =>
      (List.mem_append.1 hc).elim (hrest c) (hafter c)
    rw [← List.append_nil (rest ++ after)]
    exact commaPieces_append_of_isBlank blank rfl
  have group : commaPieces 1 (argument ++ after) = [argument ++ after] :=
    commaPieces_of_closeGroup? (closeGroup?_append hclose after) behind
  have opened : commaPieces 0 ('(' :: (argument ++ after)) = ['(' :: (argument ++ after)] :=
    commaPieces_cons (.inl (by decide)) group
  have named : commaPieces 0 (written ++ (gap ++ '(' :: (argument ++ after))) =
      [written ++ (gap ++ '(' :: (argument ++ after))] :=
    commaPieces_append_of_isPlain plain solid (commaPieces_append_of_isBlank hgap opened)
  have text : cs = before ++ '$' :: (written ++ (gap ++ '(' :: (argument ++ after))) := by
    rw [hcs, htrim]
    simp
  rw [text]
  exact commaPieces_append_of_isBlank hbefore (commaPieces_cons (.inl (by decide)) named)

/-- A block directive that is the whole of a line is its expression. -/
theorem splitFrom_of_scanBlock {cs inside : List Char} {name : BlockName}
    (h : scanBlock (trim cs) = .found name inside) (file : String) (dialect : Dialect)
    (line : Nat) (onTrack : Bool) (rest : List (List Char)) :
    splitFrom file dialect line onTrack (cs :: rest) =
      ⟨⟨file, line, leadingBlanks cs + 1⟩, String.ofList (trim cs)⟩ ::
        splitFrom file dialect (line + 1) onTrack rest := by
  obtain ⟨written, argument, -, hhead, -⟩ := scanBlock_eq_found h
  obtain ⟨-, -, -, gap, htrim, -⟩ := directiveHead?_eq_some hhead
  have noHeader : headerName? cs = none := by
    simp [headerName?, htrim, between?]
  simp [splitFrom, noHeader, lineExpressions, commaPieces_of_scanBlock h, placePieces,
    pieceExpression?, htrim]

/-! ## What an include reads -/

section Reads

variable (R : Type) [Scalar R]

/-- Whether the argument of an include names one file and no other. -/
def NamesOnly (inside file : List Char) (d : Dictionary) : Prop :=
  ∃ argument, (expandText R inside d).1 = .ok argument ∧
    ∃ candidates : List (List Char × R),
      includeCandidates (splitArguments argument) = .ok candidates ∧ candidates ≠ [] ∧
        (∀ c ∈ candidates, c.1 = file) ∧ ¬ totalWeight candidates ≤ 0

theorem chooseCandidate_of_forall {candidates : List (List Char × R)} {file : List Char}
    (h : ∀ c ∈ candidates, c.1 = file) (draw : R) :
    chooseCandidate draw candidates file = file := by
  induction candidates generalizing draw with
  | nil => rfl
  | cons c candidates ih =>
    obtain ⟨rfl, others⟩ := List.forall_mem_cons.1 h
    unfold chooseCandidate
    split_ifs
    · rfl
    · exact ih others _

variable (settings : ExpansionSettings) {e : Expression} {inside file : List Char}

/-- The path of a file that an expression includes. -/
def includedPath (e : Expression) (file : List Char) : String :=
  Path.resolve (Path.parent e.location.file) (String.ofList file)

/-- The lines of a file. -/
def fileLines (bytes : List UInt8) : List (List Char) := lines (decode settings.encoding bytes)

/-- An include that is read comes to the expressions of the file it names. -/
theorem expandOne_include {s : Session} (found : e.block = .found .includeFile inside)
    (names : NamesOnly R inside file s.dictionary) {bytes : List UInt8}
    (isThere : settings.files.read (includedPath e file) = .ok bytes) (levels : Nat)
    {l : Layout} (active : isActive l.branches) :
    ∃ s', s'.dictionary.substitutions = s.dictionary.substitutions ∧
      expandOne R (includeAt R settings (levels + 1)) l e s =
        ((fun included => { l with output := l.output ++ included.toArray }) <$>
          expandList R (includeAt R settings levels)
            (splitLines (includedPath e file) settings.dialect (fileLines settings bytes))) s' := by
  obtain ⟨argument, expanded, candidates, hc, ne, same, positive⟩ := names
  have scan : scanBlock (trim e.text.toList) = .found .includeFile inside := found
  have hlast : candidates.getLast? = some (candidates.getLast ne) :=
    List.getLast?_eq_getLast_of_ne_nil ne
  have last : (candidates.getLast ne).1 = file := same _ (List.getLast_mem ne)
  have substitutions := expandText_substitutions R inside s.dictionary
  rcases he : expandText R inside s.dictionary with ⟨x, d⟩
  rw [he] at expanded substitutions
  cases expanded
  refine ⟨⟨{ d with generator :=
    (drawBelow (totalWeight candidates) Generator.attempts d.generator).2 }, s.messages⟩,
    substitutions, ?_⟩
  have hread : settings.files.read
      (Path.resolve (Path.parent e.location.file) (String.ofList file)) = .ok bytes := isThere
  simp [expandOne, scan, expandBlock, active, Expansion.bind_apply, textOf?_apply, he, includeAt,
    drawFile?, hc, hlast, positive, last, chooseCandidate_of_forall R same, hread, includedPath,
    fileLines]

variable {R} in
/-- What nests is expanded behind a result as it is by itself. -/
theorem foldlM_expandOne_of_active
    {includeFile : Expression → List Char → Expansion (List Expression)} {es : List Expression}
    {o : Outline} (h : Nests es o) {l : Layout} (active : isActive l.branches) (s : Session) :
    es.foldlM (expandOne R includeFile) l s =
      ((fun included => { l with output := l.output ++ included.toArray }) <$>
        expandList R includeFile es) s := by
  obtain ⟨branches, output⟩ := l
  have behind := foldlM_expandOne_of_nests R includeFile h branches output s
  have apart := foldlM_read_append R output #[] (o.actives R s.dictionary)
  rw [Array.append_empty] at apart
  rw [behind, if_pos active, apart, Expansion.map_apply _ (fun included : List Expression => _),
    expandList_of_nests R includeFile h]
  cases hread : (o.actives R s.dictionary).foldlM (Active.read R) #[] s <;> simp [hread]

/-- What nests comes to nothing behind a condition that is not read. -/
theorem foldlM_expandOne_of_inactive
    (includeFile : Expression → List Char → Expansion (List Expression)) {es : List Expression}
    {o : Outline} (h : Nests es o) {l : Layout} (inactive : isActive l.branches = false)
    (s : Session) : es.foldlM (expandOne R includeFile) l s = .ok l s := by
  rw [foldlM_expandOne_of_nests R includeFile h l.branches l.output s, inactive]
  rfl

end Reads

/-! ## Including and writing out -/

section Pasting

variable (R : Type) [Scalar R] {settings : ExpansionSettings} {e : Expression}
  {inside file : List Char}

/-- An include comes to the same as expressions with the texts of the file that it names. -/
theorem sameOutcome_include {s : Session} {l : Layout} {depth : Nat} (deep : 0 < depth)
    (found : e.block = .found .includeFile inside)
    (names : isActive l.branches → NamesOnly R inside file s.dictionary) {bytes : List UInt8}
    (isThere : settings.files.read (includedPath e file) = .ok bytes)
    {included es : List Expression}
    (hincluded : included =
      splitLines (includedPath e file) settings.dialect (fileLines settings bytes))
    {o : Outline} (nests : Nests included o)
    (texts : List.Forall₂ (fun e e' => e.text = e'.text) included es)
    (steady : ∀ e ∈ included, ¬ e.isInclude ∧ IsDrawless e.text.toList)
    (includeFile : Expression → List Char → Expansion (List Expression)) :
    SameOutcome SameLayout (expandOne R (includeAt R settings depth) l e s)
      (es.foldlM (expandOne R includeFile) l s) := by
  obtain ⟨levels, rfl⟩ := Nat.exists_eq_add_of_lt deep
  rw [Nat.zero_add]
  have written (s' : Session)
      (same : s'.dictionary.substitutions = s.dictionary.substitutions) :
      SameOutcome SameLayout (included.foldlM (expandOne R (includeAt R settings levels)) l s')
        (es.foldlM (expandOne R includeFile) l s) :=
    foldlM_expandOne_alike R (SameLayout.refl l) texts steady s' s same
  cases active : isActive l.branches with
  | true =>
    obtain ⟨s', same, run⟩ :=
      expandOne_include R settings found (names active) isThere levels active
    rw [run, ← hincluded, ← foldlM_expandOne_of_active nests active]
    exact written s' same
  | false =>
    have scan : scanBlock (trim e.text.toList) = .found .includeFile inside := found
    have skipped : expandOne R (includeAt R settings (levels + 1)) l e s = .ok l s := by
      simp [expandOne, scan, expandBlock, active]
    rw [skipped, ← foldlM_expandOne_of_inactive R (includeAt R settings levels) nests active s]
    exact written s rfl

theorem closeLayout_alike {l l' : Layout} (same : SameLayout l l') :
    Alike (fun es es' => es.map (·.text) = es'.map (·.text)) (closeLayout l) (closeLayout l') := by
  obtain ⟨branches, output⟩ := l
  obtain ⟨branches', output'⟩ := l'
  obtain ⟨hb, ho⟩ := same
  cases hb with
  | nil => exact .pure ho
  | cons first others => exact Alike.throw _ _ _

/-- What an expansion comes to: the texts of the result, or the fault of structure. -/
def Expanded.outcome (x : Expanded) : Except StructureFault (List String) :=
  match x.result with
  | .ok es => .ok (es.map (·.text))
  | .error error => .error error.fault

theorem outcome_expand {settings : ExpansionSettings} {seed : UInt64} {es es' : List Expression}
    (h : SameOutcome (fun out out' => out.map (·.text) = out'.map (·.text))
      (expandList R (includeAt R settings maxIncludeDepth) es ⟨⟨Generator.ofSeed seed, ∅⟩, #[]⟩)
      (expandList R (includeAt R settings maxIncludeDepth) es' ⟨⟨Generator.ofSeed seed, ∅⟩, #[]⟩)) :
    (expand R settings seed es).outcome = (expand R settings seed es').outcome := by
  unfold expand
  dsimp only
  revert h
  cases expandList R (includeAt R settings maxIncludeDepth) es ⟨⟨Generator.ofSeed seed, ∅⟩, #[]⟩ <;>
    cases expandList R (includeAt R settings maxIncludeDepth) es' ⟨⟨Generator.ofSeed seed, ∅⟩, #[]⟩
  · exact fun h => congrArg Except.ok h.1
  · exact False.elim
  · exact False.elim
  · exact fun h => congrArg Except.error h

end Pasting

/-- A route with a line between others that includes a file. -/
structure Inclusion where
  settings : ExpansionSettings
  seed : UInt64
  file : String
  pre : List (List Char)
  line : List Char
  post : List (List Char)
  /-- What stands in the parentheses of the include. -/
  argument : List Char
  /-- The file that is included, as it is named. -/
  name : List Char
  bytes : List UInt8

namespace Inclusion

variable (R : Type) [Scalar R] (x : Inclusion)

/-- The path of the included file. -/
def path : String := Path.resolve (Path.parent x.file) (String.ofList x.name)

/-- The lines of the included file. -/
def lines : List (List Char) := fileLines x.settings x.bytes

/-- The expressions of the route. -/
def route : List Expression := splitLines x.file x.settings.dialect (x.pre ++ x.line :: x.post)

/-- The expressions of the route with the lines of the included file in place of the include. -/
def writtenOut : List Expression :=
  splitLines x.file x.settings.dialect (x.pre ++ (x.lines ++ x.post))

/-- What there is when the expansion comes to the include. -/
def reached : EStateM.Result StructureError Session Layout :=
  (splitLines x.file x.settings.dialect x.pre).foldlM
    (expandOne R (includeAt R x.settings maxIncludeDepth)) ⟨[], #[]⟩
    ⟨⟨Generator.ofSeed x.seed, ∅⟩, #[]⟩

/-- The line is an include as a whole and names one file, which is there. There are no further
includes and no random numbers, and the conditions of the file nest. -/
structure IsSimple : Prop where
  whole : scanBlock (trim x.line) = .found .includeFile x.argument
  names : ∀ l s, x.reached R = .ok l s → isActive l.branches →
    NamesOnly R x.argument x.name s.dictionary
  isThere : x.settings.files.read x.path = .ok x.bytes
  steady : ∀ e ∈ x.writtenOut, ¬ e.isInclude ∧ IsDrawless e.text.toList
  nests : ∃ o, Nests (splitLines x.path x.settings.dialect x.lines) o

/-- The lines of the file are cut in the section in which they are included as they are cut by
themselves, and the lines behind the include as they are cut behind the lines of the file. -/
structure IsCutAlike : Prop where
  within : splitTexts x.settings.dialect (trackBehind false x.pre) x.lines =
    splitTexts x.settings.dialect false x.lines
  behind : splitTexts x.settings.dialect (trackBehind false x.pre) x.post =
    splitTexts x.settings.dialect (trackBehind false (x.pre ++ x.lines)) x.post

theorem isCutAlike_of_csv (h : x.settings.dialect = .csv) : x.IsCutAlike := by
  constructor <;> rw [h] <;> exact splitTexts_csv ..

/-- Whether an expression includes or draws is told by its text. -/
theorem steady_of_texts {es es' : List Expression}
    (texts : List.Forall₂ (fun e e' => e.text = e'.text) es es')
    (steady : ∀ e ∈ es', ¬ e.isInclude ∧ IsDrawless e.text.toList) :
    ∀ e ∈ es, ¬ e.isInclude ∧ IsDrawless e.text.toList := by
  induction texts with
  | nil => simp
  | cons text _ ih =>
    obtain ⟨first, others⟩ := List.forall_mem_cons.1 steady
    refine List.forall_mem_cons.2 ⟨?_, ih others⟩
    rwa [Expression.isInclude, Expression.block, text]

theorem forall₂_text_iff {es es' : List Expression} :
    List.Forall₂ (fun e e' => e.text = e'.text) es es' ↔ es.map (·.text) = es'.map (·.text) := by
  rw [← List.forall₂_eq_eq_eq, List.forall₂_map_left_iff, List.forall₂_map_right_iff]

/-- A route in RW whose section of the track is a file. -/
def inTrack (content : String) : Inclusion where
  settings := ⟨.rw, .utf8, ⟨fun path =>
    if path = "a.rw" then .ok (content.toList.map fun c => UInt8.ofNat c.toNat)
    else .error .notFound⟩⟩
  seed := 0
  file := "route.csv"
  pre := ["[Railway]".toList]
  line := "$Include(a.rw)".toList
  post := []
  argument := "a.rw".toList
  name := "a.rw".toList
  bytes := content.toList.map fun c => UInt8.ofNat c.toNat

theorem isSimple_inTrack {content : String}
    (plain : ∀ e ∈ (inTrack content).writtenOut, '$' ∉ e.text.toList)
    (plain' : ∀ e ∈ splitLines "a.rw" .rw (inTrack content).lines, '$' ∉ e.text.toList) :
    (inTrack content).IsSimple ℚ := by
  have whole : scanBlock (trim "$Include(a.rw)".toList) = .found .includeFile "a.rw".toList := by
    decide
  have path : Path.resolve (Path.parent "route.csv") "a.rw" = "a.rw" := by decide
  have argument : '$' ∉ "a.rw".toList := by decide
  have names (d : Dictionary) : NamesOnly ℚ "a.rw".toList "a.rw".toList d :=
    ⟨_, congrArg Prod.fst (expandText_of_plain ℚ argument d), [("a.rw".toList, 1)], by cbv,
      by decide, by decide, by decide +kernel⟩
  refine ⟨whole, fun _ s _ _ => names s.dictionary, ?_,
    fun e he => ⟨?_, isDrawless_of_plain (plain e he)⟩, ?_⟩
  · rw [show (inTrack content).path = "a.rw" from path]
    rfl
  · simp [Expression.isInclude, Expression.block_of_plain (plain e he)]
  · rw [show (inTrack content).path = "a.rw" from path]
    exact exists_nests_of_plain plain'

end Inclusion

end RailRoute.Source
