import Std.Data.TreeMap
import RailRoute.Files
import RailRoute.Path
import RailRoute.Random
import RailRoute.Source.Directive
import RailRoute.Source.Split
import RailRoute.Text.Encoding

/-!
# Expanding directives

Expressions are expanded from the first to the last. Conditionals open and close branches, of which
only the active ones are read; an include puts the expanded expressions of another file in its
place; a definition gives a number a text; and in all other expressions the inline directives are
replaced by their values, innermost first and from left to right. What a directive produces is never
read again. A directive that makes no sense drops its expression with a message. Only a structure
that cannot be laid out, such as a condition left open, ends the expansion.
-/

namespace RailRoute.Source

/-! ## Failures -/

/-- Why a list of expressions cannot be laid out. -/
inductive StructureFault where
  | unclosed (directive : String)
  | elseOutside
  | secondElse
  | endOutside
  | openIf
  deriving DecidableEq, Repr

/-- The wording of a fault of structure. -/
def StructureFault.text : StructureFault → String
  | .unclosed directive => s!"${directive} directive is not terminated by a closing parenthesis"
  | .elseOutside => "$Else without a preceding $If"
  | .secondElse => "Duplicate $Else in the same $If block"
  | .endOutside => "$EndIf without a preceding $If"
  | .openIf => "$If without a matching $EndIf"

/-- A fault of structure and where it was met. -/
structure StructureError where
  fault : StructureFault
  location : Location
  deriving DecidableEq, Repr

/-- A fault of structure as one line. -/
def StructureError.text (e : StructureError) : String := s!"{e.fault.text} {e.location.text}"

/-- How the expansion of one text can fail: the expression is dropped, or all is lost. -/
inductive TextFailure where
  | invalid (problem : Problem)
  | fatal (fault : StructureFault)
  deriving DecidableEq, Repr

/-! ## Inline directives -/

/-- What inline directives draw from and look up. -/
structure Dictionary where
  generator : Generator
  substitutions : Std.TreeMap Int (List Char) compare

/-- The integers two arguments bound, if they are integers in order. -/
def randomBounds? (R : Type) [Scalar R] : List (List Char) → Option (Int × Int)
  | [a, b] =>
    match (parseNumber a : Option R), (parseNumber b : Option R) with
    | some low, some high =>
      if Scalar.isIntegral low && Scalar.isIntegral high && decide (low ≤ high) then
        some (Scalar.truncInt low, Scalar.truncInt high)
      else none
    | _, _ => none
  | _ => none

/-- The character with a code from 1 to 127. -/
def characterOf? (R : Type) [Scalar R] (argument : List Char) : Option Char :=
  match (parseNumber argument : Option R) with
  | some x =>
    if Scalar.isIntegral x && decide (1 ≤ x) && decide (x ≤ Scalar.ofNat 127) then
      some (Char.ofNat (Scalar.floorNat x))
    else none
  | none => none

/-- The integer a text denotes as a whole. -/
def wholeNumber? (R : Type) [Scalar R] (argument : List Char) : Option Int :=
  match (parseNumber argument : Option R) with
  | some x => if Scalar.isIntegral x then some (Scalar.truncInt x) else none
  | none => none

/-- The value of an inline directive whose argument has been expanded. -/
def evaluate (R : Type) [Scalar R] (name : InlineName) (argument : List Char) (d : Dictionary) :
    Except TextFailure (List Char) × Dictionary :=
  let shown := String.ofList argument
  match name with
  | .character =>
    match characterOf? R argument with
    | some c => (.ok [c], d)
    | none => (.error (.invalid (.badCharacterCode shown)), d)
  | .random =>
    match randomBounds? R (splitArguments argument) with
    | some (low, high) =>
      let draw := d.generator.integer low high
      (.ok (toString draw.1).toList, { d with generator := draw.2 })
    | none => (.error (.invalid (.badRandomRange shown)), d)
  | .substitution =>
    match wholeNumber? R argument with
    | some i =>
      match d.substitutions[i]? with
      | some value => (.ok value, d)
      | none => (.error (.invalid (.undefinedSubstitution shown)), d)
    | none => (.error (.invalid (.badSubstitutionIndex shown)), d)

/-- Replaces the inline directives of a text by their values. -/
def expandText (R : Type) [Scalar R] (cs : List Char) (d : Dictionary) :
    Except TextFailure (List Char) × Dictionary :=
  match _h : scanInline cs with
  | .absent => (.ok cs, d)
  | .unclosed written =>
    (.error (.fatal (.unclosed (String.ofList (Text.lower written)))), d)
  | .found before written inside rest =>
    match expandText R inside d with
    | (.error e, d) => (.error e, d)
    | (.ok argument, d) =>
      match evaluate R (.ofWritten written) argument d with
      | (.error e, d) => (.error e, d)
      | (.ok value, d) =>
        match expandText R rest d with
        | (.error e, d) => (.error e, d)
        | (.ok tail, d) => (.ok (before ++ value ++ tail), d)
termination_by cs.length
decreasing_by
  · have := scanInline_length _h; omega
  · have := scanInline_length _h; omega

/-! ## Choosing a file -/

/-- The files an include names, each with its weight. Files and weights alternate; the last file
may go without a weight, and a file without a name does not take part. A weight that is no
non-negative number is returned as the error. -/
def includeCandidates {R : Type} [Scalar R] :
    List (List Char) → Except (List Char) (List (List Char × R))
  | [] => .ok []
  | [file] => .ok (if file.isEmpty then [] else [(file, 1)])
  | file :: weight :: rest =>
    match (parseNumber weight : Option R) with
    | none => .error weight
    | some w =>
      if 0 ≤ w then
        (includeCandidates rest).map fun more => if file.isEmpty then more else (file, w) :: more
      else .error weight

/-- The sum of the weights. -/
def totalWeight {R : Type} [Scalar R] (candidates : List (List Char × R)) : R :=
  candidates.foldl (fun total c => total + c.2) 0

/-- The candidate in whose share of the total weight a draw falls. -/
def chooseCandidate {R : Type} [Scalar R] : R → List (List Char × R) → List Char → List Char
  | _, [], last => last
  | draw, (file, weight) :: rest, last =>
    if draw < weight then file else chooseCandidate (draw - weight) rest last

/-- Draws a number from zero up to, but not including, a positive bound. Rounding can reach the
bound; such a draw is repeated. -/
def drawBelow {R : Type} [Scalar R] (bound : R) : Nat → Generator → R × Generator
  | 0, g => (0, g)
  | fuel + 1, g =>
    let x : R := Scalar.ofNat g.fraction.1 / Scalar.ofNat Generator.fractionCount * bound
    if x < bound then (x, g.fraction.2) else drawBelow bound fuel g.fraction.2

/-! ## Lists of expressions -/

/-- What the expansion of a route works with. -/
structure ExpansionSettings where
  dialect : Dialect
  encoding : Encoding
  files : FileStore

/-- What the expansion carries from one expression to the next. -/
structure Session where
  dictionary : Dictionary
  messages : Array Message

/-- Steps of an expansion: they may change the session and may meet a fault of structure. -/
abbrev Expansion := EStateM StructureError Session

/-- Notes a problem with an expression. -/
def noteProblem (e : Expression) (p : Problem) : Expansion Unit :=
  modify fun s => { s with messages := s.messages.push ⟨p, e.location⟩ }

/-- Expands a text that belongs to an expression. There is no result if the text is invalid, which
is not yet noted here. -/
def tryText (R : Type) [Scalar R] (e : Expression) (cs : List Char) :
    Expansion (Except Problem (List Char)) := do
  let s ← get
  let r := expandText R cs s.dictionary
  set { s with dictionary := r.2 }
  match r.1 with
  | .ok text => return .ok text
  | .error (.invalid p) => return .error p
  | .error (.fatal fault) => throw ⟨fault, e.location⟩

/-- Expands a text that belongs to an expression, and notes what is invalid. -/
def textOf? (R : Type) [Scalar R] (e : Expression) (cs : List Char) :
    Expansion (Option (List Char)) := do
  match ← tryText R e cs with
  | .ok text => return some text
  | .error p =>
    noteProblem e p
    return none

/-- A condition whose end has not been met yet. -/
structure Branch where
  location : Location
  /-- Whether the expression that opened the condition was itself active. -/
  parentActive : Bool
  /-- Whether the condition held. -/
  taken : Bool
  active : Bool
  seenElse : Bool
  deriving DecidableEq, Repr

/-- Whether expressions are read under the given open conditions, the innermost first. -/
def isActive : List Branch → Bool
  | [] => true
  | b :: _ => b.active

/-- What has been laid out so far: the open conditions and the expressions of the result. -/
structure Layout where
  branches : List Branch
  output : Array Expression

/-- Whether the condition in an expression holds. -/
def conditionHolds (R : Type) [Scalar R] (e : Expression) (inside : List Char) :
    Expansion Bool := do
  match ← textOf? R e inside with
  | none => return false
  | some text =>
    match (parseNumber text : Option R) with
    | some x => return !(x == 0)
    | none =>
      noteProblem e (.conditionNotNumber (String.ofList text))
      return false

/-- Acts on a block directive; `includeFile` reads the file that an argument names. -/
def expandBlock (R : Type) [Scalar R]
    (includeFile : Expression → List Char → Expansion (List Expression))
    (e : Expression) (name : BlockName) (inside : List Char) (l : Layout) : Expansion Layout := do
  match name with
  | .openIf =>
    let active := isActive l.branches
    let holds ← if active then conditionHolds R e inside else pure false
    return { l with branches := ⟨e.location, active, holds, active && holds, false⟩ :: l.branches }
  | .openElse =>
    match l.branches with
    | [] => throw ⟨.elseOutside, e.location⟩
    | b :: rest =>
      if b.seenElse then throw ⟨.secondElse, e.location⟩
      return { l with
        branches := { b with seenElse := true, active := b.parentActive && !b.taken } :: rest }
  | .closeIf =>
    match l.branches with
    | [] => throw ⟨.endOutside, e.location⟩
    | _ :: rest => return { l with branches := rest }
  | .includeFile =>
    if isActive l.branches then
      match ← textOf? R e inside with
      | none => return l
      | some argument =>
        let included ← includeFile e argument
        return { l with output := l.output ++ included.toArray }
    else return l

/-- Acts on the definition of a substitution. Index and value are both expanded before either is
found invalid, and a fault of structure in the value wins over an invalid index. -/
def defineSubstitution (R : Type) [Scalar R] (e : Expression) (index value : List Char) :
    Expansion Unit := do
  let i ← tryText R e index
  let v ← tryText R e value
  match i, v with
  | .error p, _ => noteProblem e p
  | _, .error p => noteProblem e p
  | .ok index, .ok value =>
    let bad := noteProblem e (.badSubstitutionIndex (String.ofList index))
    match parseInt R index with
    | some n =>
      if 0 ≤ n then
        modify fun s => { s with dictionary :=
          { s.dictionary with substitutions := s.dictionary.substitutions.insert n value } }
      else bad
    | none => bad

/-- Acts on one expression. -/
def expandOne (R : Type) [Scalar R]
    (includeFile : Expression → List Char → Expansion (List Expression))
    (l : Layout) (e : Expression) : Expansion Layout := do
  let cs := Text.trim e.text.toList
  match scanBlock cs with
  | .unclosed written => throw ⟨.unclosed (String.ofList written), e.location⟩
  | .found name inside => expandBlock R includeFile e name inside l
  | .absent =>
    if !isActive l.branches then return l
    match definition? cs with
    | some (index, value) =>
      defineSubstitution R e index value
      return l
    | none =>
      match ← textOf? R e cs with
      | none => return l
      | some text =>
        let text := Text.trim text
        if text.isEmpty then return l
        return { l with output := l.output.push { e with text := String.ofList text } }

/-- Expands a list of expressions, in which every condition must be closed. -/
def expandList (R : Type) [Scalar R]
    (includeFile : Expression → List Char → Expansion (List Expression))
    (es : List Expression) : Expansion (List Expression) := do
  let l ← es.foldlM (expandOne R includeFile) ⟨[], #[]⟩
  match l.branches with
  | b :: _ => throw ⟨.openIf, b.location⟩
  | [] => return l.output.toList

/-- Draws the file that an include reads, and notes why there is none. -/
def drawFile? (R : Type) [Scalar R] (e : Expression) (argument : List Char) :
    Expansion (Option (List Char)) := do
  match (includeCandidates (splitArguments argument) : Except _ (List (List Char × R))) with
  | .error weight =>
    noteProblem e (.badIncludeWeight (String.ofList weight))
    return none
  | .ok candidates =>
    match candidates.getLast? with
    | none =>
      noteProblem e .nothingToInclude
      return none
    | some last =>
      let total := totalWeight candidates
      if total ≤ 0 then
        noteProblem e .nothingToInclude
        return none
      let s ← get
      let draw := drawBelow total Generator.attempts s.dictionary.generator
      set { s with dictionary := { s.dictionary with generator := draw.2 } }
      return some (chooseCandidate draw.1 candidates last.1)

/-- Reads the file an include names and expands it, if `levels` more files may be included inside
each other. -/
def includeAt (R : Type) [Scalar R] (settings : ExpansionSettings) :
    Nat → Expression → List Char → Expansion (List Expression)
  | 0, e, _ => do
    noteProblem e .includeTooDeep
    return []
  | levels + 1, e, argument => do
    match ← drawFile? R e argument with
    | none => return []
    | some file =>
      let path := Path.resolve (Path.parent e.location.file) (String.ofList file)
      match settings.files.read path with
      | .error reason =>
        noteProblem e (.unreadableInclude path reason.message)
        return []
      | .ok bytes =>
        let lines := Text.lines (Text.decode settings.encoding bytes)
        expandList R (includeAt R settings levels) (splitLines path settings.dialect lines)

/-- What an expansion yields: its messages, and the expressions unless the structure is broken. -/
structure Expanded where
  messages : List Message
  result : Except StructureError (List Expression)

/-- Expands the expressions of a route, with random draws from the given seed. -/
def expand (R : Type) [Scalar R] (settings : ExpansionSettings) (seed : UInt64)
    (es : List Expression) : Expanded :=
  let start : Session := ⟨⟨Generator.ofSeed seed, ∅⟩, #[]⟩
  match expandList R (includeAt R settings maxIncludeDepth) es start with
  | .ok output s => ⟨s.messages.toList, .ok output⟩
  | .error e s => ⟨s.messages.toList, .error e⟩

end RailRoute.Source
