import RailRoute.Source.Dialect
import RailRoute.Source.Expression

/-!
# From lines to expressions

CSV lines are cut at commas outside parentheses. RW lines are cut only inside the section of the
track; elsewhere a line is one row. Blank pieces and comments, which begin with a semicolon, are
dropped, and a line in brackets is a section header as a whole.
-/

namespace RailRoute.Source

/-- Whether a section is the one that describes the track. -/
def isTrackSection (name : List Char) : Bool :=
  Text.sameWord name "track".toList || Text.sameWord name "railway".toList

/-- The pieces of a line between its commas outside parentheses; `depth` counts the parentheses
open so far, and one that closes nothing is ignored. -/
def commaPieces : Nat → List Char → List (List Char)
  | _, [] => [[]]
  | depth, c :: r =>
    if c = ',' ∧ depth = 0 then [] :: commaPieces 0 r
    else
      let depth := if c = '(' then depth + 1 else if c = ')' then depth - 1 else depth
      match commaPieces depth r with
      | [] => [[c]]
      | p :: ps => (c :: p) :: ps

/-- Pieces of a line with the number of characters before each, if `start` characters come before
the first and one separator between any two. -/
def placePieces (start : Nat) : List (List Char) → List (Nat × List Char)
  | [] => []
  | p :: ps => (start, p) :: placePieces (start + p.length + 1) ps

/-- How many blanks a text begins with. -/
def leadingBlanks (cs : List Char) : Nat := (cs.takeWhile Text.isBlank).length

/-- The expression in a piece of a line, unless it is blank or a comment. -/
def pieceExpression? (file : String) (line : Nat) (piece : Nat × List Char) : Option Expression :=
  match Text.trim piece.2 with
  | [] => none
  | c :: r =>
    if c = ';' then none
    else some ⟨⟨file, line, piece.1 + leadingBlanks piece.2 + 1⟩, String.ofList (c :: r)⟩

/-- The expressions of a line that is no header. -/
def lineExpressions (file : String) (line : Nat) (isCut : Bool) (cs : List Char) :
    List Expression :=
  (placePieces 0 (if isCut then commaPieces 0 cs else [cs])).filterMap (pieceExpression? file line)

/-- The expressions of the lines from number `line` on; `onTrack` says whether the lines before
left the track section open. -/
def splitFrom (file : String) (dialect : Dialect) :
    Nat → Bool → List (List Char) → List Expression
  | _, _, [] => []
  | line, onTrack, cs :: rest =>
    match headerName? cs with
    | some name =>
      ⟨⟨file, line, leadingBlanks cs + 1⟩, String.ofList (Text.trim cs)⟩ ::
        splitFrom file dialect (line + 1) (isTrackSection name) rest
    | none =>
      lineExpressions file line (dialect = .csv || onTrack) cs ++
        splitFrom file dialect (line + 1) onTrack rest

/-- The expressions of a file. -/
def splitLines (file : String) (dialect : Dialect) (lines : List (List Char)) : List Expression :=
  splitFrom file dialect 1 false lines

end RailRoute.Source
