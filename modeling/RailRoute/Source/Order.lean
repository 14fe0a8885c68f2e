import RailRoute.Source.Split

/-!
# Sorting by track position

Between two section headers, expressions are sorted by the track position in force where they were
written, and those at the same position keep their order. Expressions before the first position of
a section come first.
-/

namespace RailRoute.Source

variable {R : Type} [Scalar R]

/-- Whether one position in force sorts before another or ties with it. No position at all comes
before every position. -/
def positionBefore : Option R → Option R → Bool
  | none, _ => true
  | some _, none => false
  | some a, some b => Scalar.sortsBefore a b

/-- The track position that an expression is, if it is one. -/
def marker? (factors : List R) (e : Expression) : Option R :=
  parseLength factors (Text.trim e.text.toList)

/-- Expressions with the position in force at each; `numbered` says whether numbers are positions
here. -/
def withPositions (factors : List R) (numbered : Bool) :
    Option R → List Expression → List (Option R × Expression)
  | _, [] => []
  | position, e :: es =>
    let here := if numbered then (marker? factors e).or position else position
    (here, e) :: withPositions factors numbered here es

/-- Sorts the expressions between two headers. -/
def sortRun (factors : List R) (numbered : Bool) (es : List Expression) : List Expression :=
  ((withPositions factors numbered none es).mergeSort fun a b => positionBefore a.1 b.1).map (·.2)

/-- Whether numbers are track positions in a section. -/
def numbersAllowed (dialect : Dialect) (name : String) : Bool :=
  dialect = .csv || isTrackSection name.toList

/-- Sorts expressions run by run; `run` holds those since the last header, reversed. -/
def sortFrom (factors : List R) (dialect : Dialect) :
    Bool → List Expression → List Expression → List Expression
  | numbered, run, [] => sortRun factors numbered run.reverse
  | numbered, run, e :: es =>
    match e.header? with
    | some name =>
      sortRun factors numbered run.reverse ++
        e :: sortFrom factors dialect (numbersAllowed dialect name) [] es
    | none => sortFrom factors dialect numbered (e :: run) es

/-- Sorts the expressions of each section by track position. -/
def sortByPosition (factors : List R) (dialect : Dialect) (es : List Expression) :
    List Expression :=
  sortFrom factors dialect (dialect = .csv) [] es

end RailRoute.Source
