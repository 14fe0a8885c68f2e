import RailRoute.Problem

/-!
# Messages

A message is a problem at a place in a route file.
-/

namespace RailRoute

/-- A place in a file of a route. Lines and columns are counted from one, columns in characters. -/
structure Location where
  file : String
  line : Nat
  column : Nat
  deriving DecidableEq, Repr

/-- A problem and where it was met. -/
structure Message where
  problem : Problem
  location : Location
  deriving DecidableEq, Repr

namespace Message

/-- The wording of the message. -/
def text (m : Message) : String := m.problem.text

/-- The seriousness of the message. -/
def severity (m : Message) : Severity := m.problem.severity

end Message

/-- The name under which a severity is shown. -/
def Severity.label : Severity → String
  | .information => "Information"
  | .warning => "Warning"
  | .error => "Error"

/-- A place as it stands behind a message. -/
def Location.text (l : Location) : String :=
  s!"at line {l.line}, column {l.column} in file {l.file}"

/-- A message as one line. -/
def Message.line (m : Message) : String :=
  s!"{m.severity.label}: {m.text} {m.location.text}"

/-- The messages for the problems met at one place. -/
def Location.messages (l : Location) (problems : List Problem) : List Message :=
  problems.map (⟨·, l⟩)

end RailRoute
