import RailRoute.Text.Basic

/-!
# The two route languages
-/

namespace RailRoute

/-- The languages a route may be written in. In CSV every command names its namespace; in RW the
rows of a section are written `key = value`. -/
inductive Dialect where
  | csv
  | rw
  deriving DecidableEq, Repr

/-- The dialect with the given name in any case, or else the name in lower case. -/
def Dialect.ofName (name : String) : Except String Dialect :=
  let spelling := String.ofList (Text.lower name.toList)
  if spelling = "csv" then .ok .csv
  else if spelling = "rw" then .ok .rw
  else .error spelling

/-- What is said about a name that belongs to no dialect. -/
def Dialect.unknownText (spelling : String) : String := s!"unknown dialect \"{spelling}\""

end RailRoute
