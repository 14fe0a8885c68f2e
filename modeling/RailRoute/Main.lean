import RailRoute.Cli.Report

/-!
# The program

A run is computed from the files that were read so far. As long as it wants others, these are read
and it is computed again; then it is printed and its document is written.
-/

namespace RailRoute.Main

/-- The files read so far, with their contents or the reasons why there are none. -/
abbrev KnownFiles := List (String × Except FileError (List UInt8))

/-- The store that holds the files read so far. -/
def KnownFiles.store (known : KnownFiles) : FileStore :=
  ⟨fun path => (known.lookup path).getD (.error (.other "not read yet"))⟩

/-- The reason for a failure of the system. -/
def fileError : IO.Error → FileError
  | .noFileOrDirectory _ _ _ => .notFound
  | .inappropriateType _ 20 _ => .notADirectory
  | .inappropriateType _ 21 _ => .isADirectory
  | .invalidArgument _ 36 _ => .nameTooLong
  | .permissionDenied _ code details => .other s!"{details} (os error {code})"
  | e => .other (toString e)

/-- Reads a file. -/
def readFile (path : String) : IO (Except FileError (List UInt8)) := do
  match ← (IO.FS.readBinFile path).toBaseIO with
  | .ok bytes => return .ok bytes.toList
  | .error e => return .error (fileError e)

/-- Reads files until a run wants no others. -/
partial def gatherFiles (args : List String) (known : KnownFiles) : IO KnownFiles := do
  let isNew (path : String) : Bool := (known.lookup path).isNone
  match ((Cli.filesWanted known.store args).filter isNew).eraseDups with
  | [] => return known
  | paths =>
    let read ← paths.mapM fun path => return (path, ← readFile path)
    gatherFiles args (known ++ read)

/-- Writes the document of a route, and returns why that failed, if it did. -/
def writeDocument (document : String × String) : IO (Option FileError) := do
  match ← (IO.FS.writeFile document.1 document.2).toBaseIO with
  | .ok _ => return none
  | .error e => return some (fileError e)

/-- Prints a report and writes its document. Returns the exit code. -/
def carryOut (r : Cli.Report) : IO UInt32 := do
  IO.print (Cli.printed r.summary)
  let failure ← match r.document with
    | some document => writeDocument document
    | none => pure none
  match failure with
  | some e =>
    IO.print (Cli.printed (Cli.failureLines e.message))
    return 1
  | none =>
    IO.print (Cli.printed r.walk)
    return if r.succeeds then 0 else 1

end RailRoute.Main

/-- Compiles the route that the arguments name. -/
def main (args : List String) : IO UInt32 := do
  let known ← RailRoute.Main.gatherFiles args []
  RailRoute.Main.carryOut (RailRoute.Cli.report known.store args)
