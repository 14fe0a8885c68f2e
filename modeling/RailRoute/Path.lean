import RailRoute.Text.Basic

/-!
# Paths

Paths are texts whose parts are divided by slashes. Files named in a route may use backslashes as
well, and are looked up below the folder of the route or below one of the asset folders.
-/

namespace RailRoute.Path

/-- Puts one more part behind a path. -/
def push (base part : String) : String :=
  if base.isEmpty then part
  else if base.toList.getLast? = some '/' then base ++ part
  else base ++ "/" ++ part

/-- The parts divided by slashes again. -/
def join (names : List (List Char)) : String :=
  String.ofList (List.intercalate ['/'] names)

/-- The file a route names, below a folder: blanks around the name are dropped, both kinds of
slashes divide it, and empty parts do not count. -/
def resolve (base file : String) : String :=
  let names := Text.parts (fun c => c = '\\' || c = '/') (Text.trim file.toList)
  match names.filter (!·.isEmpty) with
  | [] => base
  | named => push base (join named)

/-- Whether a part of a path leads nowhere. -/
def isIdle (part : List Char) : Bool := part.isEmpty || part == ['.']

/-- The parts without those at the end that lead nowhere; a dot at the very beginning stays. -/
def dropIdle : List (List Char) → List (List Char)
  | [] => []
  | first :: rest =>
    let rest := (rest.reverse.dropWhile isIdle).reverse
    if rest.isEmpty && first.isEmpty then [] else first :: rest

/-- The folder a path lies in, which is empty for a single name, for the empty path and for the
root. -/
def parent (path : String) : String :=
  match Text.parts (· = '/') path.toList with
  | [] :: rest =>
    match ((rest.reverse.dropWhile isIdle).drop 1).dropWhile isIdle with
    | [] => if rest.all isIdle then "" else "/"
    | above => "/" ++ join above.reverse
  | names => join (dropIdle (dropIdle names).dropLast)

end RailRoute.Path
