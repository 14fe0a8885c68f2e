import RailRoute.Message
import RailRoute.Source.Number

/-!
# Expressions

An expression is one unit of a route: a section header, a track position or a command. This module
takes expressions apart: a command from its arguments, and the arguments from each other. It also
spells the rows of the RW language as commands, so that both languages read alike from there on.
-/

namespace RailRoute.Source

/-- One unit of a route and the place it was written at. -/
structure Expression where
  location : Location
  text : String
  deriving DecidableEq, Repr

/-- The name inside the brackets of a section header. -/
def headerName? (cs : List Char) : Option (List Char) :=
  (Text.between? '[' ']' (Text.trim cs)).map Text.trim

/-- The name of the section that an expression opens, if it is a header. -/
def Expression.header? (e : Expression) : Option String :=
  (headerName? e.text.toList).map String.ofList

/-! ## Rows -/

/-- What a key of an RW row stands for in a section whose rows are numbered. -/
def rowKey (R : Type) [Scalar R] (heading : List Char) (alwaysPrefixed : Bool) (key : List Char) :
    List Char :=
  if alwaysPrefixed && (parseNumber key : Option R).isSome then
    if Text.sameWord heading "cycle".toList then ".Ground(".toList ++ key ++ [')']
    else if Text.sameWord heading "signal".toList then ".Void(".toList ++ key ++ [')']
    else key
  else key

/-- An RW row in CSV spelling: a leading `@` is dropped, and `key = value` becomes the key and the
value with a blank between them. -/
def rowText (R : Type) [Scalar R] (heading : List Char) (alwaysPrefixed : Bool) (cs : List Char) :
    List Char :=
  let row := match Text.trim cs with
    | '@' :: r => Text.trimStart r
    | r => r
  match Text.cutOutside? (· = '=') 0 row with
  | some (before, after) =>
    let key := rowKey R heading alwaysPrefixed (Text.trim before)
    let value := Text.trim (after.drop 1)
    if value.isEmpty then key else key ++ ' ' :: value
  | none => row

/-- The expression with its text, an RW row, spelled as in CSV. -/
def Expression.ofRow (R : Type) [Scalar R] (heading : String) (alwaysPrefixed : Bool)
    (e : Expression) : Expression :=
  { e with text := String.ofList (rowText R heading.toList alwaysPrefixed e.text.toList) }

/-! ## Commands and arguments -/

/-- The inside of a text that is one parenthesized group, and other texts as they are. -/
def stripGroup (cs : List Char) : List Char :=
  match Text.trailingGroup? cs with
  | some ([], inside) => Text.trim inside
  | _ => cs

/-- Splits a text into the command and its arguments. The arguments follow the first blank outside
parentheses; without one they are what a group at the end holds, unless the group is all there
is. -/
def separate (cs : List Char) : List Char × List Char :=
  let row := Text.trim cs
  match Text.cutOutside? Text.isBlank 0 row with
  | some (command, rest) => (Text.trimEnd command, stripGroup (Text.trim rest))
  | none =>
    match Text.trailingGroup? row with
    | some (c :: command, inside) => (Text.trimEnd (c :: command), Text.trim inside)
    | _ => (row, [])

/-- The arguments of a command, divided by semicolons and commas. -/
def splitArguments (cs : List Char) : List (List Char) :=
  let row := Text.trim cs
  if row.isEmpty then [] else (Text.parts (fun c => c = ';' || c = ',') row).map Text.trim

end RailRoute.Source
