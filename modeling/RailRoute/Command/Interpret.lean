import RailRoute.Command.Alias
import RailRoute.Command.Basic
import RailRoute.Source.Dialect

/-!
# The meaning of an expression

An expression is read under the section it stands in. It changes the section, it is a track
position, or it is a command, which may borrow its namespace from the section.
-/

namespace RailRoute

open Source

/-- The section in force, and whether commands without a namespace belong to it. -/
structure Scope where
  heading : String
  alwaysPrefixed : Bool
  deriving DecidableEq, Repr

namespace Scope

/-- The scope at the beginning of a route. -/
def initial : Scope := ⟨"", false⟩

/-- The scope behind a section header. Two sections have older names. -/
def ofHeader (name : String) : Scope :=
  if Text.sameWord name.toList "object".toList then ⟨"Structure", true⟩
  else if Text.sameWord name.toList "railway".toList then ⟨"Track", true⟩
  else ⟨name, true⟩

/-- Whether the section is the one that describes the track. -/
def isTrack (s : Scope) : Bool := Text.sameWord s.heading.toList "track".toList

end Scope

/-- What an expression means. -/
inductive Interpretation (R : Type) where
  /-- The scope is replaced. -/
  | scope (new : Scope)
  | position (value : R) (hasArguments : Bool)
  | command (c : Command)

/-- A spelling with the namespace of the section put in front, where it belongs there, in lower
case. Parts `.void` only fill a place and are dropped. -/
def prefixed (s : Scope) (command : List Char) : List Char :=
  let c := Text.lower command
  let root := Text.lower s.heading.toList
  let full :=
    if c.head? = some '.' then root ++ c
    else if s.alwaysPrefixed && !(root ++ ['.']).isPrefixOf c then root ++ '.' :: c
    else c
  Text.erase ".void".toList full

/-- Reads indices divided by semicolons; `command` is only named in problems. -/
def readIndices (R : Type) [Scalar R] (command : List Char) :
    List (List Char) → Except Problem (List Int)
  | [] => .ok []
  | part :: rest =>
    match parseInt R part with
    | none => .error (.badIndex (String.ofList (Text.trim part)) (String.ofList command))
    | some i => (readIndices R command rest).map (i :: ·)

/-- Takes the first parenthesized group out of a spelling and reads it as indices. -/
def takeIndices (R : Type) [Scalar R] (command : List Char) :
    Except Problem (List Int × List Char) :=
  match Text.cutAt? (· = '(') command with
  | none => .ok ([], command)
  | some (before, group) =>
    match Text.cutAt? (· = ')') group with
    | none => .error (.indexNotClosed (String.ofList command))
    | some (opened, rest) =>
      (readIndices R command (Text.parts (· = ';') (opened.drop 1))).map fun indices =>
        (indices, before ++ Text.trim (rest.drop 1))

/-- The command with a given spelling and given arguments. All signals share the empty
namespace. -/
def readCommand (R : Type) [Scalar R] (s : Scope) (spelling raw : List Char) :
    Except Problem Command :=
  (takeIndices R (Alias.canonical (prefixed s spelling))).map fun x =>
    let name := match Text.cutAt? (· = '.') x.2 with
      | some (root, rest) => (root, rest.drop 1)
      | none => ([], x.2)
    { root := if "signal".toList.isPrefixOf name.1 then "" else String.ofList name.1
      name := String.ofList name.2
      indices := x.1
      arguments := (splitArguments raw).map String.ofList
      raw := String.ofList raw }

/-- The meaning of an expression under a scope, or what is wrong with its spelling. -/
def interpret {R : Type} [Scalar R] (dialect : Dialect) (factors : List R) (s : Scope)
    (e : Expression) : Except Problem (Interpretation R) :=
  match e.header? with
  | some name => .ok (.scope (Scope.ofHeader name))
  | none =>
    let parts := separate e.text.toList
    let position? := if dialect = .csv || s.isTrack then parseLength factors parts.1 else none
    match position? with
    | some value => .ok (.position value !parts.2.isEmpty)
    | none =>
      if Text.sameWord parts.1 "with".toList then
        .ok (.scope ⟨String.ofList ((splitArguments parts.2).headD []), false⟩)
      else (readCommand R s parts.1 parts.2).map .command

/-- The scope behind an expression with the given meaning. -/
def Scope.after {R : Type} (s : Scope) : Except Problem (Interpretation R) → Scope
  | .ok (.scope new) => new
  | _ => s

/-- An expression as it is interpreted: RW rows that are no headers are
spelled as commands. -/
def Source.Expression.normalized (R : Type) [Scalar R] (dialect : Dialect) (s : Scope)
    (e : Expression) : Expression :=
  if dialect = .rw ∧ e.header? = none then e.ofRow R s.heading s.alwaysPrefixed else e

end RailRoute
