import RailRoute.Problem
import RailRoute.Source.Expression

/-!
# Commands

A command has a namespace, a name, indices and arguments, whatever spelling it was written in. This
module reads its indices and arguments as numbers. A missing argument silently stands for its
default value, and one that is no number stands for it with a message.
-/

namespace RailRoute

open Source

/-- A command in its normal form, all names in lower case. -/
structure Command where
  /-- The namespace, which is empty for signals. -/
  root : String
  name : String
  indices : List Int
  arguments : List String
  /-- The arguments before they were divided. -/
  raw : String
  deriving DecidableEq, Repr

namespace Command

/-- The command as messages name it. -/
def qualifiedName (c : Command) : String :=
  if c.root.isEmpty then c.name else s!"{c.root}.{c.name}"

/-- The argument at a place, unless it is missing or empty. -/
def argument? (c : Command) (i : Nat) : Option String :=
  match c.arguments[i]? with
  | some a => if a.isEmpty then none else some a
  | none => none

/-- Notes that the command suffers from a defect. -/
def note (c : Command) (d : Defect) : Check Unit := Check.note (.inCommand c.qualifiedName d)

/-- Gives the command up because of a defect. -/
def fail {α : Type} (c : Command) (d : Defect) : Check α :=
  Check.fail (.inCommand c.qualifiedName d)

/-- Gives the command up if there is no value. -/
def require {α : Type} (c : Command) (d : Defect) (a? : Option α) : Check α :=
  Check.ofOption (.inCommand c.qualifiedName d) a?

/-- Gives the command up because nobody knows it. -/
def unsupported {α : Type} (c : Command) : Check α :=
  Check.fail (.unsupportedCommand c.qualifiedName)

/-- Reads the text of an argument, with a default for an empty or unreadable one. -/
def readText {α : Type} (c : Command) (parse : List Char → Option α) (a : String) (default : α)
    (what : String) : Check α :=
  if a.isEmpty then pure default
  else
    match parse a.toList with
    | some x => pure x
    | none => do
      c.note (.invalid what)
      pure default

/-- Reads an argument, with a default for a missing or unreadable one. -/
def read {α : Type} (c : Command) (parse : List Char → Option α) (i : Nat) (default : α)
    (what : String) : Check α :=
  match c.arguments[i]? with
  | none => pure default
  | some a => c.readText parse a default what

/-- Reads an argument as a number. -/
def number {R : Type} [Scalar R] (c : Command) (i : Nat) (default : R) (what : String) : Check R :=
  c.read parseLenient i default what

/-- Reads an argument as an integer. -/
def integer (R : Type) [Scalar R] (c : Command) (i : Nat) (default : Int) (what : String) :
    Check Int :=
  c.read (parseInt R) i default what

/-- Reads an argument as 0 or 1. -/
def flag (R : Type) [Scalar R] (c : Command) (i : Nat) (what : String) : Check Bool := do
  let x ← c.integer R i 0 what
  if x = 0 then pure false
  else if x = 1 then pure true
  else c.fail (.mustBe what .flag)

/-- Reads an argument as a natural number. -/
def natural (R : Type) [Scalar R] (c : Command) (i : Nat) (default : Int) (what : String) :
    Check Nat := do
  let x ← c.integer R i default what
  if x < 0 then c.fail (.mustBe what .nonNegative) else pure x.toNat

/-- The first index of the command, which must be there. -/
def firstIndex (c : Command) : Check Nat :=
  match c.indices.head? with
  | none => c.fail (.missing "An index")
  | some x => if x < 0 then c.fail (.mustBe "Index" .nonNegative) else pure x.toNat

/-- A component of a color; what lies outside the range of a byte is moved into it. -/
def clampByte (x : Int) : Nat := (min (max x 0) 255).toNat

end Command

end RailRoute
