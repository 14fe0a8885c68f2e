/-!
# Problems of a route

Everything a route author can get wrong is a value of `Problem`, a cause without its wording. The
wording is in `Problem.text` and its seriousness in `Problem.severity`, once for all. `Check` is a
computation that notes problems on its way and may give up.
-/

namespace RailRoute

/-- How serious a message is. -/
inductive Severity where
  | information
  | warning
  | error
  deriving DecidableEq, Repr

/-- What the value of an argument has to be. -/
inductive Demand where
  | positive
  | nonNegative
  | nonZero
  | aboveAbsoluteZero
  | flag
  | direction
  | between (low high : Nat)
  deriving DecidableEq, Repr

/-- The wording of a demand. -/
def Demand.text : Demand → String
  | .positive => "positive"
  | .nonNegative => "non-negative"
  | .nonZero => "non-zero"
  | .aboveAbsoluteZero => "greater than -273.15"
  | .flag => "either 0 or 1"
  | .direction => "-1, 0 or 1"
  | .between low high => s!"in the range from {low} to {high}"

/-- The kinds of files a host loads. -/
inductive AssetKind where
  | object
  | texture
  | sound
  deriving DecidableEq, Repr

/-- What is wrong with the arguments or the circumstances of a command. -/
inductive Defect where
  /-- An argument is not what it should be read as. -/
  | invalid (what : String)
  | missing (what : String)
  | missingBoth (first second : String)
  | mustBe (what : String) (demand : Demand)
  | mustBothBe (first second : String) (demand : Demand)
  | unsupportedValue (what : String)
  /-- An index names nothing that was loaded. -/
  | notLoaded (what : String) (index : Nat) (asset : String)
  | unloadable (file reason : String)
  | noSuchRail (rail : Nat)
  | railRunning (rail : Nat)
  | nothingToEnd (rail : Nat)
  | stopWithoutStation
  deriving DecidableEq, Repr

/-- The wording of a defect. -/
def Defect.text : Defect → String
  | .invalid what => s!"{what} is invalid"
  | .missing what => s!"{what} is expected"
  | .missingBoth first second => s!"{first} and {second} are expected"
  | .mustBe what demand => s!"{what} is expected to be {demand.text}"
  | .mustBothBe first second demand => s!"{first} and {second} are expected to be {demand.text}"
  | .unsupportedValue what => s!"{what} has an unsupported value"
  | .notLoaded what index asset => s!"{what} {index} references {asset} not loaded"
  | .unloadable file reason => s!"Could not load {file}: {reason}"
  | .noSuchRail rail => s!"RailIndex {rail} references a non-existing rail"
  | .railRunning rail => s!"RailIndex {rail} references an already running rail"
  | .nothingToEnd rail => s!"RailIndex {rail} has nothing to end"
  | .stopWithoutStation => "A stop without a station is invalid"

/-- How many files may include each other before the innermost is refused. -/
def maxIncludeDepth : Nat := 16

/-- A problem that does not stop the compilation. -/
inductive Problem where
  /-- A command suffers from a defect. -/
  | inCommand (command : String) (defect : Defect)
  | unloadable (file reason : String)
  | unsupportedCommand (command : String)
  | glowIgnored
  | indexNotClosed (command : String)
  | badIndex (part command : String)
  | positionWithArguments
  | negativePosition
  | conditionNotNumber (condition : String)
  | badCharacterCode (argument : String)
  | badRandomRange (argument : String)
  | badSubstitutionIndex (index : String)
  | undefinedSubstitution (index : String)
  | includeTooDeep
  | badIncludeWeight (weight : String)
  | nothingToInclude
  | unreadableInclude (file reason : String)
  deriving DecidableEq, Repr

namespace Problem

/-- The wording of a problem. -/
def text : Problem → String
  | inCommand command defect => s!"{defect.text} in {command}"
  | unloadable file reason => s!"Could not load {file}: {reason}"
  | unsupportedCommand command => s!"The command {command} is not supported"
  | glowIgnored => "GlowFileWithoutExtension is ignored for animated signals"
  | indexNotClosed command => s!"Invalid index in command {command}"
  | badIndex part command => s!"Invalid index \"{part}\" in command {command}"
  | positionWithArguments => "A track position must not contain any arguments"
  | negativePosition => "Negative track position encountered"
  | conditionNotNumber condition => s!"The $If condition \"{condition}\" is not a number"
  | badCharacterCode argument => s!"Invalid character code \"{argument}\" in $Chr"
  | badRandomRange argument =>
    s!"$Rnd expects two integers a;b with a <= b, found \"{argument}\""
  | badSubstitutionIndex index => s!"Invalid $Sub index \"{index}\""
  | undefinedSubstitution index => s!"$Sub({index}) is not defined"
  | includeTooDeep => s!"$Include nesting is deeper than {maxIncludeDepth} files"
  | badIncludeWeight weight => s!"Invalid $Include weight \"{weight}\""
  | nothingToInclude => "$Include names no file with a positive weight"
  | unreadableInclude file reason => s!"The included file {file} could not be read: {reason}"

/-- Only what is ignored as a whole is a warning. -/
def severity : Problem → Severity
  | unsupportedCommand _ | glowIgnored => .warning
  | _ => .error

end Problem

/-- The outcome of a computation that notes problems in order and has no value if it gave up. -/
structure Check (α : Type) where
  problems : List Problem
  value? : Option α

namespace Check

/-- A computation that notes nothing. -/
protected def pure {α : Type} (a : α) : Check α := ⟨[], some a⟩

/-- Goes on with the value, if there is one, and keeps the problems of both parts in order. -/
protected def bind {α β : Type} (x : Check α) (f : α → Check β) : Check β :=
  match x.value? with
  | none => ⟨x.problems, none⟩
  | some a => ⟨x.problems ++ (f a).problems, (f a).value?⟩

instance : Monad Check where
  pure := Check.pure
  bind := Check.bind

/-- Notes a problem and goes on. -/
def note (p : Problem) : Check Unit := ⟨[p], some ()⟩

/-- Notes a problem and gives up. -/
def fail {α : Type} (p : Problem) : Check α := ⟨[p], none⟩

/-- Gives up if there is no value. -/
def ofOption {α : Type} (p : Problem) : Option α → Check α
  | some a => pure a
  | none => fail p

end Check

end RailRoute
