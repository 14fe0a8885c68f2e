import RailRoute.Command.Interpret

/-!
# Options of a route

Options set the units and the block length of a route and the behavior of the program that runs it.
They are read ahead of everything else, since the unit of length decides what is a track position.
-/

namespace RailRoute

/-- How the range in which objects are shown is determined. -/
inductive ObjectVisibility where
  | legacy
  | trackBased
  deriving DecidableEq, Repr

/-- How the aspects of a section follow from those ahead of it. -/
inductive SectionBehavior where
  | default
  | simplified
  deriving DecidableEq, Repr

/-- Whether the sign of a cant is taken from the curve or is written. -/
inductive CantBehavior where
  | unsigned
  | signed
  deriving DecidableEq, Repr

/-- Whether fog changes by blocks or gradually. -/
inductive FogBehavior where
  | blockBased
  | interpolated
  deriving DecidableEq, Repr

/-- The options of a route. -/
structure Options (R : Type) where
  /-- The factors of the `a:b:c` notation of lengths; the last one applies to `c`. -/
  unitOfLength : List R
  /-- Meters per second for one unit of speed. -/
  unitOfSpeed : R
  /-- The length of a block in meters. -/
  blockInterval : R
  objectVisibility : ObjectVisibility
  sectionBehavior : SectionBehavior
  cantBehavior : CantBehavior
  fogBehavior : FogBehavior
  compatibleTransparency : Bool
  /-- Whether known mistakes of published routes are corrected. -/
  correctsKnownMistakes : Bool

namespace Options

variable {R : Type} [Scalar R]

/-- The options of a route that sets none. -/
def initial : Options R where
  unitOfLength := [1]
  unitOfSpeed := 1 / Scalar.fixed 36 1
  blockInterval := Scalar.ofNat 25
  objectVisibility := .legacy
  sectionBehavior := .default
  cantBehavior := .unsigned
  fogBehavior := .blockBased
  compatibleTransparency := false
  correctsKnownMistakes := false

/-- The factor of lengths that are written as one number. -/
def lengthUnit (o : Options R) : R := o.unitOfLength.getLast?.getD 1

/-- Reads one factor of the unit of length, with a default for one that is left out or not
positive. -/
def readFactor (c : Command) (default : R) (i : Nat) (a : String) : Check R :=
  let bad : Check R := do
    c.note (.invalid s!"FactorInMeters{i}")
    pure default
  match (Source.parseLenient a.toList : Option R) with
  | some f => if 0 < f then pure f else bad
  | none => if a.isEmpty then pure default else bad

/-- Reads the factors of the unit of length. The default is 1 at the last place and 0 elsewhere. -/
def readFactors (c : Command) : Check (List R) :=
  let last := c.arguments.length - 1
  c.arguments.zipIdx.mapM fun a => readFactor c (if a.2 = last then 1 else 0) a.2 a.1

/-- Applies a command of the namespace `options`. -/
def update (c : Command) (o : Options R) : Check (Options R) :=
  match c.name with
  | "unitoflength" => do
    if c.arguments.isEmpty then c.fail (.missing "At least one argument")
    let factors ← readFactors c
    pure { o with unitOfLength := factors }
  | "unitofspeed" => do
    let factor ← c.number 0 (1 : R) "FactorInKmph"
    if factor ≤ 0 then c.fail (.mustBe "FactorInKmph" .positive)
    pure { o with unitOfSpeed := factor / Scalar.fixed 36 1 }
  | "blocklength" => do
    let x ← c.number 0 (Scalar.ofNat 25 : R) "Length"
    let length := x * o.lengthUnit
    if length ≤ 0 then c.fail (.mustBe "Length" .positive)
    pure { o with blockInterval := length }
  | "objectvisibility" => do
    let on ← c.flag R 0 "Mode"
    pure { o with objectVisibility := if on then .trackBased else .legacy }
  | "sectionbehavior" => do
    let on ← c.flag R 0 "Mode"
    pure { o with sectionBehavior := if on then .simplified else .default }
  | "cantbehavior" => do
    let on ← c.flag R 0 "Mode"
    pure { o with cantBehavior := if on then .signed else .unsigned }
  | "fogbehavior" => do
    let on ← c.flag R 0 "Mode"
    pure { o with fogBehavior := if on then .interpolated else .blockBased }
  | "compatibletransparency" => do
    let on ← c.flag R 0 "Mode"
    pure { o with compatibleTransparency := on }
  | "enablebvetshacks" => do
    let on ← c.flag R 0 "Mode"
    pure { o with correctsKnownMistakes := on }
  | _ => c.unsupported

/-- What is known while options are read ahead: the options so far, the scope, and the messages. -/
structure Reading (R : Type) where
  options : Options R
  scope : Scope
  messages : Array Message

/-- Reads one expression; only commands of the namespace `options` have an effect. -/
def readOne (dialect : Dialect) (r : Reading R) (e : Source.Expression) : Reading R :=
  let e := e.normalized R dialect r.scope
  let meaning := interpret dialect r.options.unitOfLength r.scope e
  match meaning with
  | .ok (.command c) =>
    if c.root = "options" then
      let update := update c r.options
      { r with
        options := update.value?.getD r.options
        messages := r.messages ++ (e.location.messages update.problems).toArray }
    else r
  | _ => { r with scope := r.scope.after meaning }

/-- Reads the options of a route ahead. -/
def readAhead (dialect : Dialect) (es : List Source.Expression) : Reading R :=
  es.foldl (readOne dialect) ⟨initial, Scope.initial, #[]⟩

end Options

end RailRoute
