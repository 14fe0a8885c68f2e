import RailRoute.Assets
import RailRoute.IndexMap
import RailRoute.Speed
import RailRoute.Tables.Options

/-!
# Metadata of a route

The commands of the namespace `route` describe the route as a whole: its texts and pictures, its
surroundings and light, and the speeds that signal aspects permit.
-/

namespace RailRoute

/-- A color of three components from 0 to 255. -/
structure Color where
  red : Nat
  green : Nat
  blue : Nat
  deriving DecidableEq, Repr

/-- Reads three arguments from place `i` on as a color, each by its own reader for the place and
the default. -/
def Color.readWith (read : Nat → Nat → Check Nat) (default : Color) : Check Color := do
  let red ← read 0 default.red
  let green ← read 1 default.green
  let blue ← read 2 default.blue
  pure ⟨red, green, blue⟩

/-- The metadata of a route. -/
structure RouteInfo (R : Type) where
  comment : String
  image : Option String
  timetable : String
  /-- How the player's train changes into the timetable: -1, 0 or 1. -/
  change : Int
  /-- The track gauge in meters. -/
  gauge : R
  /-- The permitted speed for each signal aspect. -/
  signalSpeeds : IndexMap (Speed R)
  gravity : R
  elevation : R
  temperature : R
  pressure : R
  /-- A unit in which speeds are shown, and its factor. -/
  displaySpeed : Option (String × R)
  loadingScreen : Option String
  /-- Seconds since midnight. -/
  startTime : Option Nat
  ambientLight : Color
  directionalLight : Color
  /-- Two angles in degrees. -/
  lightDirection : R × R
  initialViewpoint : Int
  developerId : String

namespace RouteInfo

variable {R : Type} [Scalar R]

/-- The metadata of a route that gives none. -/
def initial : RouteInfo R where
  comment := ""
  image := none
  timetable := ""
  change := 0
  gauge := Scalar.fixed 1435 3
  signalSpeeds := ∅
  gravity := Scalar.fixed 980665 5
  elevation := 0
  temperature := Scalar.ofNat 20
  pressure := Scalar.fixed 101325 3
  displaySpeed := none
  loadingScreen := none
  startTime := none
  ambientLight := ⟨160, 160, 160⟩
  directionalLight := ⟨160, 160, 160⟩
  lightDirection := (Scalar.ofNat 60, Scalar.ofDecimal ⟨true, 2657, -2⟩)
  initialViewpoint := 0
  developerId := ""

/-- Reads a color; a component out of range is moved into it, with a message. -/
def readColor (R : Type) [Scalar R] (c : Command) (default : Color) : Check Color :=
  Color.readWith (fun i old => do
    let x ← c.integer R i old "Color component"
    if x < 0 ∨ 255 < x then c.note (.mustBe s!"Color component {i}" (.between 0 255))
    pure (Command.clampByte x)) default

/-- Applies a command of the namespace `route` under the given options. -/
def update (o : Options R) (folders : Folders) (c : Command) (r : RouteInfo R) :
    Check (RouteInfo R) :=
  match c.name with
  | "comment" => pure { r with comment := c.raw }
  | "image" => do
    let file ← c.require (.missing "FileName") (c.argument? 0)
    pure { r with image := some (Path.resolve folders.route file) }
  | "timetable" => pure { r with timetable := c.raw }
  | "change" => do
    let mode ← c.integer R 0 0 "Mode"
    if mode < -1 ∨ 1 < mode then c.fail (.mustBe "Mode" .direction)
    pure { r with change := mode }
  | "gauge" => do
    let mm ← c.number 0 (Scalar.ofNat 1435 : R) "ValueInMillimeters"
    if mm ≤ 0 then c.fail (.mustBe "ValueInMillimeters" .positive)
    pure { r with gauge := Scalar.fixed 1 3 * mm }
  | "signal" => do
    let aspect ← c.firstIndex
    let _ ← c.require (.missing "Speed") (c.argument? 0)
    let speed ← c.number 0 (0 : R) "Speed"
    if speed < 0 then c.fail (.mustBe "Speed" .nonNegative)
    pure { r with signalSpeeds := r.signalSpeeds.insert aspect (.ofWritten speed o.unitOfSpeed) }
  | "accelerationduetogravity" => do
    let g ← c.number 0 (Scalar.fixed 980665 5 : R) "Value"
    if g ≤ 0 then c.fail (.mustBe "Value" .positive)
    pure { r with gravity := g }
  | "elevation" => do
    let height ← c.number 0 (0 : R) "Height"
    pure { r with elevation := height * o.lengthUnit }
  | "temperature" => do
    let t ← c.number 0 (Scalar.ofNat 20 : R) "ValueInCelsius"
    if t ≤ Scalar.ofDecimal ⟨true, 27315, -2⟩ then
      c.fail (.mustBe "ValueInCelsius" .aboveAbsoluteZero)
    pure { r with temperature := t }
  | "pressure" => do
    let p ← c.number 0 (Scalar.fixed 101325 3 : R) "ValueInKPa"
    if p ≤ 0 then c.fail (.mustBe "ValueInKPa" .positive)
    pure { r with pressure := p }
  | "displayspeed" =>
    match c.argument? 0, c.argument? 1 with
    | some unit, some _ => do
      let factor ← c.number 1 (1 : R) "ConversionFactor"
      pure { r with displaySpeed := some (unit, factor) }
    | _, _ => c.fail (.missingBoth "Unit" "ConversionFactor")
  | "loadingscreen" => do
    let file ← c.require (.missing "FileName") (c.argument? 0)
    pure { r with loadingScreen := some (Path.resolve folders.route file) }
  | "starttime" => do
    let time ← c.require (.invalid "Time")
      ((c.argument? 0).bind fun a => Source.parseTime a.toList)
    pure { r with startTime := some time }
  | "ambientlight" => do
    let color ← readColor R c r.ambientLight
    pure { r with ambientLight := color }
  | "directionallight" => do
    let color ← readColor R c r.directionalLight
    pure { r with directionalLight := color }
  | "lightdirection" => do
    let theta ← c.number 0 r.lightDirection.1 "Theta"
    let phi ← c.number 1 r.lightDirection.2 "Phi"
    pure { r with lightDirection := (theta, phi) }
  | "initialviewpoint" => do
    let v ← c.integer R 0 0 "Value"
    if v < 0 ∨ 3 < v then c.fail (.mustBe "Value" (.between 0 3))
    pure { r with initialViewpoint := v }
  | "developerid" => pure { r with developerId := c.raw }
  | _ => c.unsupported

end RouteInfo

end RailRoute
