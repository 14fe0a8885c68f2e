import RailRoute.Assets
import RailRoute.Command.Basic
import RailRoute.IndexMap

/-!
# Structures of a route

The objects a route can place, by kind and index, with the poles, backgrounds and cycles of objects.
-/

namespace RailRoute

/-- The kinds of objects that are addressed by one index. -/
inductive StructureKind where
  | rail | ground
  | wallL | wallR | dikeL | dikeR
  | formL | formR | formCL | formCR
  | roofL | roofR | roofCL | roofCR
  | crackL | crackR
  | freeObj | beacon
  deriving DecidableEq, Repr

namespace StructureKind

/-- All kinds, in the order in which they are listed. -/
def all : List StructureKind :=
  [rail, ground, wallL, wallR, dikeL, dikeR, formL, formR, formCL, formCR, roofL, roofR, roofCL,
    roofCR, crackL, crackR, freeObj, beacon]

/-- The name of a kind in commands. -/
def name : StructureKind → String
  | rail => "rail"
  | ground => "ground"
  | wallL => "walll"
  | wallR => "wallr"
  | dikeL => "dikel"
  | dikeR => "diker"
  | formL => "forml"
  | formR => "formr"
  | formCL => "formcl"
  | formCR => "formcr"
  | roofL => "roofl"
  | roofR => "roofr"
  | roofCL => "roofcl"
  | roofCR => "roofcr"
  | crackL => "crackl"
  | crackR => "crackr"
  | freeObj => "freeobj"
  | beacon => "beacon"

/-- The kind with the given name. -/
def ofName? (name : String) : Option StructureKind := all.find? (·.name = name)

/-- The place of a kind in the list of all. -/
def rank (k : StructureKind) : Nat := all.idxOf k

end StructureKind

/-- The picture around a route, repeated along the horizon. -/
structure Background where
  texture : Option String
  repetitions : Nat
  keepsAspectRatio : Bool
  deriving DecidableEq, Repr

/-- A background of which nothing is known yet. -/
def Background.initial : Background := ⟨none, 6, false⟩

/-- The structures that a route has loaded. -/
structure Structures where
  /-- Objects by kind, in the order of the kinds, and index. -/
  objects : Std.TreeMap StructureKind (IndexMap String) (compareOn StructureKind.rank)
  /-- Poles by the number of rails they span beyond the first, and index. -/
  poles : IndexMap (IndexMap String)
  backgrounds : IndexMap Background
  groundCycles : IndexMap (List Nat)
  railCycles : IndexMap (List Nat)

namespace Structures

/-- The structures of a route that has loaded nothing. -/
def initial : Structures := ⟨∅, ∅, ∅, ∅, ∅⟩

/-- Whether an object of the kind was loaded under the index. -/
def contains (s : Structures) (kind : StructureKind) (index : Nat) : Bool :=
  match s.objects[kind]? with
  | some objects => objects.contains index
  | none => false

/-- Enters an object. -/
def insert (s : Structures) (kind : StructureKind) (index : Nat) (object : String) : Structures :=
  { s with objects := s.objects.insert kind ((s.objects.getD kind ∅).insert index object) }

/-- Whether a pole for the given number of additional rails was loaded under the index. -/
def containsPole (s : Structures) (additional index : Nat) : Bool :=
  match s.poles[additional]? with
  | some poles => poles.contains index
  | none => false

/-- Enters a pole. -/
def insertPole (s : Structures) (additional index : Nat) (object : String) : Structures :=
  { s with poles := s.poles.insert additional ((s.poles.getD additional ∅).insert index object) }

/-- Changes a background, which may be new. -/
def changeBackground (s : Structures) (index : Nat) (f : Background → Background) : Structures :=
  { s with backgrounds := s.backgrounds.insert index (f (s.backgrounds.getD index .initial)) }

/-- The poles for one to four rails that come with the program, as far as the host has them. -/
def withDefaultPoles (assets : Assets) (folders : Folders) (s : Structures) : Structures :=
  (List.range 4).foldl (fun s additional =>
    let folder := Path.push (Path.push folders.objects "Compatibility") "Poles"
    let file := Path.push folder s!"pole_{additional + 1}.csv"
    if (assets.refusal .object file).isNone then s.insertPole additional 0 file else s) s

/-- Loads the object that the first argument of a command names. -/
def loadObject (assets : Assets) (folders : Folders) (c : Command) : Check String := do
  let file ← c.require (.missing "FileName") (c.argument? 0)
  assets.loadForTable .object (Path.resolve folders.objects file)

/-- Applies a command of the namespace `structure`. -/
def update (R : Type) [Scalar R] (assets : Assets) (folders : Folders) (c : Command)
    (s : Structures) : Check Structures :=
  match c.name with
  | "pole" => do
    let additional ← c.firstIndex
    let missing : Problem := .inCommand "structure.pole" (.missing "PoleStructureIndex")
    let index ← Check.ofOption missing (c.indices[1]?.filter (0 ≤ ·))
    let object ← loadObject assets folders c
    pure (s.insertPole additional index.toNat object)
  | "background" => do
    let index ← c.firstIndex
    let missing : Problem := .inCommand "structure.background" (.missing "FileName")
    let file ← Check.ofOption missing (c.argument? 0)
    let texture ← assets.loadForTable .texture (Path.resolve folders.objects file)
    pure (s.changeBackground index ({ · with texture := some texture }))
  | "background.x" => do
    let index ← c.firstIndex
    let n ← c.integer R 0 6 "RepetitionCount"
    if n ≤ 0 then
      Check.fail (.inCommand "structure.background.x" (.mustBe "RepetitionCount" .positive))
    pure (s.changeBackground index ({ · with repetitions := n.toNat % UInt32.size }))
  | "background.aspect" => do
    let index ← c.firstIndex
    let mode ← c.integer R 0 0 "Mode"
    if mode ≠ 0 ∧ mode ≠ 1 then
      Check.fail (.inCommand "structure.background.aspect" (.mustBe "Mode" .flag))
    pure (s.changeBackground index ({ · with keepsAspectRatio := mode = 1 }))
  | name =>
    match StructureKind.ofName? name with
    | none => c.unsupported
    | some kind => do
      let index ← c.firstIndex
      let object ← loadObject assets folders c
      pure (s.insert kind index object)

/-- Reads the arguments of a cycle as indices, leaving out the others with a message. -/
def readCycle (R : Type) [Scalar R] (c : Command) (what : String) :
    List (String × Nat) → Check (List Nat)
  | [] => pure []
  | (a, i) :: rest => do
    let index? := (Source.parseInt R a.toList).filter (0 ≤ ·)
    if index?.isNone then c.note (.invalid s!"{what}StructureIndex{i}")
    let more ← readCycle R c what rest
    pure (index?.toList.map Int.toNat ++ more)

/-- Applies a command of the namespace `cycle`: structures that alternate from block to block. -/
def updateCycle (R : Type) [Scalar R] (c : Command) (s : Structures) : Check Structures :=
  match c.name with
  | "ground" => do
    let index ← c.firstIndex
    let entries ← readCycle R c "Ground" c.arguments.zipIdx
    pure { s with groundCycles := s.groundCycles.insert index entries }
  | "rail" => do
    let index ← c.firstIndex
    let entries ← readCycle R c "Rail" c.arguments.zipIdx
    pure { s with railCycles := s.railCycles.insert index entries }
  | _ => c.unsupported

end Structures

end RailRoute
