import RailRoute.Block.Basic

/-!
# The line

A line is a row of blocks with the stations, sections and other things that are numbered along it.
Blocks are added when a position is reached, so the row always ends with the farthest block that a
position has led to.
-/

namespace RailRoute

/-- The blocks of a route and everything that is numbered along them. -/
structure Line (R : Type) where
  blocks : Array (Block R)
  /-- The length of a block. -/
  interval : R
  /-- The block of the first position that was given. -/
  firstUsedBlock : Option Nat
  stations : Array (Station R)
  requestStops : Array (RequestStop R)
  sections : Array (Section R)
  markers : Array (Marker R)
  pointsOfInterest : Array (PointOfInterest R)
  /-- The positions of buffer stops. -/
  buffers : Array R

namespace Line

variable {R : Type} [Scalar R]

/-- The section that every line begins with. -/
def firstSection : Section R := ⟨0, [0, 4], .indexBased, none, false⟩

/-- A line of one block. -/
def initial (interval height : R) : Line R :=
  ⟨#[Block.initial height], interval, none, #[], #[], #[firstSection], #[], #[], #[]⟩

/-- The block of a position. Positions a thousandth of a block before the next one count as its. -/
def blockIndex (l : Line R) (position : R) : Nat :=
  Scalar.floorNat (position / l.interval + Scalar.fixed 1 3)

/-- The position at which a block starts. -/
def blockStart (l : Line R) (index : Nat) : R := Scalar.ofNat index * l.interval

/-- The block that comes behind all others. -/
def nextBlock (blocks : Array (Block R)) : Block R :=
  match blocks.back? with
  | some last => last.inherit
  | none => Block.initial 0

/-- Adds a number of blocks, each behind the one before. -/
def appendBlocks : Nat → Array (Block R) → Array (Block R)
  | 0, blocks => blocks
  | n + 1, blocks => appendBlocks n (blocks.push (nextBlock blocks))

/-- The line with its blocks up to a given one. -/
def reach (l : Line R) (index : Nat) : Line R :=
  { l with blocks := appendBlocks (index + 1 - l.blocks.size) l.blocks }

/-- The line with one block changed. -/
def modifyBlock (l : Line R) (index : Nat) (f : Block R → Block R) : Line R :=
  { l with blocks := l.blocks.modify index f }

end Line

end RailRoute
