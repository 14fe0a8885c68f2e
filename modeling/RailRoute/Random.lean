/-!
# Random numbers

Directives that choose at random draw from one stream of words. The stream is the key stream of the
cipher ChaCha with eight rounds, under a key that is stretched from a seed of 64 bits, so the same
seed always gives the same route. A generator is the key together with the number of words already
drawn; the word at each place of the stream is a function of these two alone.
-/

namespace RailRoute

/-- A place in the stream of random words of a key. -/
structure Generator where
  key : Vector UInt32 8
  position : Nat
  deriving DecidableEq

namespace Generator

/-! ## The key -/

/-- Rotates a word to the right. -/
def rotateRight (x n : UInt32) : UInt32 := (x >>> n) ||| (x <<< (32 - n))

/-- The step of the linear congruential generator that stretches a seed. -/
def stretchStep (state : UInt64) : UInt64 := state * 6364136223846793005 + 11634580027462260723

/-- The word read off a state of the stretching generator. -/
def stretchWord (state : UInt64) : UInt32 :=
  rotateRight (((state >>> 18) ^^^ state) >>> 27).toUInt32 (state >>> 59).toUInt32

/-- The state of the stretching generator after `n` steps. -/
def stretch (seed : UInt64) : Nat → UInt64
  | 0 => seed
  | n + 1 => stretchStep (stretch seed n)

/-- The generator of a seed, at the beginning of its stream. -/
def ofSeed (seed : UInt64) : Generator :=
  ⟨Vector.ofFn fun i => stretchWord (stretch seed (i.val + 1)), 0⟩

/-! ## The stream -/

/-- The sixteen words a block is mixed in. -/
abbrev State := Vector UInt32 16

/-- Rotates a word to the left. -/
def rotateLeft (x n : UInt32) : UInt32 := (x <<< n) ||| (x >>> (32 - n))

/-- Mixes four words of the state. -/
def quarterRound (s : State) (a b c d : Fin 16) : State :=
  let s := s.set a (s[a] + s[b])
  let s := s.set d (rotateLeft (s[d] ^^^ s[a]) 16)
  let s := s.set c (s[c] + s[d])
  let s := s.set b (rotateLeft (s[b] ^^^ s[c]) 12)
  let s := s.set a (s[a] + s[b])
  let s := s.set d (rotateLeft (s[d] ^^^ s[a]) 8)
  let s := s.set c (s[c] + s[d])
  s.set b (rotateLeft (s[b] ^^^ s[c]) 7)

/-- Mixes the columns of the state and then its diagonals. -/
def doubleRound (s : State) : State :=
  let s := quarterRound s 0 4 8 12
  let s := quarterRound s 1 5 9 13
  let s := quarterRound s 2 6 10 14
  let s := quarterRound s 3 7 11 15
  let s := quarterRound s 0 5 10 15
  let s := quarterRound s 1 6 11 12
  let s := quarterRound s 2 7 8 13
  quarterRound s 3 4 9 14

/-- The state a block starts from: four constants, the key, and the number of the block. -/
def blockStart (key : Vector UInt32 8) (block : Nat) : State :=
  #v[0x61707865, 0x3320646e, 0x79622d32, 0x6b206574,
    key[0], key[1], key[2], key[3], key[4], key[5], key[6], key[7],
    UInt32.ofNat block, UInt32.ofNat (block / UInt32.size), 0, 0]

/-- The words of a block of the stream. -/
def block (key : Vector UInt32 8) (number : Nat) : State :=
  let start := blockStart key number
  let mixed := doubleRound (doubleRound (doubleRound (doubleRound start)))
  Vector.zipWith (· + ·) start mixed

/-- The word at a place of the stream. -/
def wordAt (key : Vector UInt32 8) (place : Nat) : UInt32 :=
  (block key (place / 16)).get ⟨place % 16, Nat.mod_lt _ (by decide)⟩

/-! ## Draws -/

/-- Draws 64 bits: two words, the low one first. -/
def next (g : Generator) : Nat × Generator :=
  ((wordAt g.key g.position).toNat + (wordAt g.key (g.position + 1)).toNat * UInt32.size,
    { g with position := g.position + 2 })

/-- How often a draw that has to be rejected is repeated at most. -/
def attempts : Nat := 256

/-- Draws from the numbers below `range`. A draw `v` of 64 bits gives the upper half of
`v * range`, and is rejected if the lower half lies beyond `zone`, which keeps the numbers equally
likely. -/
def below (range zone : Nat) : Nat → Generator → Nat × Generator
  | 0, g => (0, g)
  | fuel + 1, g =>
    let draw := g.next
    let product := draw.1 * range
    if product % UInt64.size ≤ zone then (product / UInt64.size, draw.2)
    else below range zone fuel draw.2

/-- Draws an integer from `low` to `high`, both included, in 64-bit arithmetic. -/
def integer (low high : Int) (g : Generator) : Int × Generator :=
  let range := ((high - low + 1) % UInt64.size).toNat
  if range = 0 then
    let draw := g.next
    ((draw.1 : Int).bmod UInt64.size, draw.2)
  else
    let zone := range * Nat.pow 2 (63 - range.log2) - 1
    let draw := below range zone attempts g
    ((low + draw.1).bmod UInt64.size, draw.2)

/-- How many fractions of one can be drawn: `2 ^ 52`. -/
def fractionCount : Nat := 0x10000000000000

/-- Draws a fraction of one by its numerator, which is below `fractionCount`. -/
def fraction (g : Generator) : Nat × Generator :=
  (g.next.1 / 4096, g.next.2)

end Generator

end RailRoute
