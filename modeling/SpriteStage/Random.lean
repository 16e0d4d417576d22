/-!
# Seeded random numbers

A generator is a key and the number of draws made so far: the draw of index `n` is a function of the
key and `n` alone. The words come from the stream cipher ChaCha with twelve rounds, each draw taking
two of the sixteen words of a block, and the key is stretched from a seed of sixty-four bits by a
permuted congruential generator.
-/

namespace SpriteStage.Random

/-! ## The stream of words -/

def rotateLeft (x : UInt32) (k : UInt32) : UInt32 := (x <<< k) ||| (x >>> (32 - k))

def rotateRight (x : UInt32) (k : UInt32) : UInt32 := (x >>> k) ||| (x <<< ((32 - k) % 32))

abbrev State := Vector UInt32 16

def quarterRound (s : State) (a b c d : Fin 16) : State :=
  let s := s.set a (s[a] + s[b])
  let s := s.set d (rotateLeft (s[d] ^^^ s[a]) 16)
  let s := s.set c (s[c] + s[d])
  let s := s.set b (rotateLeft (s[b] ^^^ s[c]) 12)
  let s := s.set a (s[a] + s[b])
  let s := s.set d (rotateLeft (s[d] ^^^ s[a]) 8)
  let s := s.set c (s[c] + s[d])
  s.set b (rotateLeft (s[b] ^^^ s[c]) 7)

/-- A round of the columns and a round of the diagonals. -/
def doubleRound (s : State) : State :=
  let s := quarterRound s 0 4 8 12
  let s := quarterRound s 1 5 9 13
  let s := quarterRound s 2 6 10 14
  let s := quarterRound s 3 7 11 15
  let s := quarterRound s 0 5 10 15
  let s := quarterRound s 1 6 11 12
  let s := quarterRound s 2 7 8 13
  quarterRound s 3 4 9 14

def doubleRounds : Nat → State → State
  | 0, s => s
  | n + 1, s => doubleRounds n (doubleRound s)

abbrev Key := Vector UInt32 8

/-- The state of a block before it is mixed: four constants, the key, the number of the block in two
words, and two words of zero. -/
def firstState (k : Key) (block : Nat) : State :=
  #v[0x61707865, 0x3320646e, 0x79622d32, 0x6b206574,
     k[0], k[1], k[2], k[3], k[4], k[5], k[6], k[7],
     UInt32.ofNat block, UInt32.ofNat (block / Nat.pow 2 32), 0, 0]

def blockWords (k : Key) (block : Nat) : State :=
  let s := firstState k block
  Vector.zipWith (· + ·) (doubleRounds 6 s) s

/-- The draw of sixty-four bits at an index: the two words of its place in its block, low word
first. -/
def draw (k : Key) (index : Nat) : UInt64 :=
  let words := blockWords k (index / 8)
  let low := words.get ⟨2 * (index % 8), by omega⟩
  let high := words.get ⟨2 * (index % 8) + 1, by omega⟩
  low.toUInt64 ||| (high.toUInt64 <<< 32)

/-! ## The key of a seed -/

/-- The next state of the generator that stretches a seed. -/
def stretch (s : UInt64) : UInt64 := s * 6364136223846793005 + 11634580027462260723

def stretchedWord (s : UInt64) : UInt32 :=
  rotateRight (((s >>> 18) ^^^ s) >>> 27).toUInt32 (s >>> 59).toUInt32

def keyOfSeed (seed : UInt64) : Key :=
  let s0 := stretch seed
  let s1 := stretch s0
  let s2 := stretch s1
  let s3 := stretch s2
  let s4 := stretch s3
  let s5 := stretch s4
  let s6 := stretch s5
  let s7 := stretch s6
  #v[stretchedWord s0, stretchedWord s1, stretchedWord s2, stretchedWord s3,
     stretchedWord s4, stretchedWord s5, stretchedWord s6, stretchedWord s7]

/-! ## Draws -/

/-- The number from zero up to one that fifty-two of the drawn bits make. -/
def fraction (u : UInt64) : Float :=
  Float.ofBits ((u >>> 12) ||| 0x3FF0000000000000) - 1.0

end SpriteStage.Random

namespace SpriteStage

/-- A seeded generator: its key, and how many draws were made. -/
structure Generator where
  key : Random.Key
  drawn : Nat

namespace Generator

def ofSeed (seed : Nat) : Generator := ⟨Random.keyOfSeed (UInt64.ofNat seed), 0⟩

/-- A number from zero up to the limit. A limit that is not positive gives zero and draws nothing. -/
def below (g : Generator) (limit : Float) : Float × Generator :=
  if limit > 0.0 then (Random.fraction (Random.draw g.key g.drawn) * limit, { g with drawn := g.drawn + 1 })
  else (0.0, g)

end Generator

end SpriteStage
