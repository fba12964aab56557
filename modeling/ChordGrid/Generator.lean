import ChordGrid.Tonality.Pitch

/-!
# The generator of random steps

A generator of 64-bit words with 256 bits of state, xoshiro256++, filled from a seed by SplitMix64.
Draws from a range reject the few words that would favour some results.
-/

namespace ChordGrid

structure Generator where
  s0 : UInt64
  s1 : UInt64
  s2 : UInt64
  s3 : UInt64
  deriving DecidableEq, Repr

/-- Why a draw gives no number: the range is empty, or every word to come is rejected. -/
inductive DrawFault where
  | emptyRange
  | endless
  deriving DecidableEq, Repr

namespace Generator

def rotateLeft (word bits : UInt64) : UInt64 :=
  (word <<< bits) ||| (word >>> (64 - bits))

/-- The odd step by which SplitMix64 moves its counter. -/
def goldenStep : UInt64 := 0x9e3779b97f4a7c15

def scramble (counter : UInt64) : UInt64 :=
  let z := (counter ^^^ (counter >>> 30)) * 0xbf58476d1ce4e5b9
  let z := (z ^^^ (z >>> 27)) * 0x94d049bb133111eb
  z ^^^ (z >>> 31)

/-- The generator of a seed: the first four SplitMix64 words. -/
def ofSeed (seed : UInt64) : Generator :=
  { s0 := scramble (seed + goldenStep)
    s1 := scramble (seed + 2 * goldenStep)
    s2 := scramble (seed + 3 * goldenStep)
    s3 := scramble (seed + 4 * goldenStep) }

def word (g : Generator) : UInt64 :=
  rotateLeft (g.s0 + g.s3) 23 + g.s0

def advance (g : Generator) : Generator :=
  let s2 := g.s2 ^^^ g.s0
  let s3 := g.s3 ^^^ g.s1
  { s0 := g.s0 ^^^ s3
    s1 := g.s1 ^^^ s2
    s2 := s2 ^^^ (g.s1 <<< 17)
    s3 := rotateLeft s3 45 }

/-- The number below `bound` that a word stands for: the high half of their product. -/
def scaled (bound word : UInt64) : UInt64 :=
  UInt64.ofNat (word.toNat * bound.toNat / 0x10000000000000000)

def threshold (bound : UInt64) : UInt64 :=
  (0 - bound) % bound

/-- Whether a word counts: the low half of its product with the bound is not below the
threshold. -/
def accepts (bound word : UInt64) : Bool :=
  threshold bound ≤ word * bound

/-- The first accepted word among so many, scaled, and the state after it. -/
def firstAccepted (bound : UInt64) : Nat → Generator → Option (UInt64 × Generator)
  | 0, _ => none
  | tries + 1, g =>
    if accepts bound g.word then some (scaled bound g.word, g.advance)
    else firstAccepted bound tries g.advance

/-- The number of states. A generator that rejects this many words in a row rejects all that
follow, because its states have come round again. -/
def stateCount : Nat := Nat.pow 2 256

def below (bound : UInt64) (g : Generator) : Except DrawFault (UInt64 × Generator) :=
  if bound = 0 then .error .emptyRange
  else match firstAccepted bound stateCount g with
    | some drawn => .ok drawn
    | none => .error .endless

def step? (g : Generator) : Option (Step × Generator) :=
  (firstAccepted 7 stateCount g).map fun drawn =>
    (⟨drawn.1.toNat % 7, Nat.mod_lt _ (by decide)⟩, drawn.2)

end Generator

end ChordGrid
