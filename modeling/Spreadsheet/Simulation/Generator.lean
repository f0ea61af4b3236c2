/-!
Random numbers. The generator is xoshiro256++: four words of state, one word of output for each step. A
seed is spread over the state by a linear congruential generator with permuted output.
-/

namespace Spreadsheet.Simulation

/-- The state of a generator. -/
structure Generator where
  s₀ : UInt64
  s₁ : UInt64
  s₂ : UInt64
  s₃ : UInt64
deriving DecidableEq, Inhabited

namespace Generator

/-- A word rotated to the left. -/
def rotateLeft (x n : UInt64) : UInt64 := (x <<< n) ||| (x >>> (64 - n))

/-- A half word rotated to the right by less than its length. -/
def rotateRight32 (x n : UInt32) : UInt32 :=
  if n == 0 then x else (x >>> n) ||| (x <<< (32 - n))

/-- The next state of the generator that spreads a seed. -/
def spread (state : UInt64) : UInt64 := state * 6364136223846793005 + 11634580027462260723

/-- The half word that a state of the spreading generator gives. -/
def spreadOutput (state : UInt64) : UInt64 :=
  (rotateRight32 (((state >>> 18) ^^^ state) >>> 27).toUInt32 (state >>> 59).toUInt32).toUInt64

/-- The generator of a seed. -/
def ofSeed (seed : UInt64) : Generator :=
  let t₀ := spread seed
  let t₁ := spread t₀
  let t₂ := spread t₁
  let t₃ := spread t₂
  let t₄ := spread t₃
  let t₅ := spread t₄
  let t₆ := spread t₅
  let t₇ := spread t₆
  let word (low high : UInt64) := spreadOutput low ||| (spreadOutput high <<< 32)
  ⟨word t₀ t₁, word t₂ t₃, word t₄ t₅, word t₆ t₇⟩

/-- The next word and the state after it. -/
def next (g : Generator) : UInt64 × Generator :=
  let result := rotateLeft (g.s₀ + g.s₃) 23 + g.s₀
  let t := g.s₁ <<< 17
  let s₂ := g.s₂ ^^^ g.s₀
  let s₃ := g.s₃ ^^^ g.s₁
  let s₁ := g.s₁ ^^^ s₂
  let s₀ := g.s₀ ^^^ s₃
  (result, ⟨s₀, s₁, s₂ ^^^ t, rotateLeft s₃ 45⟩)

/-- The next number from 0 up to 1, which is excluded. -/
def uniform (g : Generator) : Float × Generator :=
  let (word, g) := g.next
  ((word >>> 11).toFloat * Float.ofBits 0x3CA0000000000000, g)

end Generator

end Spreadsheet.Simulation
