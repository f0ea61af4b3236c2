import Spreadsheet.Value
import Spreadsheet.Simulation.Generator

/-!
Simulations. A preparing pass registers the cells whose values are sampled; then one pass for each trial
records them; outside simulations the recorded samples can be read.
-/

namespace Spreadsheet.Simulation

/-- The phases of a simulation. -/
inductive Phase where
  /-- No simulation is going on. -/
  | idle
  /-- The pass that registers cells. -/
  | preparing
  /-- The passes that record values. -/
  | running
deriving DecidableEq, Inhabited

/-- The samples of each registered cell. -/
abbrev Samples := Std.TreeMap Position (Array Float)

/-- A generator of random numbers and the samples of a simulation. -/
structure Model where
  /-- The phase. -/
  phase : Phase := .idle
  /-- The number of the current trial. -/
  iteration : Nat := 0
  /-- How many trials are planned. -/
  iterations : Nat := 0
  /-- The seed of the generator. -/
  seed : UInt64
  /-- The generator. -/
  generator : Generator
  /-- The samples. -/
  samples : Samples := ∅

namespace Model

/-- A model with the given seed. -/
def ofSeed (seed : UInt64) : Model := { seed, generator := .ofSeed seed }

instance : Inhabited Model := ⟨.ofSeed 0⟩

/-- Starts the generator anew. -/
def reseed (m : Model) (seed : UInt64) : Model := { m with seed, generator := .ofSeed seed }

/-- The next random number from 0 up to 1, which is excluded. -/
def random (m : Model) : Float × Model :=
  let (x, generator) := m.generator.uniform
  (x, { m with generator })

/-- Whether a simulation is going on. -/
def isActive (m : Model) : Bool := m.phase != .idle

/-- Drops all samples and plans a number of trials. -/
def start (m : Model) (iterations : Nat) : Model :=
  { m with iterations, iteration := 0, samples := ∅ }

/-- Registers a cell; its samples are zero until they are recorded. -/
def register (m : Model) (p : Position) : Model :=
  if m.samples.contains p then m
  else { m with samples := m.samples.insert p (Array.replicate m.iterations 0) }

/-- The sample that a value gives: numbers stay, truth values become 0 and 1, all else 0. -/
def sampleOf (v : Value) : Float :=
  match v.scalar with
  | .number x => x
  | .boolean b => if b then 1 else 0
  | _ => 0

/-- Samples with one of them set; the list is filled up with zeros as far as that takes. -/
def setSample (samples : Array Float) (iteration : Nat) (x : Float) : Array Float :=
  (samples ++ Array.replicate (iteration + 1 - samples.size) 0).setIfInBounds iteration x

/-- Records the value of a registered cell in one trial. -/
def record (m : Model) (p : Position) (iteration : Nat) (v : Value) : Model :=
  match m.samples[p]? with
  | some xs => { m with samples := m.samples.insert p (setSample xs iteration (sampleOf v)) }
  | none => m

/-- The registered cells. -/
def watched (m : Model) : List Position := m.samples.keys

/-- Takes over samples from elsewhere. -/
def setSamples (m : Model) (samples : Samples) : Model :=
  { m with samples, iterations := (samples.values.map Array.size).foldl max 0 }

/-- The samples of a cell as a column. -/
def collected (m : Model) (p : Position) : Value :=
  match m.samples[p]? with
  | some xs => .array [xs.toList.map .number]
  | none => .undefined

end Model

end Spreadsheet.Simulation
