import Spreadsheet.Function.Arguments

/-!
Random numbers and the samples of simulations. Every random number comes from the generator of the
simulation, so a seed fixes them all.
-/

namespace Spreadsheet.Function

/-- A number drawn uniformly between two bounds in either order. -/
def between (x y : Float) : Action Value := do
  let low := if y < x then y else x
  let high := if y < x then x else y
  let u ← Action.random
  return .number (low + u * (high - low))

/-- The bounds of a uniform distribution. -/
def boundParameters : List Parameter :=
  [{ name := "min", default := some (.number 0) }, { name := "max", default := some (.number 1) }]

/-- Random numbers and samples. -/
def randomNumbers : List Function :=
  [{ name := "RAND", description := "Returns a random number between 0 and 1", volatile := true,
      apply := fun _ _ => return .number (← Action.random) },
    { name := "RANDBETWEEN", description := "Returns a random number between the given bounds",
      parameters := boundParameters, volatile := true,
      apply := fun _ vs => ofTwoNumbersM between vs },
    { name := "UNIFORM",
      description := "Returns a sample from the uniform distribution on each simulation trial",
      parameters := boundParameters, volatileInSimulation := true,
      apply := fun _ vs => ofTwoNumbersM between vs },
    plain "SIMULATIONDATA" [{ name := "reference", passing := .samples }] (fun vs => argument vs 0)
      "Returns the samples recorded for a cell in the last simulation"]

end Spreadsheet.Function
