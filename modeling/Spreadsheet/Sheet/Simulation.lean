import Spreadsheet.Sheet.Recalculate

/-!
Simulations on a sheet. A preparing pass over all formulas registers the cells to be sampled; each trial
is a pass after which their values are recorded.
-/

namespace Spreadsheet.Sheet

/-- Begins a simulation, which a sheet with cycles refuses after the preparing pass. -/
def startSimulation (s : Sheet) (iterations : Nat) : Except SheetError Graph.Tally × Sheet :=
  let model := (s.model.start iterations).reseed s.settings.seed
  let (tally, s) :=
    { s with
      model := { model with phase := .preparing }
      graph := s.graph.markFormulas }.recalculate
  let cycles := s.graph.cycleMembers.length
  if cycles = 0 then (.ok tally, { s with model := { s.model with phase := .running } })
  else (.error (.circularReference cycles), { s with model := { s.model with phase := .idle } })

/-- Runs one trial. -/
def runTrial (s : Sheet) : Except SheetError (Graph.Tally × Sheet) :=
  if s.model.phase = .running then
    let (tally, s) := s.recalculate
    let model :=
      s.model.watched.foldl (fun m p => m.record p s.model.iteration (s.read p)) s.model
    .ok (tally, { s with model := { model with iteration := s.model.iteration + 1 } })
  else .error .simulationInactive

/-- Ends a simulation and gives its samples. Formulas are marked, since they can now read the samples. -/
def endSimulation (s : Sheet) : Except SheetError (List Float × Sheet) :=
  if s.model.isActive then
    .ok (Simulation.Samples.pack s.model.samples,
      { s with
        model := { s.model with phase := .idle }
        graph := s.graph.markFormulas })
  else .error .simulationInactive

/-- Takes over samples from elsewhere. -/
def loadSamples (s : Sheet) (data : List Float) : Except SheetError Sheet :=
  match Simulation.Samples.unpack data with
  | .ok samples =>
    .ok { s with
      model := s.model.setSamples samples
      graph := s.graph.markFormulas }
  | .error e => .error (.pack e)

end Spreadsheet.Sheet
