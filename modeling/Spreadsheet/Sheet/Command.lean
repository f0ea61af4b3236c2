import Spreadsheet.Sheet.Simulation
import Spreadsheet.Sheet.Structure

/-!
Commands. A command works on a sheet step by step: each step reads the sheet, changes it for good, or refuses to
go on. What has been changed before a refusal stays changed; whether anything has been is a question about the
order of the steps.
-/

namespace Spreadsheet

/-- Why a command is refused. -/
inductive Refusal where
  /-- The operation is refused. -/
  | sheet (e : SheetError)
  /-- An area cannot be walked cell by cell. -/
  | address (e : AddressError)

/-- The wording of a refusal. -/
def Refusal.message : Refusal → String
  | .sheet e => e.message
  | .address e => e.message

/-- Steps on a sheet that give a value or are refused. -/
abbrev Command (α : Type) := ExceptT Refusal (StateM Sheet) α

namespace Command

/-- Carries out a command. -/
def on {α : Type} (c : Command α) (s : Sheet) : Except Refusal α × Sheet :=
  (ExceptT.run c).run s

/-- Refuses to go on. -/
def refuse {α : Type} (e : SheetError) : Command α := throw (.sheet e)

/-- Goes on with what can be had without changing the sheet, unless that is an error. -/
def demand {α : Type} : Except SheetError α → Command α
  | .ok a => pure a
  | .error e => refuse e

/-- Changes the cells. -/
def changeStore (f : Store → Store) : Command Unit := modify fun s => { s with store := f s.store }

/-- Changes the graph. -/
def changeGraph (f : Graph → Graph) : Command Unit := modify fun s => { s with graph := f s.graph }

/-- Changes the random numbers and the samples. -/
def changeModel (f : Simulation.Model → Simulation.Model) : Command Unit :=
  modify fun s => { s with model := f s.model }

/-- Changes the graph and gives something that the change has found. -/
def askGraph {α : Type} (f : Graph → α × Graph) : Command α :=
  modifyGet fun s => ((f s.graph).1, { s with graph := (f s.graph).2 })

/-! ### Edits -/

/-- The cells of an area. -/
def cellsOf (a : Area) : Command (List Position) :=
  match a.cells with
  | .ok ps => pure ps
  | .error e => throw (.address e)

/-- Reads a formula. -/
def parse (text : String) : Command Expression := do
  demand ((← get).parse text)

/-- Empties a cell that belongs to no array formula any more. -/
def erase (p : Position) : Command Unit := do
  changeStore (·.clear p)
  changeGraph (·.demote p)
  changeGraph (·.setDirty p)

/-- Removes an array formula. -/
def eraseArray (a : Area) : Command Unit := a.members.forM erase

/-- Makes way for an edit of a cell: an array formula that starts there is removed. -/
def detach (p : Position) : Command Unit := do
  match (← get).arrayAt? p with
  | none => pure ()
  | some a => if a.topLeft? = some p then eraseArray a else refuse (.arrayMember p)

/-- The members of an array formula; a cell that is calculated by itself has none. -/
def membersOf (content : Vertex.Content) : Command (List Position) :=
  match content with
  | .array _ a => cellsOf a
  | _ => pure []

/-- Puts a formula into the graph. The vertex has the formula before the members of its array are looked up. -/
def install (p : Position) (content : Vertex.Content) (e : Expression) : Command Unit := do
  let d := (← get).dependencies e
  let i ← askGraph (·.ensure p)
  changeGraph (·.modify i fun v => { v with content, volatile := false })
  let members ← membersOf content
  let js ← askGraph (·.connectMembers i (members.filter (· != p)))
  changeGraph (·.rewire i d)
  js.forM fun j => changeGraph (·.markFrom j)

/-- Enters a value. -/
def setValue (p : Position) (v : Value) : Command Unit := do
  detach p
  changeStore (·.setValue p v)
  changeGraph (·.demote p)
  changeGraph (·.setDirty p)

/-- Enters a formula. -/
def setFormula (p : Position) (text : String) : Command Unit := do
  let e ← parse text
  detach p
  changeStore (·.setFormula p text)
  install p (.formula e) e

/-- Empties a cell, and a whole array formula with its first cell. -/
def clear (p : Position) : Command Unit := do
  match (← get).arrayAt? p with
  | none => erase p
  | some a => if a.topLeft? = some p then eraseArray a else refuse (.arrayMember p)

/-- Enters what is typed: with `=` in front a formula, nothing to empty the cell, or else a value. -/
def setInput (p : Position) (text : String) : Command Unit :=
  match Text.trimChars text.toList with
  | [] => clear p
  | c :: cs =>
    let trimmed := String.ofList (c :: cs)
    if c = '=' then setFormula p trimmed else setValue p (Sheet.typedValue text trimmed)

/-- Looks at a cell that an array formula is to take; `replaces` tells whether the formula has been met before.
Any other array formula is in the way. -/
def inspect (a : Area) (replaces : Bool) (p : Position) : Command Bool := do
  match (← get).arrayAt? p with
  | none => pure replaces
  | some b => if b = a then pure true else refuse (.arrayOverlap a)

/-- Makes a cell a member of an array formula. -/
def enlist (a : Area) (p : Position) : Command Unit := do
  changeGraph (·.demote p)
  changeStore (·.update p fun c => { c.reset with area := some a })

/-- Enters one formula for a whole area. Its text goes into the first cell. -/
def setArray (a : Area) (text : String) : Command Unit :=
  match a.isBounded, a.topLeft? with
  | true, some head => do
    let e ← parse text
    let members ← cellsOf a
    let replaces ← members.foldlM (inspect a) false
    if replaces then eraseArray a
    members.forM (enlist a)
    changeStore (·.setFormula head text)
    install head (.array e a) e
  | _, _ => refuse (.unboundedArea a)

/-! ### Rows and columns -/

/-- Puts moved cells and the areas of array formulas into place and builds the graph anew. -/
def move (x : Axis) (start : Nat) (store : Store → Store) (f : Nat → Nat) : Command Unit := do
  changeStore store
  changeStore (·.mapCells fun c => { c with area := c.area.map (x.moveArea start f) })
  modify Sheet.rebuild

/-- Refuses to cut an array formula. -/
def spareArrays (cuts : Area → Bool) : Command Unit := do
  match (← get).findArray? cuts with
  | some a => refuse (.arrayOverlap a)
  | none => pure ()

/-- Refuses to move cells off the sheet. -/
def spareCells (x : Axis) (start count : Nat) : Command Unit := do
  let used := x.extent (← get).store
  if start < used && x.last < used - 1 + count then refuse (.outOfBounds count)

/-- Inserts rows or columns. -/
def insert (x : Axis) (start count : Nat) : Command Unit :=
  if count = 0 then pure ()
  else do
    spareArrays (x.insertCuts start)
    spareCells x start count
    move x start (x.insert · start count) (· + count)

/-- Deletes rows or columns. -/
def delete (x : Axis) (start count : Nat) : Command Unit :=
  if count = 0 then pure ()
  else do
    spareArrays (x.deleteCuts start count)
    move x start (x.delete · start count) (· - count)

/-! ### Calculations and simulations -/

/-- Calculates a formula as if it stood in a cell, without entering it. -/
def evaluate (text : String) (p : Position) : Command Value := do
  let e ← parse text
  let s ← get
  let r := e.calculate (s.scope s.store p) s.model
  changeModel fun _ => r.model
  return r.value

/-- Records the value of a registered cell in the current trial. -/
def record (iteration : Nat) (p : Position) : Command Unit := do
  let v := (← get).read p
  changeModel (·.record p iteration v)

/-- Runs one trial. -/
def runTrial : Command Graph.Tally := do
  if (← get).model.phase ≠ .running then refuse .simulationInactive
  let tally ← modifyGet Sheet.recalculate
  let model := (← get).model
  model.watched.forM (record model.iteration)
  changeModel fun m => { m with iteration := m.iteration + 1 }
  return tally

/-- Ends a simulation and gives its samples. -/
def endSimulation : Command (List Float) := do
  if !(← get).model.isActive then refuse .simulationInactive
  changeModel fun m => { m with phase := .idle }
  let samples := Simulation.Samples.pack (← get).model.samples
  changeGraph (·.markFormulas)
  return samples

/-- Takes over samples from elsewhere. -/
def loadSamples (data : List Float) : Command Unit := do
  let samples ← demand ((Simulation.Samples.unpack data).mapError .pack)
  changeModel (·.setSamples samples)
  changeGraph (·.markFormulas)

end Command

/-- An operation on a sheet that can be refused, with what it is given. -/
inductive Operation where
  | setValue (p : Position) (v : Value)
  | setFormula (p : Position) (text : String)
  | setInput (p : Position) (text : String)
  | setArray (a : Area) (text : String)
  | clear (p : Position)
  | insert (x : Axis) (start count : Nat)
  | delete (x : Axis) (start count : Nat)
  | evaluate (text : String) (p : Position)
  | runTrial
  | endSimulation
  | loadSamples (data : List Float)

/-- What an operation gives. -/
inductive Reply where
  | done
  | value (v : Value)
  | tally (t : Graph.Tally)
  | samples (xs : List Float)

/-- The command of an operation. -/
def Operation.perform : Operation → Command Reply
  | .setValue p v => do Command.setValue p v; return .done
  | .setFormula p text => do Command.setFormula p text; return .done
  | .setInput p text => do Command.setInput p text; return .done
  | .setArray a text => do Command.setArray a text; return .done
  | .clear p => do Command.clear p; return .done
  | .insert x start count => do Command.insert x start count; return .done
  | .delete x start count => do Command.delete x start count; return .done
  | .evaluate text p => .value <$> Command.evaluate text p
  | .runTrial => .tally <$> Command.runTrial
  | .endSimulation => .samples <$> Command.endSimulation
  | .loadSamples data => do Command.loadSamples data; return .done

end Spreadsheet
