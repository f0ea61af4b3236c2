import Spreadsheet.Evaluation
import Spreadsheet.Graph.Dirty
import Spreadsheet.Graph.Pass
import Spreadsheet.Simulation.Pack

/-!
Sheets. A sheet holds cells and the graph of what their formulas depend on. Edits mark what they touch,
and a pass calculates what has been marked and all that depends on it.
-/

namespace Spreadsheet

/-- How a sheet works. -/
structure Settings where
  /-- The decimal mark of formulas, which also decides how arguments are separated. -/
  decimal : DecimalMark := .period
  /-- The bounds of each pass. -/
  limits : Graph.Limits := {}
  /-- The seed of the random numbers. -/
  seed : UInt64 := 1
  /-- The name of the sheet; cells of other sheets cannot be read. -/
  name : String := "Sheet1"
deriving DecidableEq, Inhabited

/-- Why an operation on a sheet is refused. What goes wrong in a calculation is a value, not one of these. -/
inductive SheetError where
  /-- An array formula needs a bounded area. -/
  | unboundedArea (area : Area)
  /-- The cell belongs to an array formula and is not its first cell. -/
  | arrayMember (p : Position)
  /-- The operation would cut an array formula or lay one over another. -/
  | arrayOverlap (area : Area)
  /-- The formula is malformed. -/
  | parse (e : Formula.ParseError)
  /-- Simulations need a sheet without cycles. -/
  | circularReference (count : Nat)
  /-- Cells would be moved off the sheet. -/
  | outOfBounds (count : Nat)
  /-- There is no simulation. -/
  | simulationInactive
  /-- The samples are malformed. -/
  | pack (e : Simulation.PackError)

/-- The wording of an error. -/
def SheetError.message : SheetError → String
  | .unboundedArea a => "area " ++ a.label ++ " is unbounded"
  | .arrayMember p =>
    "cell " ++ p.label ++ " is part of an array; edit the whole array from its first cell"
  | .arrayOverlap a => "array area " ++ a.label ++ " overlaps an existing array"
  | .parse e => "formula does not parse: " ++ e.message
  | .circularReference n =>
    "simulation refused: " ++ Simulation.numeral n ++ " cells are on circular references"
  | .outOfBounds n =>
    "inserting " ++ Simulation.numeral n ++ " rows or columns pushes cells past the edge of the sheet"
  | .simulationInactive => "no simulation is running"
  | .pack e => e.message

/-- What the cells of a sheet are calculated with. -/
structure Environment where
  /-- How the sheet works. -/
  settings : Settings := {}
  /-- The functions. -/
  library : Library
  /-- The present time. -/
  clock : Clock
  /-- The named areas, by their names in upper case. -/
  names : Std.TreeMap String Area := ∅

/-- What calculations change. -/
structure Contents where
  /-- The cells. -/
  store : Store := {}
  /-- The random numbers and the samples. -/
  model : Simulation.Model

/-- A sheet. -/
structure Sheet extends Environment, Contents where
  /-- What depends on what. -/
  graph : Graph := {}

namespace Environment

/-- The locale of formulas. -/
def locale (env : Environment) : Locale := .ofDecimal env.settings.decimal

/-- What the formula of a cell depends on. -/
def scope (env : Environment) (store : Store) (p : Position) : Scope :=
  { store
    library := env.library
    names := env.names
    sheet := env.settings.name
    locale := env.locale
    clock := env.clock
    position := p }

/-- Reads a formula. -/
def parse (env : Environment) (text : String) : Except SheetError Expression :=
  match (Formula.parse env.locale text).toExcept with
  | .ok e => .ok e
  | .error e => .error (.parse e)

/-- What an expression reads as it is written. -/
def dependencies (env : Environment) (e : Expression) : Dependencies :=
  .ofExpression env.names env.settings.name e

end Environment

namespace Sheet

/-- The empty sheet. -/
def empty (settings : Settings) (library : Library) (clock : Clock) : Sheet :=
  { settings, library, clock, model := .ofSeed settings.seed }

/-- What a reference to a cell reads. -/
def read (s : Sheet) (p : Position) : Value := s.store.read p

/-- The area of the array formula that a cell belongs to. -/
def arrayAt? (s : Sheet) (p : Position) : Option Area := (s.store.cell? p).bind Cell.area

/-- Calculates a formula as if it stood in a cell, without entering it. -/
def evaluate (s : Sheet) (text : String) (p : Position) : Except SheetError (Value × Sheet) := do
  let e ← s.parse text
  let r := e.calculate (s.scope s.store p) s.model
  return (r.value, { s with model := r.model })

end Sheet

end Spreadsheet
