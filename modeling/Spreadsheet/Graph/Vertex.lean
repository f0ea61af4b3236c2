import Spreadsheet.Dependencies

/-!
The vertices of a dependency graph. Every cell with a formula, every member of an array formula and
every cell that some formula reads by itself has a vertex.
-/

namespace Spreadsheet

/-- A place for a vertex in a graph. -/
abbrev Slot := Nat

/-- What is calculated at a vertex. -/
inductive Vertex.Content where
  /-- Nothing; the vertex takes its value from the cell. -/
  | value
  /-- The formula of one cell. -/
  | formula (e : Expression)
  /-- The formula of an array, which stands in the first cell of the area. -/
  | array (e : Expression) (area : Area)

/-- The cells that show the result of an array formula. -/
def Vertex.Content.members : Vertex.Content → List Position
  | .array _ a => a.members
  | _ => []

/-- A vertex of a dependency graph. -/
structure Vertex where
  /-- The cell. -/
  position : Position
  /-- What is calculated. -/
  content : Vertex.Content := .value
  /-- The vertices that this one reads. -/
  inputs : List Slot := []
  /-- The vertices that read this one. -/
  dependents : List Slot := []
  /-- What the formula reads. -/
  dependencies : Dependencies := {}
  /-- The result of the last calculation. -/
  result : Value := .undefined
  /-- Whether the result is out of date. -/
  dirty : Bool := false
  /-- Whether each pass calculates the vertex anew. -/
  volatile : Bool := false
  /-- Whether the vertex is on a cycle, if that has been found out. -/
  onCycle : Option Bool := none
  /-- How often the dependencies have been replaced in the current pass. -/
  rebuilds : Nat := 0

namespace Vertex

/-- The formula. -/
def expression? (v : Vertex) : Option Expression :=
  match v.content with
  | .value => none
  | .formula e => some e
  | .array e _ => some e

/-- The area of the array formula. -/
def area? (v : Vertex) : Option Area :=
  match v.content with
  | .array _ a => some a
  | _ => none

/-- The vertex with one more reader. -/
def addDependent (v : Vertex) (i : Slot) : Vertex := { v with dependents := v.dependents ++ [i] }

/-- The vertex with one more input. -/
def addInput (v : Vertex) (i : Slot) : Vertex := { v with inputs := v.inputs ++ [i] }

/-- The vertex without a reader. -/
def dropDependent (v : Vertex) (i : Slot) : Vertex :=
  { v with dependents := v.dependents.filter (· != i) }

/-- The vertex without an input. -/
def dropInput (v : Vertex) (i : Slot) : Vertex := { v with inputs := v.inputs.filter (· != i) }

end Vertex

end Spreadsheet
