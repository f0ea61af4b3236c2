import Spreadsheet.Expression

/-!
What formulas read. A formula depends on single cells and on larger areas; the references that it
mentions give its dependencies, and those that it makes up while it is calculated are added.
-/

namespace Spreadsheet

/-- The cells and the areas that a formula reads. -/
structure Dependencies where
  /-- The single cells, each once. -/
  cells : List Position := []
  /-- The areas that are not just one cell, each once. -/
  areas : List Area := []
deriving DecidableEq, Inhabited

namespace Dependencies

/-- Whether nothing is read. -/
def isEmpty (d : Dependencies) : Bool := d.cells.isEmpty && d.areas.isEmpty

/-- Whether all cells of an area lie within another; an area with an infinite axis only lies within
itself. -/
def within (outer a : Area) : Bool :=
  match a.first.position?, a.last.position? with
  | some p, some q => outer.contains p && outer.contains q
  | _, _ => outer.first.samePlace a.first && outer.last.samePlace a.last

/-- Whether an area is among what is read: as one of the cells, or within one of the areas. -/
def covers (d : Dependencies) (a : Area) : Bool :=
  a.cell?.any d.cells.contains || d.areas.any fun outer => within outer a

/-- Adds a cell. -/
def addCell (d : Dependencies) (p : Position) : Dependencies :=
  if d.cells.contains p then d else { d with cells := d.cells ++ [p] }

/-- Adds an area; one that is a single cell is added as a cell. -/
def addArea (d : Dependencies) (a : Area) : Dependencies :=
  match a.cell? with
  | some p => d.addCell p
  | none => if d.areas.contains a then d else { d with areas := d.areas ++ [a] }

/-- Adds what one unit of an expression reads by itself. -/
def addUnit (names : Std.TreeMap String Area) (sheet : String) (d : Dependencies) :
    Expression → Dependencies
  | .cell m =>
    match m.target.position? with
    | some p => if m.target.isOnSheet sheet then d.addCell p else d
    | none => d
  | .range _ r => if r.first.target.isOnSheet sheet then d.addArea r.area else d
  | .identifier _ name =>
    match names[Text.upper name]? with
    | some a => d.addArea a
    | none => d
  | _ => d

/-- A walk does not look at the corners of a range. -/
def entersUnit : Expression → Bool
  | .range _ _ => false
  | _ => true

/-- The references that an expression mentions, named areas among them. Other sheets are not read. -/
def ofExpression (names : Std.TreeMap String Area) (sheet : String) (e : Expression) : Dependencies :=
  (e.walk entersUnit).foldl (addUnit names sheet) {}

end Dependencies

end Spreadsheet
