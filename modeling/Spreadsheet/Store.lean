import Spreadsheet.Cell

/-!
Stores of cells. A store holds its rows one after another, each as far to the right as cells have been created in it,
and keeps the extent of the sheet, which grows with the cells that are created and changes with inserted and deleted
rows and columns.
-/

namespace Spreadsheet

/-! ### Lists with gaps -/

namespace Gapped

/-- The list with gaps at its end, so that it has an element at `i`. -/
def reach (gap : α) (i : Nat) (xs : List α) : List α :=
  xs ++ List.replicate (i + 1 - xs.length) gap

/-- Inserts gaps before `start`; a list that ends there has nothing to move. -/
def insert (gap : α) (start count : Nat) (xs : List α) : List α :=
  if start < xs.length then xs.take start ++ List.replicate count gap ++ xs.drop start else xs

/-- Deletes the elements from `start` on as far as the list goes, and `count` of them at most. -/
def delete (start count : Nat) (xs : List α) : List α :=
  xs.take (min start xs.length) ++ xs.drop (min (start + count) xs.length)

end Gapped

/-- The cells of a sheet. -/
structure Store where
  /-- The rows from the top as far as cells have been created, with gaps where there are none. -/
  lines : List (List (Option Cell)) := []
  /-- The number of rows of the sheet. -/
  rows : Nat := 0
  /-- The number of columns of the sheet. -/
  columns : Nat := 0
deriving Inhabited

namespace Store

/-- Counts of rows and columns stay below this bound. -/
def extentBound : Nat := 0xFFFFFFFF

/-- The cell at a position. -/
def cell? (s : Store) (p : Position) : Option Cell :=
  (s.lines.getD p.row []).getD p.column none

@[simp] theorem cell?_empty (p : Position) : ({} : Store).cell? p = none := rfl

/-- What a reference to the position reads; where there is no cell it reads nothing. -/
def read (s : Store) (p : Position) : Value :=
  match s.cell? p with
  | some c => c.read
  | none => .undefined

/-- Changes the cell at a position, which is created if there is none. -/
def update (s : Store) (p : Position) (f : Cell → Cell) : Store :=
  { lines := (Gapped.reach [] p.row s.lines).modify p.row fun line =>
      (Gapped.reach none p.column line).modify p.column fun c => some (f (c.getD {}))
    rows := max s.rows (p.row + 1)
    columns := max s.columns (p.column + 1) }

/-- Changes the cell at a position if there is one. -/
def adjust (s : Store) (p : Position) (f : Cell → Cell) : Store :=
  { s with lines := s.lines.modify p.row fun line => line.modify p.column (Option.map f) }

/-- Enters a value. -/
def setValue (s : Store) (p : Position) (v : Value) : Store := s.update p (·.setValue v)

/-- Enters a formula. -/
def setFormula (s : Store) (p : Position) (text : String) : Store := s.update p (·.setFormula text)

/-- Empties a cell. -/
def clear (s : Store) (p : Position) : Store := s.adjust p Cell.reset

/-- The cells with their positions, row by row. -/
def toList (s : Store) : List (Position × Cell) :=
  s.lines.zipIdx.flatMap fun (line, row) =>
    line.zipIdx.filterMap fun (c, column) => c.map fun c => (⟨row, column⟩, c)

/-- Changes every cell. -/
def mapCells (s : Store) (f : Cell → Cell) : Store :=
  { s with lines := s.lines.map (List.map (Option.map f)) }

/-- Inserts rows. -/
def insertRows (s : Store) (start count : Nat) : Store :=
  { s with
    lines := Gapped.insert [] start count s.lines
    rows := min extentBound (s.rows + count) }

/-- Deletes rows. -/
def deleteRows (s : Store) (start count : Nat) : Store :=
  { s with
    lines := Gapped.delete start count s.lines
    rows := s.rows - count }

/-- Inserts columns. -/
def insertColumns (s : Store) (start count : Nat) : Store :=
  { s with
    lines := s.lines.map (Gapped.insert none start count)
    columns := min extentBound (s.columns + count) }

/-- Deletes columns. -/
def deleteColumns (s : Store) (start count : Nat) : Store :=
  { s with
    lines := s.lines.map (Gapped.delete start count)
    columns := s.columns - count }

/-- The values of a block of cells: of a single cell its value, else an array column by column. -/
def readBlock (s : Store) (p q : Position) : Value :=
  if p = q then s.read p
  else
    let top := min p.row q.row
    let bottom := max p.row q.row
    .array ((Area.span (min p.column q.column) (max p.column q.column)).map fun c =>
      (Area.span top bottom).map fun r => s.read ⟨r, c⟩)

/-- The cells that exist in a bounded area, column by column. -/
def cellsIn (s : Store) (a : Area) : Except AddressError (List (Position × Cell)) :=
  a.cells.map fun ps => ps.filterMap fun p => (s.cell? p).map fun c => (p, c)

/-- The values of an area whose infinite axes are cut down to the sheet. -/
def readArea? (s : Store) (a : Area) : Option Value :=
  let clipped := a.resolve s.rows s.columns
  match clipped.first.position?, clipped.last.position? with
  | some p, some q => some (s.readBlock p q)
  | _, _ => none

end Store

end Spreadsheet
