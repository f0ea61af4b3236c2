import Spreadsheet.Sheet.Edit

/-!
Inserting and deleting whole rows and columns. Cells move, and the areas of array formulas with them;
the texts of formulas stay as they are. An array formula is never cut into pieces.
-/

namespace Spreadsheet

/-- What is inserted or deleted. -/
inductive Axis where
  | rows
  | columns
deriving DecidableEq, Inhabited

namespace Axis

/-- The first and the last coordinate of an area on an axis, if they are finite. -/
def span? (x : Axis) (a : Area) : Option (Nat × Nat) :=
  match x with
  | rows => a.first.row.bind fun r => a.last.row.map fun s => (r, s)
  | columns => a.first.column.bind fun c => a.last.column.map fun d => (c, d)

/-- A reference with its coordinate on an axis moved. -/
def moveReference (x : Axis) (f : Nat → Nat) (r : Reference) : Reference :=
  match x with
  | rows => { r with row := r.row.map f }
  | columns => { r with column := r.column.map f }

/-- Moves an area that starts at `start` or behind it. -/
def moveArea (x : Axis) (start : Nat) (f : Nat → Nat) (a : Area) : Area :=
  match x.span? a with
  | some (first, _) =>
    if start ≤ first then ⟨x.moveReference f a.first, x.moveReference f a.last⟩ else a
  | none => a

/-- Whether what is inserted before `start` comes to lie within an area. -/
def insertCuts (x : Axis) (start : Nat) (a : Area) : Bool :=
  (x.span? a).any fun (first, last) => first < start && start ≤ last

/-- Whether a part of an area is deleted, but not all of it. -/
def deleteCuts (x : Axis) (start count : Nat) (a : Area) : Bool :=
  (x.span? a).any fun (first, last) =>
    first < start + count && start ≤ last && (first < start || start + count ≤ last)

/-- The number of rows or columns of a store. -/
def extent (x : Axis) (s : Store) : Nat :=
  match x with
  | rows => s.rows
  | columns => s.columns

/-- The last row or column. -/
def last : Axis → Nat
  | rows => Row.last
  | columns => Column.last

/-- Inserts rows or columns. -/
def insert (x : Axis) (s : Store) (start count : Nat) : Store :=
  match x with
  | rows => s.insertRows start count
  | columns => s.insertColumns start count

/-- Deletes rows or columns. -/
def delete (x : Axis) (s : Store) (start count : Nat) : Store :=
  match x with
  | rows => s.deleteRows start count
  | columns => s.deleteColumns start count

end Axis

namespace Sheet

/-- The area of an array formula for which the condition holds; row by row, the first one. -/
def findArray? (s : Sheet) (cond : Area → Bool) : Option Area :=
  s.store.toList.findSome? fun (_, c) => c.area.filter cond

/-- The sheet with moved cells, once the areas of array formulas have been moved, too. -/
def moved (s : Sheet) (x : Axis) (store : Store) (start : Nat) (f : Nat → Nat) : Sheet :=
  let store := store.mapCells fun c => { c with area := c.area.map (x.moveArea start f) }
  { s with store }.rebuild

/-- Inserts rows or columns. -/
def insert (s : Sheet) (x : Axis) (start count : Nat) : Except SheetError Sheet :=
  if count = 0 then .ok s
  else
    match s.findArray? (x.insertCuts start) with
    | some a => .error (.arrayOverlap a)
    | none =>
      let used := x.extent s.store
      if start < used && x.last < used - 1 + count then .error (.outOfBounds count)
      else .ok (s.moved x (x.insert s.store start count) start (· + count))

/-- Deletes rows or columns. -/
def delete (s : Sheet) (x : Axis) (start count : Nat) : Except SheetError Sheet :=
  if count = 0 then .ok s
  else
    match s.findArray? (x.deleteCuts start count) with
    | some a => .error (.arrayOverlap a)
    | none => .ok (s.moved x (x.delete s.store start count) start (· - count))

end Sheet

end Spreadsheet
