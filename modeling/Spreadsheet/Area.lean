import Spreadsheet.Reference

/-!
Rectangular areas. An area is given by two corners; on either axis it may be infinite, in which case
it takes in whole rows or whole columns.
-/

namespace Spreadsheet

/-- The block of cells between two corners. -/
structure Area where
  /-- The top left corner. -/
  first : Reference
  /-- The bottom right corner. -/
  last : Reference
deriving DecidableEq, Inhabited

namespace Area

/-- The lower and the upper bound of an axis; infinite as soon as one corner is. -/
def bounds : Option Nat → Option Nat → Option Nat × Option Nat
  | some a, some b => (some (min a b), some (max a b))
  | _, _ => (none, none)

/-- The area between any two opposite corners. -/
def between (a b : Reference) : Area :=
  let (top, bottom) := bounds a.row b.row
  let (left, right) := bounds a.column b.column
  ⟨{ a with row := top, column := left }, { b with row := bottom, column := right }⟩

/-- The area between two cells. -/
def ofPositions (p q : Position) : Area :=
  between (.ofPosition p) (.ofPosition q)

/-- The area of one cell. -/
def single (p : Position) : Area :=
  ofPositions p p

/-- Whether the area takes in whole rows. -/
def takesRows (a : Area) : Bool := a.first.column.isNone

/-- Whether the area takes in whole columns. -/
def takesColumns (a : Area) : Bool := a.first.row.isNone

/-- Whether both corners are cells. -/
def isBounded (a : Area) : Bool := a.first.isBounded && a.last.isBounded

/-- The top left cell. -/
def topLeft? (a : Area) : Option Position := a.first.position?

/-- Whether a coordinate lies between two bounds; missing bounds are no restriction. -/
def axisContains (low high : Option Nat) (x : Nat) : Bool :=
  match low, high with
  | some l, some h => l ≤ x && x ≤ h
  | _, _ => true

/-- Whether the cell lies in the area. -/
def contains (a : Area) (p : Position) : Bool :=
  axisContains a.first.row a.last.row p.row &&
    axisContains a.first.column a.last.column p.column

/-- Whether two intervals share a coordinate. -/
def axisOverlap (low high low' high' : Option Nat) : Bool :=
  match low, high, low', high' with
  | some l, some h, some l', some h' => l ≤ h' && l' ≤ h
  | _, _, _, _ => true

/-- Whether the areas share a cell. -/
def intersects (a b : Area) : Bool :=
  axisOverlap a.first.row a.last.row b.first.row b.last.row &&
    axisOverlap a.first.column a.last.column b.first.column b.last.column

/-- The numbers of rows and columns of a bounded area. -/
def size? (a : Area) : Option (Nat × Nat) :=
  match a.first.row, a.last.row, a.first.column, a.last.column with
  | some top, some bottom, some left, some right => some (bottom - top + 1, right - left + 1)
  | _, _, _, _ => none

/-- The cell of an area that has only one. -/
def cell? (a : Area) : Option Position :=
  if a.size? = some (1, 1) then a.topLeft? else none

/-- The area with its infinite axes cut down to the given numbers of rows and columns. -/
def resolve (a : Area) (rows columns : Nat) : Area :=
  let first := a.first
  let last := a.last
  let (first, last) :=
    if a.takesColumns then
      ({ first with row := some 0 }, { last with row := some (rows - 1) })
    else (first, last)
  if a.takesRows then
    ⟨{ first with column := some 0 }, { last with column := some (columns - 1) }⟩
  else ⟨first, last⟩

/-- The numbers from `low` to `high`. -/
def span (low high : Nat) : List Nat :=
  List.range' low (high + 1 - low)

/-- The cells of a bounded area, column by column. -/
def cells (a : Area) : Except AddressError (List Position) :=
  match a.first.row, a.last.row, a.first.column, a.last.column with
  | some top, some bottom, some left, some right =>
    .ok ((span left right).flatMap fun c => (span top bottom).map fun r => ⟨r, c⟩)
  | _, _, _, _ => .error .unbounded

/-- The cells of a bounded area; an infinite area has none to list. -/
def members (a : Area) : List Position :=
  match a.cells with
  | .ok ps => ps
  | .error _ => []

/-- The text of an area: one label for a single cell, two with a colon otherwise. -/
def label (a : Area) : String :=
  if a.first.samePlace a.last && a.isBounded then a.first.label
  else a.first.label ++ ":" ++ { a.last with sheet := none : Reference }.label

end Area

end Spreadsheet
