import Spreadsheet.Position
import Spreadsheet.Text.Letters

/-!
References as formulas write them: a position whose axes may each be infinite (`C:C` has no row, `3:3`
no column) or fixed by a `$`, perhaps on a named sheet. Moving a formula shifts the axes that are
finite and not fixed.
-/

namespace Spreadsheet

/-- A reference to a cell, a whole row or a whole column. -/
structure Reference where
  /-- The row, unless the reference takes in all rows. -/
  row : Option Nat := none
  /-- The column, unless the reference takes in all columns. -/
  column : Option Nat := none
  /-- Whether a `$` fixes the row. -/
  fixedRow : Bool := false
  /-- Whether a `$` fixes the column. -/
  fixedColumn : Bool := false
  /-- The sheet, if one is named. -/
  sheet : Option String := none
deriving DecidableEq, Inhabited

namespace SheetName

/-- Whether a sheet name is written in quotes: it holds a blank or one of `-+=<>!()`. -/
def needsQuotes (name : String) : Bool :=
  name.toList.any fun c => Text.isBlank c || "-+=<>!()".toList.contains c

/-- The sheet name in front of a label, such as `Sheet2!`, with quotes where the name needs them. -/
def labelStart (name : String) : String :=
  if needsQuotes name then "'" ++ name ++ "'!" else name ++ "!"

end SheetName

namespace Reference

/-- The relative reference to one cell. -/
def ofPosition (p : Position) : Reference :=
  { row := some p.row, column := some p.column }

/-- Whether both axes are finite. -/
def isBounded (a : Reference) : Bool :=
  a.row.isSome && a.column.isSome

/-- The position of a reference to one cell. -/
def position? (a : Reference) : Option Position :=
  match a.row, a.column with
  | some r, some c => some ⟨r, c⟩
  | _, _ => none

/-- Whether two references agree apart from their `$` marks and sheets. -/
def samePlace (a b : Reference) : Bool :=
  a.row == b.row && a.column == b.column

/-- Whether the reference is to the sheet with the given name; one that names no sheet is. -/
def isOnSheet (a : Reference) (sheet : String) : Bool :=
  match a.sheet with
  | some name => Text.equalIgnoringCase name sheet
  | none => true

/-- An axis moved by `delta` unless it is fixed or infinite; `none` when that leaves the sheet. -/
def shiftAxis (axis : Option Nat) (fixed : Bool) (delta : Int) (last : Nat) :
    Option (Option Nat) :=
  match axis with
  | none => some none
  | some v =>
    if fixed then some (some v)
    else
      let moved := (v : Int) + delta
      if 0 ≤ moved && moved ≤ last then some (some moved.toNat) else none

/-- The reference moved by the given offset; `none` when it leaves the sheet. -/
def shift? (a : Reference) (rows columns : Int) : Option Reference :=
  match shiftAxis a.row a.fixedRow rows Row.last,
      shiftAxis a.column a.fixedColumn columns Column.last with
  | some row, some column => some { a with row, column }
  | _, _ => none

/-- The mark of a fixed axis. -/
def dollar (fixed : Bool) : String :=
  if fixed then "$" else ""

/-- The text of a reference that cannot be written. -/
def broken : String := "#REF"

/-- The label of a reference as it stands. Without a finite axis there is none. -/
def spelling (a : Reference) : String :=
  let column := a.column.map fun c => dollar a.fixedColumn ++ Column.name c
  let row := a.row.map fun r => dollar a.fixedRow ++ Row.name r
  match column, row with
  | none, none => broken
  | _, _ => (a.sheet.map SheetName.labelStart).getD "" ++ column.getD "" ++ row.getD ""

/-- The label of the reference moved by the given offset. -/
def labelAt (a : Reference) (rows columns : Int) : String :=
  match a.shift? rows columns with
  | some b => b.spelling
  | none => broken

/-- The label of a reference, which lies on the sheet. -/
def label (a : Reference) : String :=
  a.labelAt 0 0

end Reference

end Spreadsheet
