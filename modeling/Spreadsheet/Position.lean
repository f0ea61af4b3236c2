import Std.Data.TreeMap.Basic
import Spreadsheet.Column
import Spreadsheet.Text.Blank
import Spreadsheet.Number.Decimal

/-!
Positions of cells. A position is a row and a column, both counted from zero, and is written as a
label such as `B7` whose row counts from one. Positions are ordered row by row.
-/

namespace Spreadsheet

/-- What is wrong with a label, or with an area that should be walked cell by cell. -/
inductive AddressError where
  /-- There is no label. -/
  | empty
  /-- The column is missing, too long or not made of letters. -/
  | invalidColumn (label : String)
  /-- The row is missing, too large or not made of digits. -/
  | invalidRow (label : String)
  /-- Rows count from one. -/
  | zeroRow
  /-- The area has an infinite axis. -/
  | unbounded
deriving DecidableEq

/-- The wording of an address error. -/
def AddressError.message : AddressError → String
  | .empty => "empty address label"
  | .invalidColumn label => "invalid column in address: " ++ label
  | .invalidRow label => "invalid row in address: " ++ label
  | .zeroRow => "row numbers start at 1"
  | .unbounded => "area covers an entire row or column and cannot be iterated"

namespace Row

/-- The last row; its number in labels is the greatest that 32 bits hold. -/
def last : Nat := 0xFFFFFFFE

/-- Row numbers in labels lie below this bound. -/
def numberBound : Nat := 0x100000000

/-- The number of a row in labels. -/
def name (row : Nat) : String :=
  String.ofList (Nat.toDigits 10 (row + 1))

end Row

/-- The position of a cell, counted from zero. -/
structure Position where
  /-- The row. -/
  row : Nat
  /-- The column. -/
  column : Nat
deriving DecidableEq, Inhabited

namespace Position

/-- Row by row, and by column within a row. -/
instance : Ord Position where
  compare := compareLex (compareOn Position.row) (compareOn Position.column)

instance : Std.TransOrd Position :=
  inferInstanceAs (Std.TransCmp (compareLex (compareOn Position.row) (compareOn Position.column)))

instance : Std.LawfulEqOrd Position where
  eq_of_compare {a b} h := by
    have h : (compare a.row b.row).then (compare a.column b.column) = .eq := h
    obtain ⟨hr, hc⟩ := Ordering.then_eq_eq.1 h
    cases a
    cases b
    congr
    · exact Std.LawfulEqOrd.eq_of_compare hr
    · exact Std.LawfulEqOrd.eq_of_compare hc

/-- A label without blanks around it, once its first `$` is gone. -/
def dropDollar : List Char → List Char
  | '$' :: rest => rest
  | cs => cs

/-- Reads a label such as `A1` or `$b$7`: letters, then digits, each perhaps after a `$`. -/
def ofLabel (label : String) : Except AddressError Position :=
  let cs := Text.trimChars label.toList
  if cs.isEmpty then .error .empty
  else
    let body := dropDollar cs
    match Column.ofLetters? (body.takeWhile Column.isLetter) with
    | none => .error (.invalidColumn label)
    | some column =>
      let digits := dropDollar (body.dropWhile Column.isLetter)
      let number := Number.digitsValue digits
      if digits.isEmpty || !digits.all Number.isDigit || Row.numberBound ≤ number then
        .error (.invalidRow label)
      else if number = 0 then .error .zeroRow
      else .ok ⟨number - 1, column⟩

/-- The label of a position. -/
def label (p : Position) : String :=
  Column.name p.column ++ Row.name p.row

/-- The position the given numbers of rows below and columns to the right. -/
def offset (p : Position) (rows columns : Nat) : Position :=
  ⟨p.row + rows, p.column + columns⟩

end Position

end Spreadsheet
