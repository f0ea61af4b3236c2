import Spreadsheet.Expression
import Spreadsheet.Text.Letters

/-!
Mentions of cells, rows and columns. A word is a mention of a cell when all of it is letters and digits
with their `$` marks, perhaps after a sheet name and `!`; a number or a word can mention a whole row or
a whole column where a range asks for one.
-/

namespace Spreadsheet.Mention

/-- What stands before the last `!` of a word, if there is one, and what stands after it. -/
def splitSheet (cs : List Char) : Option (List Char) × List Char :=
  let tail := (cs.reverse.takeWhile (· != '!')).reverse
  if cs.contains '!' then (some (cs.take (cs.length - tail.length - 1)), tail) else (none, cs)

/-- A sheet name without its quotes. -/
def unquote (cs : List Char) : List Char :=
  match cs with
  | '\x27' :: rest => if rest.getLast? == some '\x27' then rest.dropLast else cs
  | _ => cs

/-- The sheet that the part of a word before the `!` names. -/
def sheetName (raw : Option (List Char)) : Option String :=
  raw.map fun cs => String.ofList (unquote cs)

/-- A label: the sheet as it is typed, and the rest. -/
def labelOf (raw : Option (List Char)) (rest : List Char) : String :=
  match raw with
  | some sheet => String.ofList (sheet ++ '!' :: rest)
  | none => String.ofList rest

/-- The characters after a `$`, and whether there is one. -/
def takeDollar : List Char → Bool × List Char
  | '$' :: rest => (true, rest)
  | cs => (false, cs)

/-- The row with the given digits as its number. -/
def rowOfDigits? (ds : List Char) : Option Nat :=
  let n := Number.digitsValue ds
  if ds.isEmpty || !ds.all Number.isDigit || n = 0 || Row.numberBound ≤ n then none else some (n - 1)

/-- Reads a word as a mention of a cell. -/
def ofCellWord? (cs : List Char) (position : Nat) : Option Mention :=
  let (raw, rest) := splitSheet cs
  let (fixedColumn, body) := takeDollar rest
  let (fixedRow, digits) := takeDollar (body.dropWhile Column.isLetter)
  match Column.ofLetters? (body.takeWhile Column.isLetter), rowOfDigits? digits with
  | some column, some row =>
    some
      { target := { row := some row, column := some column, fixedRow, fixedColumn,
                    sheet := sheetName raw }
        label := labelOf raw (rest.map Char.toUpper)
        position }
  | _, _ => none

/-- Whether the part before the `!` is a whole sheet name: an opening quote needs a closing one. -/
def isSheetPart (raw : List Char) : Bool :=
  match raw with
  | '\x27' :: rest => rest.getLast? == some '\x27'
  | _ => true

/-- Reads a word as a mention of a whole row or column. -/
def ofAxisWord? (cs : List Char) (position : Nat) : Option Mention :=
  let (raw, rest) := splitSheet cs
  if !(raw.map isSheetPart).getD true then none
  else
    let (fixed, body) := takeDollar rest
    let bare := body.map Char.toUpper
    let label := labelOf raw (if fixed then '$' :: bare else bare)
    let sheet := sheetName raw
    match rowOfDigits? bare, Column.ofLetters? bare with
    | some row, _ => some { target := { row := some row, fixedRow := fixed, sheet }, label, position }
    | none, some column =>
      some { target := { column := some column, fixedColumn := fixed, sheet }, label, position }
    | none, none => none

/-- Reads a number as a mention of a whole row. -/
def ofRowNumber? (x : Float) (spelling : Option String) (position : Nat) : Option Mention :=
  let integral := Number.isIntegral x && !((spelling.getD "").toList.contains '.')
  if 0 < x && x < 4294967296 && integral then
    let number := Number.clampNat 32 x
    some { target := { row := some (number - 1) }, label := Row.name (number - 1), position }
  else none

/-- Reads a unit as a mention of a whole row or column. -/
def ofUnit? : Expression → Option Mention
  | .literal p (.number x) spelling => ofRowNumber? x spelling p
  | .identifier p name => ofAxisWord? name.toList p
  | _ => none

end Spreadsheet.Mention
