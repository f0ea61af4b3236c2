import Spreadsheet.Position
import Spreadsheet.Complex
import Spreadsheet.CellError

/-!
Values of cells and expressions. Arrays are lists of columns and may hold any values, arrays too;
`flatten` lists the scalars of a value column by column, and `scalar` sees through wrappers.
-/

namespace Spreadsheet

/-- What a cell holds or an expression gives. -/
inductive Value where
  /-- Nothing, as in an empty cell. -/
  | undefined
  /-- A number. -/
  | number (x : Float)
  /-- A text. -/
  | text (s : String)
  /-- A truth value. -/
  | boolean (b : Bool)
  /-- A complex number. -/
  | complex (z : Complex)
  /-- An array, column by column. -/
  | array (columns : List (List Value))
  /-- A value together with the cell it came from and the format of that cell. -/
  | metadata (position : Position) (value : Value) (format : Option String)
  /-- An error. -/
  | error (e : CellError)
deriving Inhabited

namespace Value

/-- The error of a code without an explanation. -/
def ofCode (code : ErrorCode) : Value := .error ⟨code, none⟩

/-- The error of a code with an explanation. -/
def explained (code : ErrorCode) (message : String) : Value := .error (.explained code message)

/-- The result of a computation that may have failed. -/
def ofExcept (f : α → Value) : Except CellError α → Value
  | .ok a => f a
  | .error e => .error e

mutual

/-- Equality of values: numbers compare as floating-point numbers, errors by their codes. -/
def equal : Value → Value → Bool
  | .undefined, .undefined => true
  | .number x, .number y => x == y
  | .text s, .text t => s == t
  | .boolean a, .boolean b => a == b
  | .complex a, .complex b => a == b
  | .array a, .array b => equalColumns a b
  | .metadata p v f, .metadata q w g => p == q && equal v w && f == g
  | .error a, .error b => a == b
  | _, _ => false

/-- Equality column by column. -/
def equalColumns : List (List Value) → List (List Value) → Bool
  | [], [] => true
  | a :: as, b :: bs => equalColumn a b && equalColumns as bs
  | _, _ => false

/-- Equality element by element. -/
def equalColumn : List Value → List Value → Bool
  | [], [] => true
  | a :: as, b :: bs => equal a b && equalColumn as bs
  | _, _ => false

end

instance : BEq Value := ⟨equal⟩

/-- Whether the value is an error. -/
def isError : Value → Bool
  | .error _ => true
  | _ => false

/-- The error, if the value is one. -/
def error? : Value → Option CellError
  | .error e => some e
  | _ => none

/-- Whether there is no value. -/
def isUndefined : Value → Bool
  | .undefined => true
  | _ => false

/-- Whether the value is an array. -/
def isArray : Value → Bool
  | .array _ => true
  | _ => false

/-- The height of a list of columns, read off the first. -/
def height (columns : List (List Value)) : Nat :=
  columns.head?.elim 0 List.length

/-- The numbers of columns and of rows; anything but an array counts as a single cell. -/
def shape : Value → Nat × Nat
  | .array columns => (columns.length, height columns)
  | _ => (1, 1)

/-- The value behind metadata and arrays of one cell. -/
def scalar : Value → Value
  | .metadata _ v _ => scalar v
  | .array [[v]] => scalar v
  | v => v

mutual

/-- The scalars of a value, column by column. -/
def flatten : Value → List Value
  | .array columns => flattenColumns columns
  | .metadata _ v _ => flatten v
  | v => [v]

/-- The scalars of a list of columns. -/
def flattenColumns : List (List Value) → List Value
  | [] => []
  | c :: cs => flattenColumn c ++ flattenColumns cs

/-- The scalars of one column. -/
def flattenColumn : List Value → List Value
  | [] => []
  | v :: vs => flatten v ++ flattenColumn vs

end

/-- Row `r` of a list of columns. Columns that are too short have nothing there. -/
def rowAt (columns : List (List Value)) (r : Nat) : List Value :=
  columns.map fun c => c.getD r .undefined

/-- The array of the given rows, short rows being filled up with nothing. -/
def ofRows (rows : List (List Value)) : Value :=
  let width := (rows.map List.length).foldl max 0
  .array ((List.range width).map fun c => rows.map fun row => row.getD c .undefined)

/-- The text between double quotes, with its own double quotes written twice. -/
def doubleQuoted (s : String) : String :=
  String.ofList ('"' :: s.toList.flatMap (fun c => if c == '"' then ['"', '"'] else [c]) ++ ['"'])

/-- The rows of a list of columns of texts, between braces. -/
def braced (columns : List (List String)) : String :=
  let rows := (List.range (columns.head?.elim 0 List.length)).map fun r =>
    ", ".intercalate (columns.map fun c => c.getD r "")
  "\x7b" ++ "; ".intercalate rows ++ "\x7d"

mutual

/-- The text of a value as a cell shows it. Arrays are written row by row, as in `{1, 2; 3, 4}`. -/
def display : Value → String
  | .undefined => ""
  | .number x => Number.format x
  | .text s => s
  | .boolean b => if b then "TRUE" else "FALSE"
  | .complex z => z.toText
  | .error e => e.code.toText
  | .metadata _ v _ => display v
  | .array columns => braced (displayColumns columns)

/-- The texts of the elements, column by column. -/
def displayColumns : List (List Value) → List (List String)
  | [] => []
  | c :: cs => displayColumn c :: displayColumns cs

/-- The texts of the elements of a column; texts are put in quotes, which are doubled inside. -/
def displayColumn : List Value → List String
  | [] => []
  | .text s :: vs => doubleQuoted s :: displayColumn vs
  | v :: vs => display v :: displayColumn vs

end

end Value

end Spreadsheet
