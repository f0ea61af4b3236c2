import Spreadsheet.Area
import Spreadsheet.Value

/-!
Cells. A cell holds a value or the text of a formula, the result of its last calculation, and its
format; the cells of an array formula also hold the area that they share.
-/

namespace Spreadsheet

/-- The kinds of content. -/
inductive ContentType where
  | undefined
  | number
  | text
  | boolean
  | complex
  | array
  | error
  | formula
deriving DecidableEq

/-- The kind of a value; metadata is of the kind of what it wraps. -/
def Value.contentType : Value → ContentType
  | .undefined => .undefined
  | .number _ => .number
  | .text _ => .text
  | .boolean _ => .boolean
  | .complex _ => .complex
  | .array _ => .array
  | .error _ => .error
  | .metadata _ v _ => v.contentType

namespace Cell

/-- What is entered into a cell. -/
inductive Content where
  /-- A value. -/
  | value (v : Value)
  /-- The text of a formula. -/
  | formula (text : String)
deriving Inhabited

/-- The kind of a content. -/
def Content.type : Content → ContentType
  | .value v => v.contentType
  | .formula _ => .formula

/-- The content as a value; that of a formula is its text. -/
def Content.toValue : Content → Value
  | .value v => v
  | .formula text => .text text

end Cell

/-- A cell. -/
structure Cell where
  /-- What is entered into the cell. -/
  content : Cell.Content := .value .undefined
  /-- The result of the last calculation. -/
  calculated : Value := .undefined
  /-- The area of the array formula that the cell belongs to. -/
  area : Option Area := none
  /-- The format of the cell. -/
  format : Option String := none
deriving Inhabited

namespace Cell

/-- Whether the cell holds a formula. -/
def isFormula (c : Cell) : Bool :=
  match c.content with
  | .formula _ => true
  | .value _ => false

/-- Whether the cell holds nothing and belongs to no array formula. -/
def isEmpty (c : Cell) : Bool :=
  c.content.type == .undefined && c.area.isNone

/-- The formula of a cell without the `=` in front of it. -/
def formula? (c : Cell) : Option String :=
  match c.content with
  | .formula text =>
    some (String.ofList ((Text.trimStart text.toList).dropWhile (· == '=')))
  | .value _ => none

/-- What a reference to the cell reads: the result for formulas and members of arrays, else the entered
value. -/
def read (c : Cell) : Value :=
  if c.isFormula || c.area.isSome then c.calculated else c.content.toValue

/-- Forgets the result. -/
def flush (c : Cell) : Cell := { c with calculated := .undefined }

/-- Enters a value. -/
def setValue (c : Cell) (v : Value) : Cell :=
  { c with content := .value v, calculated := .undefined }

/-- Enters a formula. -/
def setFormula (c : Cell) (text : String) : Cell :=
  { c with content := .formula text, calculated := .undefined }

/-- Stores a result. -/
def setResult (c : Cell) (v : Value) : Cell := { c with calculated := v }

/-- Empties the cell; only its format stays. -/
def reset (c : Cell) : Cell := { format := c.format }

/-- The code of the result if that is an error. -/
def errorCode? (c : Cell) : Option ErrorCode := c.calculated.error?.map CellError.code

end Cell

end Spreadsheet
