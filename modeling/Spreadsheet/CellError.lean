import Spreadsheet.Text.Blank
import Spreadsheet.Text.Letters

/-!
Errors of calculations. They are values like any other: an error that reaches a cell is what the cell
holds. Two errors are the same when their codes are; a message only explains where one came from.
-/

namespace Spreadsheet

/-- The kinds of calculation errors. -/
inductive ErrorCode where
  /-- A name or function that nothing defines. -/
  | name
  /-- An argument that is an error, given to a function that accepts none. -/
  | arg
  /-- A reference that leads nowhere. -/
  | ref
  /-- A value of the wrong type. -/
  | value
  /-- A division by zero. -/
  | div0
  /-- A circular reference. -/
  | loop
  /-- A range that is malformed or lacks the data a function needs. -/
  | range
  /-- A search without a match. -/
  | na
  /-- An expression that cannot be evaluated. -/
  | expr
deriving DecidableEq, Inhabited

namespace ErrorCode

/-- All codes. -/
def all : List ErrorCode := [.name, .arg, .ref, .value, .div0, .loop, .range, .na, .expr]

/-- The word for a code. -/
def word : ErrorCode → String
  | .name => "NAME"
  | .arg => "ARG"
  | .ref => "REF"
  | .value => "VALUE"
  | .div0 => "DIV/0"
  | .loop => "LOOP"
  | .range => "RANGE"
  | .na => "NA"
  | .expr => "EXPR"

/-- A code as a cell shows it. -/
def toText (code : ErrorCode) : String := "#" ++ code.word

/-- Reads a code in either case, with blanks around it and with or without `#`. -/
def ofText? (s : String) : Option ErrorCode :=
  let cs := Text.trimChars s.toList
  let body := String.ofList (if cs.head? == some '#' then cs.tail else cs)
  all.find? fun code => Text.equalIgnoringCase code.word body

end ErrorCode

/-- An error that a cell can hold. -/
structure CellError where
  /-- The kind of error. -/
  code : ErrorCode
  /-- What led to it, if there is more to say. -/
  message : Option String := none
deriving Inhabited

namespace CellError

/-- Only the codes count. -/
instance : BEq CellError where
  beq a b := a.code == b.code

/-- The error of a code with an explanation. -/
def explained (code : ErrorCode) (message : String) : CellError :=
  ⟨code, some message⟩

/-- The code, and the explanation if there is one. -/
def toText (e : CellError) : String :=
  match e.message with
  | none => e.code.toText
  | some m => e.code.toText ++ ": " ++ m

end CellError

end Spreadsheet
