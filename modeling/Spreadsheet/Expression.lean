import Spreadsheet.Area
import Spreadsheet.Value

/-!
Expressions, as formulas write them. Every unit knows its position in the formula text, counted in
16-bit code units; operators, imaginary numbers and implicit groups remain only in malformed formulas.
-/

namespace Spreadsheet

/-- A reference at the place where a formula mentions it. -/
structure Mention where
  /-- What is referred to. -/
  target : Reference
  /-- The label: the sheet as it is typed, the rest in upper case. -/
  label : String
  /-- Where the label starts. -/
  position : Nat
deriving DecidableEq, Inhabited

/-- Two mentions with a colon between them. -/
structure RangeMention where
  /-- The corner before the colon. -/
  first : Mention
  /-- The corner after the colon. -/
  last : Mention
  /-- The labels of both corners with a colon between them. -/
  label : String
deriving DecidableEq, Inhabited

namespace RangeMention

/-- The range between two mentions. -/
def between (a b : Mention) : RangeMention := ⟨a, b, a.label ++ ":" ++ b.label⟩

/-- A range starts where its first corner does. -/
def position (r : RangeMention) : Nat := r.first.position

/-- The cells a range covers. -/
def area (r : RangeMention) : Area := Area.between r.first.target r.last.target

end RangeMention

/-- An expression, or a part of one. -/
inductive Expression where
  /-- A number, text or truth value; a number keeps its spelling. -/
  | literal (position : Nat) (value : Value) (spelling : Option String)
  /-- An imaginary number that is not yet part of a complex one. -/
  | imaginary (position : Nat) (value : Float) (spelling : String)
  /-- A complex number. -/
  | complex (position : Nat) (value : Complex) (spelling : Option String)
  /-- A reference to a cell. -/
  | cell (mention : Mention)
  /-- A range of cells, or of whole rows or columns. -/
  | range (position : Nat) (mention : RangeMention)
  /-- A name. -/
  | identifier (position : Nat) (name : String)
  /-- An operator without its operands. -/
  | operator (position : Nat) (symbol : String)
  /-- A sign before its operand. -/
  | unary (position : Nat) (symbol : String) (operand : Expression)
  /-- An operator between its operands. -/
  | binary (position : Nat) (symbol : String) (left right : Expression)
  /-- A call of a function. -/
  | call (position : Nat) (name : String) (arguments : List Expression)
  /-- Units in parentheses, or the units of a formula that makes no sense. -/
  | group (position : Nat) (items : List Expression) (explicit : Bool)
  /-- An array of literals, column by column. -/
  | array (position : Nat) (columns : List (List Value))
  /-- An argument that is left out. -/
  | missing (position : Nat)
deriving Inhabited

namespace Expression

/-- Where the unit starts. -/
def position : Expression → Nat
  | .literal p _ _ | .imaginary p _ _ | .complex p _ _ | .range p _ | .identifier p _
  | .operator p _ | .unary p _ _ | .binary p _ _ _ | .call p _ _ | .group p _ _ | .array p _
  | .missing p => p
  | .cell m => m.position

/-- Whether the unit is the given operator. -/
def isOperator (symbol : String) : Expression → Bool
  | .operator _ s => s == symbol
  | _ => false

/-- Whether the unit is an operator. -/
def isAnyOperator : Expression → Bool
  | .operator _ _ => true
  | _ => false

/-! ### Walks

A walk visits a unit before its parts, from left to right; the corners of a range count as its parts.
-/

mutual

/-- The units of an expression in the order of a walk that passes over the parts of the units for which
`enter` is false. -/
def walk (enter : Expression → Bool) (e : Expression) : List Expression :=
  e ::
    if enter e then
      match e with
      | .unary _ _ a => walk enter a
      | .binary _ _ a b => walk enter a ++ walk enter b
      | .call _ _ as => walkList enter as
      | .group _ as _ => walkList enter as
      | .range _ r => [.cell r.first, .cell r.last]
      | _ => []
    else []

/-- The units of several expressions, one expression after the other. -/
def walkList (enter : Expression → Bool) : List Expression → List Expression
  | [] => []
  | e :: es => walk enter e ++ walkList enter es

end

/-- All units of an expression. -/
def units (e : Expression) : List Expression :=
  walk (fun _ => true) e

end Expression

end Spreadsheet
