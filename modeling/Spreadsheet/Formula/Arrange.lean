import Spreadsheet.Expression
import Spreadsheet.Formula.Lexeme

/-!
Trees from flat streams of operands and operators. Signs bind to the next operand alone; of two binary
operators the one with the higher precedence binds tighter, and among equals the left one does.
-/

namespace Spreadsheet.Formula

/-- A fault and where it is. -/
structure ParseError where
  /-- What is wrong. -/
  fault : Fault
  /-- Where, in code units from the start of the formula. -/
  position : Nat
deriving DecidableEq

/-- The wording of a parse error. -/
def ParseError.message (e : ParseError) : String :=
  "ParseError at position " ++ String.ofList (Nat.toDigits 10 e.position) ++ ": " ++ e.fault.message

namespace Arrange

/-- The operand under its signs, the innermost sign last. -/
def applySigns : List (String × Nat) → Expression → Expression
  | [], e => e
  | (symbol, p) :: signs, e => .unary p symbol (applySigns signs e)

/-- Adds an operator and its right operand to a tree. The operator goes down the right spine as long as
it binds tighter than the operator it meets. -/
def attach (node : Expression) (symbol : String) (p : Nat) (operand : Expression) : Expression :=
  match node with
  | .binary q s left right =>
    if Operator.precedence s < Operator.precedence symbol then
      .binary q s left (attach right symbol p operand)
    else .binary p symbol node operand
  | _ => .binary p symbol node operand

/-- Reads signs and one operand off a stream; `signs` are those already read, the last one first. -/
def takeOperand (signs : List (String × Nat)) :
    List Expression → Except ParseError (Expression × List Expression)
  | [] =>
    let (symbol, p) := signs.head?.getD ("", 0)
    .error ⟨.trailingOperator symbol, p⟩
  | .operator p symbol :: rest =>
    if Operator.isSign symbol then takeOperand ((symbol, p) :: signs) rest
    else .error ⟨.unexpectedOperator symbol, p⟩
  | e :: rest => .ok (applySigns signs.reverse e, rest)

/-- Goes through the rest of a stream: after the tree built so far come an operator, signs and an
operand, again and again. The tree waits in `root` while `pending` holds an operator and its signs. -/
def build (root : Expression) (pending : Option (String × Nat × List (String × Nat))) :
    List Expression → Except ParseError Expression
  | [] =>
    match pending with
    | none => .ok root
    | some (symbol, p, signs) =>
      let (s, q) := signs.head?.getD (symbol, p)
      .error ⟨.trailingOperator s, q⟩
  | e :: rest =>
    match pending, e with
    | none, .operator p symbol => build root (some (symbol, p, [])) rest
    | none, e => .error ⟨.multipleExpressions, e.position⟩
    | some (symbol, p, signs), .operator q s =>
      if Operator.isSign s then build root (some (symbol, p, (s, q) :: signs)) rest
      else .error ⟨.unexpectedOperator s, q⟩
    | some (symbol, p, signs), e =>
      build (attach root symbol p (applySigns signs.reverse e)) none rest

/-- The tree of a stream. -/
def units (stream : List Expression) : Except ParseError Expression := do
  let (root, rest) ← takeOperand [] stream
  build root none rest

/-- A stream that makes no tree, as it is. -/
def degrade (stream : List Expression) : Expression :=
  .group ((stream.head?.map Expression.position).getD 0) stream false

/-- The tree of a stream, or what is wrong with it. A colon that is left over makes no range. -/
def tree (stream : List Expression) : Except ParseError Expression :=
  match stream.find? (Expression.isOperator ":") with
  | some colon => .error ⟨.invalidRange, colon.position⟩
  | none => units stream

end Arrange

end Spreadsheet.Formula
