/-!
Operators and their precedences. The one with the higher precedence binds its operands tighter.
-/

namespace Spreadsheet.Operator

/-- The binary operators with their precedences. -/
def table : List (String × Nat) :=
  [("=", 6), ("==", 6), ("!=", 6), ("!==", 6), ("<>", 6), ("<", 7), (">", 7), ("<=", 7), (">=", 7),
    ("+", 9), ("-", 9), ("&", 9), ("*", 10), ("/", 10), ("%", 10), ("^", 11), (":", 13)]

/-- The precedence of an operator; no operator has precedence zero. -/
def precedence (symbol : String) : Nat :=
  (table.lookup symbol).getD 0

/-- Whether the symbol may stand before an operand. -/
def isSign (symbol : String) : Bool :=
  symbol == "-" || symbol == "+"

/-- The symbols, longer ones first. -/
def longestFirst : List String :=
  ["!==", "==", "!=", "<>", "<=", ">=", "=", "<", ">", "+", "-", "&", "*", "/", "%", "^", ":"]

end Spreadsheet.Operator
