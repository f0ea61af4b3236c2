/-!
Local habits of writing formulas: the decimal mark, the separator of arguments and the imaginary unit.
-/

namespace Spreadsheet

/-- The mark between the whole part of a number and the rest. -/
inductive DecimalMark where
  | period
  | comma
deriving DecidableEq, Inhabited

/-- The mark between two arguments. -/
inductive Separator where
  | comma
  | semicolon
deriving DecidableEq, Inhabited

/-- The character of a decimal mark. -/
def DecimalMark.char : DecimalMark → Char
  | .period => '.'
  | .comma => ','

/-- The character of a separator. -/
def Separator.char : Separator → Char
  | .comma => ','
  | .semicolon => ';'

/-- How formulas are written. -/
structure Locale where
  /-- The mark in decimal numbers. -/
  decimal : DecimalMark := .period
  /-- The mark between arguments. -/
  separator : Separator := .comma
  /-- The letter of the imaginary unit. -/
  imaginary : Char := 'i'
deriving DecidableEq, Inhabited

/-- The locale of a decimal mark; with a decimal comma a semicolon separates arguments. -/
def Locale.ofDecimal (mark : DecimalMark) : Locale :=
  { decimal := mark
    separator :=
      match mark with
      | .period => .comma
      | .comma => .semicolon }

end Spreadsheet
