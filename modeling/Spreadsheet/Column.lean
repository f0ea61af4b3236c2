/-!
Columns. They are counted from zero and named `A` to `Z`, `AA` to `ZZ`, `AAA` to `ZZZ`: the names are
the bijective numerals in base 26, so each column has one name and each name stands for one column.
-/

namespace Spreadsheet.Column

/-- Names have at most three letters. -/
def maxLetters : Nat := 3

/-- The last column, named `ZZZ`. -/
def last : Nat := 26 + 26 * 26 + 26 * 26 * 26 - 1

/-- The letter of a digit below 26. -/
def letter (digit : Nat) : Char :=
  Char.ofNat (65 + digit)

/-- The letters of a column in reading order. -/
def letters (index : Nat) : List Char :=
  if index < 26 then [letter index]
  else letters (index / 26 - 1) ++ [letter (index % 26)]
termination_by index
decreasing_by omega

/-- The name of a column. -/
def name (index : Nat) : String :=
  String.ofList (letters index)

/-- Whether the character is a letter of a column name, in either case. -/
def isLetter (c : Char) : Bool :=
  ('A' ≤ c && c ≤ 'Z') || ('a' ≤ c && c ≤ 'z')

/-- The digit of a letter, in either case. -/
def digit (c : Char) : Nat :=
  c.toUpper.toNat - 65

/-- One more than the column that the letters name, read as a numeral; no letters give zero. -/
def numeral (cs : List Char) : Nat :=
  cs.foldl (fun n c => 26 * n + digit c + 1) 0

/-- The column that one to three letters name. -/
def ofLetters? (cs : List Char) : Option Nat :=
  if cs.isEmpty || maxLetters < cs.length || !cs.all isLetter then none
  else some (numeral cs - 1)

/-- The column that a name stands for. -/
def ofName? (s : String) : Option Nat :=
  ofLetters? s.toList

end Spreadsheet.Column
