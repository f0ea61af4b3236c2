import Spreadsheet.Formula.Locale
import Spreadsheet.Formula.Mention
import Spreadsheet.Formula.Operator
import Spreadsheet.Text.CodeUnits

/-!
Lexemes of formulas. A lexeme is read off the front of the code units that are left; the reader says how
many units after the first one belong to it, so every lexeme takes at least one unit.
-/

namespace Spreadsheet.Formula

/-- What can be wrong with a formula. -/
inductive Fault where
  /-- A character that no formula has at this place. -/
  | unexpectedCharacter (c : Char)
  /-- An operator where an operand is needed. -/
  | unexpectedOperator (symbol : String)
  /-- Two operands without an operator between them. -/
  | multipleExpressions
  /-- An operator without an operand after it. -/
  | trailingOperator (symbol : String)
  /-- A sheet name whose quote is not closed. -/
  | unbalancedQuote
  /-- A text whose quote is not closed. -/
  | unterminatedString
  /-- A parenthesis that is not closed. -/
  | unmatchedParenthesis
  /-- A character that no array has. -/
  | invalidArrayCharacter (c : Char)
  /-- A member of an array that is no literal. -/
  | invalidArrayValue
  /-- An array whose brace is not closed. -/
  | unterminatedArray
  /-- A colon whose operands make no range. -/
  | invalidRange
  /-- A formula without any content. -/
  | empty
deriving DecidableEq

/-- The wording of a fault. -/
def Fault.message : Fault → String
  | .unexpectedCharacter c => "unexpected character: " ++ c.toString
  | .unexpectedOperator s => "unexpected operator: " ++ s
  | .multipleExpressions => "multiple expressions"
  | .trailingOperator s => "missing operand after " ++ s
  | .unbalancedQuote => "unbalanced single quote"
  | .unterminatedString => "unterminated string literal"
  | .unmatchedParenthesis => "unmatched parenthesis"
  | .invalidArrayCharacter c => "invalid character in array literal: " ++ c.toString
  | .invalidArrayValue => "invalid value in array literal"
  | .unterminatedArray => "unterminated array literal"
  | .invalidRange => "invalid range operands"
  | .empty => "empty expression"

/-- The code unit of a character. Of a character with two units this is the low part of its number. -/
def unitOf (c : Char) : Nat := c.toNat % 0x10000

/-- The code units of digits. -/
def isDigitUnit (u : Nat) : Bool := 48 ≤ u && u ≤ 57

/-- The code units of the letters `A` to `Z` and `a` to `z`. -/
def isLetterUnit (u : Nat) : Bool := (65 ≤ u && u ≤ 90) || (97 ≤ u && u ≤ 122)

/-- The code units between lexemes. -/
def isSpaceUnit (u : Nat) : Bool :=
  u == 0x20 || u == 0x09 || u == 0x0A || u == 0x0D || u == 0xA0

/-- The code units of accented letters. -/
def isAccentedUnit (u : Nat) : Bool := 192 ≤ u && u ≤ 312

/-- The code units a word starts with: a letter, `_`, `$` or the quote of a sheet name. -/
def isWordStart (u : Nat) : Bool :=
  isLetterUnit u || isAccentedUnit u || u == unitOf '_' || u == unitOf '$' || u == unitOf '\x27'

/-- The code units a word goes on with. -/
def isWordUnit (u : Nat) : Bool :=
  isLetterUnit u || isDigitUnit u || isAccentedUnit u || u == unitOf '_' || u == unitOf '$' ||
    u == unitOf '.' || u == unitOf '!'

/-- A piece of a formula. -/
inductive Lexeme where
  /-- Space between lexemes. -/
  | space
  /-- A literal, a name or a mention of a cell, with what is wrong with it. -/
  | atom (e : Expression) (fault : Option Fault)
  /-- A word and the parenthesis after it, which stands at the given place. -/
  | call (name : String) (openAt : Nat)
  /-- The brace that opens an array. -/
  | openArray
  /-- Any other code unit: an operator, a parenthesis, a separator or none of these. -/
  | mark (u : Nat)

namespace Lexeme

/-- Reads the rest of a text in quotes: its code units, how many were taken and whether it is closed. A
quote that is written twice stands for itself. -/
def takeString : List Nat → List Nat × Nat × Bool
  | [] => ([], 0, false)
  | 34 :: 34 :: rest =>
    let (us, n, closed) := takeString rest
    (34 :: us, n + 2, closed)
  | 34 :: _ => ([], 1, true)
  | u :: rest =>
    let (us, n, closed) := takeString rest
    (u :: us, n + 1, closed)

/-- The decimal digits at the front, up to the imaginary unit. -/
def takeDigits (locale : Locale) (us : List Nat) : List Nat :=
  us.takeWhile fun u => isDigitUnit u && u != unitOf locale.imaginary

/-- The characters of digits. -/
def digitChars (us : List Nat) : List Char :=
  us.map Text.charOfUnit

/-- A sign at the front: whether it is a minus, and how many units it takes. -/
def takeSign : List Nat → Bool × Nat
  | u :: _ => if u == unitOf '-' then (true, 1) else if u == unitOf '+' then (false, 1) else (false, 0)
  | [] => (false, 0)

/-- Whether a decimal mark at the front starts the digits after the point. A comma does so only before a
digit. -/
def startsFraction (locale : Locale) : List Nat → Bool
  | u :: rest =>
    u == unitOf locale.decimal.char &&
      (match locale.decimal with
        | .period => true
        | .comma => (rest.head?.map isDigitUnit).getD false)
  | [] => false

/-- Whether the unit is the `e` before an exponent. -/
def isExponentMark (u : Nat) : Bool := u == unitOf 'e' || u == unitOf 'E'

/-- The parts of a number in a formula. -/
structure Numeral where
  /-- Whether a minus stands before it. -/
  negative : Bool
  /-- The digits before the decimal mark. -/
  whole : List Nat
  /-- The digits after the decimal mark. -/
  places : List Nat
  /-- The exponent, if there is one. -/
  exponent : Option Int
  /-- How many units have been taken. -/
  length : Nat

/-- Reads a number: a sign, digits with a decimal mark, and an exponent, of which all but the digits may
be missing. -/
def takeNumeral (locale : Locale) (us : List Nat) : Numeral :=
  let (negative, n₀) := takeSign us
  let rest₀ := us.drop n₀
  let whole := takeDigits locale rest₀
  let rest₁ := rest₀.drop whole.length
  let dotted := startsFraction locale rest₁
  let places := if dotted then takeDigits locale rest₁.tail else []
  let n₁ := n₀ + whole.length + (if dotted then 1 + places.length else 0)
  match us.drop n₁ with
  | u :: rest₂ =>
    if isExponentMark u then
      let (minus, n₂) := takeSign rest₂
      let digits := takeDigits locale (rest₂.drop n₂)
      let e := Number.Exact.signed minus (Number.digitsValue (digitChars digits))
      ⟨negative, whole, places, some e, n₁ + 1 + n₂ + digits.length⟩
    else ⟨negative, whole, places, none, n₁⟩
  | [] => ⟨negative, whole, places, none, n₁⟩

/-- The value of a number. -/
def Numeral.value (n : Numeral) : Float :=
  Number.ofDecimal n.negative (Number.digitsValue (digitChars (n.whole ++ n.places)))
    (n.exponent.getD 0 - n.places.length)

/-- Whether the unit after a number makes it imaginary. Marks that have another meaning in a number never
do. -/
def isImaginaryMark (locale : Locale) (u : Nat) : Bool :=
  u == unitOf locale.imaginary && u != unitOf locale.decimal.char && u != unitOf '+' &&
    u != unitOf '-' && !isExponentMark u

/-- Reads a number with its suffix: a percent sign divides by a hundred, the imaginary unit makes the
number imaginary unless it has an exponent. -/
def number (locale : Locale) (position : Nat) (us : List Nat) : Expression × Nat :=
  let n := takeNumeral locale us
  let suffix := (us.drop n.length).head?
  let spelling (length : Nat) := Text.ofUnits (us.take length)
  if suffix == some (unitOf '%') then
    (.literal position (.number (n.value / 100)) (some (spelling (n.length + 1))), n.length + 1)
  else if suffix.any (isImaginaryMark locale) && n.exponent.isNone then
    (.imaginary position n.value (spelling (n.length + 1)), n.length + 1)
  else (.literal position (.number n.value) (some (spelling n.length)), n.length)

/-- How many units of a word follow its first one. Inside quotes any unit belongs to the word. -/
def wordLength : Bool → List Nat → Nat × Bool
  | quoted, [] => (0, quoted)
  | quoted, u :: rest =>
    if quoted || isWordUnit u then
      let (n, q) := wordLength (quoted && u != unitOf '\x27') rest
      (n + 1, q)
    else (0, quoted)

/-- What a word that is no call stands for: a truth value, a cell or a name. -/
def wordAtom (name : String) (position : Nat) : Expression :=
  match Mention.ofCellWord? name.toList position with
  | some m => .cell m
  | none => .identifier position name

/-- Reads a word. A parenthesis after it, perhaps behind space, makes it a call. -/
def word (position : Nat) (u : Nat) (us : List Nat) : Lexeme × Nat :=
  let (n, unbalanced) := wordLength (u == unitOf '\x27') us
  let name := Text.ofUnits (u :: us.take n)
  if unbalanced then (.atom (.identifier position name) (some .unbalancedQuote), n)
  else if Text.equalIgnoringCase name "true" then
    (.atom (.literal position (.boolean true) none) none, n)
  else if Text.equalIgnoringCase name "false" then
    (.atom (.literal position (.boolean false) none) none, n)
  else
    let rest := us.drop n
    let space := (rest.takeWhile isSpaceUnit).length
    if (rest.drop space).head? == some (unitOf '(') then
      (.call name (position + 1 + n + space), n + space + 1)
    else (.atom (wordAtom name position) none, n)

/-- Whether a number starts with the given units: a digit, or a decimal mark before a digit. -/
def startsNumber (locale : Locale) : List Nat → Bool
  | u :: rest =>
    isDigitUnit u ||
      (u == unitOf locale.decimal.char && (rest.head?.map isDigitUnit).getD false)
  | [] => false

/-- Reads the lexeme that starts with the unit `u` at the given position. Where no operand stands before
it, a sign directly before a number belongs to the number. The second component tells how many units
after `u` are taken. -/
def read (locale : Locale) (first : Bool) (position : Nat) (u : Nat) (us : List Nat) :
    Lexeme × Nat :=
  if isSpaceUnit u then (.space, 0)
  else if u == unitOf '"' then
    let (content, n, closed) := takeString us
    let value := Value.text (Text.ofUnits content)
    (.atom (.literal position value none) (if closed then none else some .unterminatedString), n)
  else if startsNumber locale (u :: us) ||
      (first && (u == unitOf '-' || u == unitOf '+') && startsNumber locale us) then
    let (e, n) := number locale position (u :: us)
    (.atom e none, n - 1)
  else if u == unitOf '\x7b' then (.openArray, 0)
  else if isWordStart u then word position u us
  else (.mark u, 0)

end Lexeme

/-- The operator at the front of the units and how many units it takes; longer operators win. -/
def takeOperator (us : List Nat) : Option (String × Nat) :=
  (Operator.longestFirst.find? fun symbol => (Text.units symbol).isPrefixOf us).map fun symbol =>
    (symbol, (Text.units symbol).length)

end Spreadsheet.Formula
