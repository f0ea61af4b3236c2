import Spreadsheet.Text.Blank
import Spreadsheet.Text.Letters
import Spreadsheet.Number.Shortest

/-!
Decimal texts of numbers. Writing uses the shortest digits that read back, always in positional
notation; reading takes digits with a point and an exponent and rounds them to the nearest number.
-/

namespace Spreadsheet.Number

/-- The decimal `c · 10 ^ p` in positional notation. -/
def positional (c : Nat) (p : Int) : String :=
  let ds := Nat.toDigits 10 c
  if 0 ≤ p then String.ofList (ds ++ List.replicate p.toNat '0')
  else
    let places := (-p).toNat
    let padded := List.replicate (places + 1 - ds.length) '0' ++ ds
    let whole := padded.take (padded.length - places)
    let rest := (padded.drop (padded.length - places)).reverse.dropWhile (· == '0') |>.reverse
    String.ofList (if rest.isEmpty then whole else whole ++ '.' :: rest)

/-- The shortest text that reads back as the number, with `inf` and `NaN` for the special numbers. -/
def toText (x : Float) : String :=
  match Exact.ofFloat x with
  | .nan => "NaN"
  | .infinite neg => if neg then "-inf" else "inf"
  | .finite neg m e =>
    let body :=
      if m = 0 then "0"
      else
        let (c, p) := Shortest.digits m e
        positional c p
    if neg then "-" ++ body else body

/-- The text a cell shows for a number. The sign of zero is not shown. -/
def format (x : Float) : String :=
  match Exact.ofFloat x with
  | .nan => "NaN"
  | .infinite neg => if neg then "-Infinity" else "Infinity"
  | .finite _ m _ => if m = 0 then "0" else toText x

/-- The value of a list of decimal digits. -/
def digitsValue (ds : List Char) : Nat :=
  ds.foldl (fun n d => 10 * n + (d.toNat - 48)) 0

/-- Whether the character is one of `0` to `9`. -/
def isDigit (c : Char) : Bool :=
  '0' ≤ c && c ≤ '9'

/-- The number nearest to `c · 10 ^ p`. Far outside the range of the floating-point numbers it is an infinity
or zero, whatever the digits are. -/
def ofDecimal (negative : Bool) (c : Nat) (p : Int) : Float :=
  let scale := p + Shortest.digitCount c
  let magnitude :=
    if c = 0 || scale < -400 then 0
    else if 400 < scale then infinity
    else if 0 ≤ p then Float.ofScientific c false p.toNat
    else Float.ofScientific c true (-p).toNat
  if negative then -magnitude else magnitude

/-- A sign at the front of a text, and what follows it. -/
def takeSign : List Char → Bool × List Char
  | '+' :: rest => (false, rest)
  | '-' :: rest => (true, rest)
  | cs => (false, cs)

/-- The exponent a text ends with: nothing, or `e` with an optional sign and at least one digit. -/
def readExponent : List Char → Option Int
  | [] => some 0
  | c :: rest =>
    if c == 'e' || c == 'E' then
      let (negative, ds) := takeSign rest
      if ds.isEmpty || !ds.all isDigit then none
      else some (Exact.signed negative (digitsValue ds))
    else none

/-- Reads an optional sign, digits with an optional point, and an optional exponent. -/
def readDecimal (cs : List Char) : Option Float :=
  let (negative, body) := takeSign cs
  let whole := body.takeWhile isDigit
  let rest := body.dropWhile isDigit
  let (places, rest) :=
    match rest with
    | '.' :: r => (r.takeWhile isDigit, r.dropWhile isDigit)
    | r => ([], r)
  if whole.isEmpty && places.isEmpty then none
  else
    (readExponent rest).map fun e =>
      ofDecimal negative (digitsValue (whole ++ places)) (e - places.length)

/-- Reads a number as `toText` writes it, or in any other decimal notation. Infinity may also be spelled out,
the case of letters in words does not matter, and nothing may stand around the number. -/
def read (s : String) : Option Float :=
  let (negative, body) := takeSign s.toList
  let word := String.ofList body
  if Text.equalIgnoringCase word "inf" || Text.equalIgnoringCase word "infinity" then
    some (if negative then -infinity else infinity)
  else if Text.equalIgnoringCase word "nan" then some nan
  else readDecimal s.toList

/-- Whether the character is a letter from `A` to `Z` or `a` to `z`. -/
def isLetter (c : Char) : Bool :=
  ('A' ≤ c && c ≤ 'Z') || ('a' ≤ c && c ≤ 'z')

/-- Reads the text of a cell as a number. Blanks around it are dropped and an empty text is zero. -/
def ofText (s : String) : Option Float :=
  let cs := Text.trimChars s.toList
  if cs.isEmpty then some 0 else readDecimal cs

end Spreadsheet.Number
