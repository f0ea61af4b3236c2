import Spreadsheet.Number.Decimal
import Spreadsheet.Text.CodeUnits

/-!
Messages as text in the JavaScript object notation. Numbers keep their text, so that nothing is lost
before it is known whether an integer or a floating-point number is wanted; objects keep their order.
-/

namespace Spreadsheet

/-- A value of the notation. -/
inductive Json where
  /-- The missing value. -/
  | null
  /-- A truth value. -/
  | boolean (b : Bool)
  /-- A number, as it is written. -/
  | number (text : String)
  /-- A text. -/
  | string (s : String)
  /-- A list of values. -/
  | array (items : List Json)
  /-- Named values in the order in which they are written. -/
  | object (fields : List (String × Json))
deriving Inhabited

namespace Json

/-- The value of a field; of several with one name the last counts. -/
def field? (name : String) : Json → Option Json
  | .object fields => (fields.reverse.find? fun f => f.1 == name).map Prod.snd
  | _ => none

/-- The items of a list. -/
def items? : Json → Option (List Json)
  | .array items => some items
  | _ => none

/-- The fields of an object. -/
def fields? : Json → Option (List (String × Json))
  | .object fields => some fields
  | _ => none

/-- The text of a string. -/
def string? : Json → Option String
  | .string s => some s
  | _ => none

/-- A truth value. -/
def boolean? : Json → Option Bool
  | .boolean b => some b
  | _ => none

/-- The integer that a number is, if it is written without a point and an exponent. A zero with a sign
is no integer. -/
def integer? : Json → Option Int
  | .number text =>
    match text.toList with
    | '-' :: ds =>
      let n := Number.digitsValue ds
      if ds.all Number.isDigit && n != 0 then some (-(n : Int)) else none
    | ds => if ds.all Number.isDigit then some (Number.digitsValue ds) else none
  | _ => none

/-- The natural number below the bound that a number is. -/
def natural? (bound : Nat) (j : Json) : Option Nat :=
  match j.integer? with
  | some (.ofNat n) => if n < bound then some n else none
  | _ => none

/-- The floating-point number nearest to a number. -/
def float? : Json → Option Float
  | .number text => Number.readDecimal text.toList
  | _ => none

/-- The value of a hexadecimal digit. -/
def hexDigit? (c : Char) : Option Nat :=
  if Number.isDigit c then some (c.toNat - 48)
  else if 'a' ≤ c && c ≤ 'f' then some (c.toNat - 87)
  else if 'A' ≤ c && c ≤ 'F' then some (c.toNat - 55)
  else none

/-- The code unit of four hexadecimal digits. -/
def unitOfHex? (a b c d : Char) : Option Nat := do
  return (((← hexDigit? a) * 16 + (← hexDigit? b)) * 16 + (← hexDigit? c)) * 16 + (← hexDigit? d)

/-- The character that an escape of one letter stands for. -/
def escaped? : Char → Option Char
  | '"' => some '"'
  | '\\' => some '\\'
  | '/' => some '/'
  | 'b' => some '\x08'
  | 'f' => some '\x0c'
  | 'n' => some '\n'
  | 'r' => some '\r'
  | 't' => some '\t'
  | _ => none

/-- Reads the rest of a string up to its closing quote, as code units in reverse. -/
def readUnits : List Char → List Nat → Option (List Nat × List Char)
  | [], _ => none
  | '"' :: rest, us => some (us, rest)
  | '\\' :: 'u' :: a :: b :: c :: d :: rest, us =>
    match unitOfHex? a b c d with
    | some u => readUnits rest (u :: us)
    | none => none
  | '\\' :: c :: rest, us =>
    match escaped? c with
    | some e => readUnits rest (e.toNat :: us)
    | none => none
  | c :: rest, us => readUnits rest ((Text.unitsOfChar c).reverse ++ us)

/-- Reads the rest of a string up to its closing quote. -/
def readString (cs : List Char) : Option (String × List Char) :=
  (readUnits cs []).map fun (us, rest) => (Text.ofUnits us.reverse, rest)

/-- Drops the space between values. -/
def skipSpace (cs : List Char) : List Char :=
  cs.dropWhile fun c => c == ' ' || c == '\n' || c == '\r' || c == '\t'

/-- Whether the character may stand in a number. -/
def isNumberChar (c : Char) : Bool :=
  Number.isDigit c || c == '-' || c == '+' || c == '.' || c == 'e' || c == 'E'

mutual

/-- Reads one value, nested at most `depth` deep. -/
def readValue (depth : Nat) (cs : List Char) : Option (Json × List Char) :=
  match depth with
  | 0 => none
  | depth + 1 =>
    match skipSpace cs with
    | 'n' :: 'u' :: 'l' :: 'l' :: rest => some (.null, rest)
    | 't' :: 'r' :: 'u' :: 'e' :: rest => some (.boolean true, rest)
    | 'f' :: 'a' :: 'l' :: 's' :: 'e' :: rest => some (.boolean false, rest)
    | '"' :: rest => (readString rest).map fun (s, rest) => (.string s, rest)
    | '[' :: rest =>
      match skipSpace rest with
      | ']' :: rest => some (.array [], rest)
      | rest => readItems depth rest []
    | '\x7b' :: rest =>
      match skipSpace rest with
      | '\x7d' :: rest => some (.object [], rest)
      | rest => readFields depth rest []
    | rest =>
      let text := rest.takeWhile isNumberChar
      if text.isEmpty then none
      else some (.number (String.ofList text), rest.dropWhile isNumberChar)

/-- Reads the items of a list; `items` holds those already read, in reverse. -/
def readItems (depth : Nat) (cs : List Char) (items : List Json) : Option (Json × List Char) :=
  match depth with
  | 0 => none
  | depth + 1 =>
    match readValue depth cs with
    | none => none
    | some (item, rest) =>
      match skipSpace rest with
      | ',' :: rest => readItems depth rest (item :: items)
      | ']' :: rest => some (.array (item :: items).reverse, rest)
      | _ => none

/-- Reads the fields of an object; `fields` holds those already read, in reverse. -/
def readFields (depth : Nat) (cs : List Char) (fields : List (String × Json)) :
    Option (Json × List Char) :=
  match depth with
  | 0 => none
  | depth + 1 =>
    match skipSpace cs with
    | '"' :: rest =>
      match readString rest with
      | none => none
      | some (name, rest) =>
        match skipSpace rest with
        | ':' :: rest =>
          match readValue depth rest with
          | none => none
          | some (value, rest) =>
            match skipSpace rest with
            | ',' :: rest => readFields depth rest ((name, value) :: fields)
            | '\x7d' :: rest => some (.object ((name, value) :: fields).reverse, rest)
            | _ => none
        | _ => none
    | _ => none

end

/-- Reads a text that holds one value. Each step of a reader uses up a character, so a text is never
nested deeper than its length. -/
def parse (s : String) : Option Json :=
  let cs := s.toList
  match readValue (cs.length + 1) cs with
  | some (j, rest) => if (skipSpace rest).isEmpty then some j else none
  | none => none

/-- A character inside a string. -/
def writeChar (c : Char) : List Char :=
  match c with
  | '"' => ['\\', '"']
  | '\\' => ['\\', '\\']
  | '\n' => ['\\', 'n']
  | c =>
    if c.toNat < 32 then
      ['\\', 'u', '0', '0', if c.toNat < 16 then '0' else '1', Nat.digitChar (c.toNat % 16)]
    else [c]

/-- A string with its quotes. -/
def writeString (s : String) : String :=
  String.ofList ('"' :: s.toList.flatMap writeChar ++ ['"'])

mutual

/-- The text of a value, without spaces. -/
def write : Json → String
  | .null => "null"
  | .boolean b => if b then "true" else "false"
  | .number text => text
  | .string s => writeString s
  | .array items => "[" ++ ",".intercalate (writeItems items) ++ "]"
  | .object fields => "\x7b" ++ ",".intercalate (writeFields fields) ++ "\x7d"

/-- The texts of the items of a list. -/
def writeItems : List Json → List String
  | [] => []
  | item :: items => write item :: writeItems items

/-- The texts of the fields of an object. -/
def writeFields : List (String × Json) → List String
  | [] => []
  | (name, value) :: fields => (writeString name ++ ":" ++ write value) :: writeFields fields

end

end Json

end Spreadsheet
