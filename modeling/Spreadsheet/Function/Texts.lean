import Spreadsheet.Function.Arguments

/-!
Texts: joining, hexadecimal numbers, and facts about cells.
-/

namespace Spreadsheet.Function

/-- The value of a hexadecimal digit in either case. -/
def hexValue? (c : Char) : Option Nat :=
  if Number.isDigit c then some (c.toNat - 48)
  else if 'a' ≤ c && c ≤ 'f' then some (c.toNat - 87)
  else if 'A' ≤ c && c ≤ 'F' then some (c.toNat - 55)
  else none

/-- The value of hexadecimal digits, of which there must be at least one. -/
def hexDigits? (cs : List Char) : Option Nat :=
  if cs.isEmpty then none
  else cs.foldl (fun n c => n.bind fun n => (hexValue? c).map (16 * n + ·)) (some 0)

/-- The integer a hexadecimal text with an optional sign stands for, if 64 bits hold it. -/
def hexInteger? (cs : List Char) : Option Int :=
  let (negative, ds) := Number.takeSign cs
  match hexDigits? ds with
  | some n =>
    let i := Number.Exact.signed negative n
    if -0x8000000000000000 ≤ i && i ≤ 0x7FFFFFFFFFFFFFFF then some i else none
  | none => none

/-- The number of a hexadecimal text. -/
def ofHex (v : Value) : Value :=
  let s := v.toText
  match hexInteger? (Text.trimChars s.toList) with
  | some i => .number (Number.ofInt i)
  | none => .explained .value ("not hexadecimal: " ++ Text.quoted s)

/-- The integer part of a number in hexadecimal digits, with a minus if it is negative. -/
def hexText (x : Float) : Value :=
  if x.isFinite && x.abs < 9223372036854775808 then
    let i := Number.clampWord x
    .text ((if i < 0 then "-" else "") ++ String.ofList (Nat.toDigits 16 i.natAbs))
  else .explained .value ("out of range: " ++ Number.toText x)

/-- The hexadecimal text of a value. -/
def toHex (v : Value) : Value := Value.ofExcept hexText v.toNumber

/-- What is to be known about a cell: its label or its format. -/
def cellInfo (vs : List Value) : Value :=
  match argument vs 1 with
  | .metadata p _ format =>
    let kind := (argument vs 0).toText
    if Text.lower kind == "address" then .text p.label
    else if Text.lower kind == "format" then
      match format with
      | some f => .text f
      | none => .ofCode .ref
    else .explained .value ("unsupported info type: " ++ kind)
  | _ => .ofCode .ref

/-- Texts and hexadecimal numbers. -/
def texts : List Function :=
  [plain "CONCATENATE" [] fun vs => .text (String.join ((scalars vs).map Value.toText)),
    plain "HEX2DEC" [{ name := "hexadecimal string" }] fun vs =>
      elementwise (fun xs => ofHex (argument xs 0)) (vs.take 1),
    plain "DEC2HEX" [{ name := "number" }] fun vs =>
      elementwise (fun xs => toHex (argument xs 0)) (vs.take 1)]

/-- Facts about cells. -/
def information : List Function :=
  [plain "CELL" [{ name := "type" }, { name := "reference", passing := .metadata }] cellInfo
      "Returns data about a cell"]

end Spreadsheet.Function
