import Spreadsheet.Expression
import Spreadsheet.Formula.Locale

/-!
Texts of expressions. The text of an expression can be moved to another place, which shifts its
relative references, and written for another locale.
-/

namespace Spreadsheet

/-- How an expression is written. -/
structure RenderOptions where
  /-- Rows by which relative references move down. -/
  rows : Int := 0
  /-- Columns by which relative references move right. -/
  columns : Int := 0
  /-- The text of an argument that is left out. -/
  missing : String := ""
  /-- The decimal mark, if it is not that of the formula. -/
  decimal : Option DecimalMark := none
  /-- The separator of arguments, if it is not that of the formula. -/
  separator : Option Separator := none
  /-- The imaginary unit, if it is not that of the formula. -/
  imaginary : Option Char := none
deriving Inhabited

namespace RenderOptions

/-- The options with the decimal mark and the separator of the locale of a decimal mark. -/
def withLocale (o : RenderOptions) (mark : DecimalMark) : RenderOptions :=
  let target := Locale.ofDecimal mark
  { o with decimal := some target.decimal, separator := some target.separator }

/-- The locale of the rendered text, when the formula was written in `source`. -/
def target (o : RenderOptions) (source : Locale) : Locale :=
  { decimal := o.decimal.getD source.decimal
    separator := o.separator.getD source.separator
    imaginary := o.imaginary.getD source.imaginary }

end RenderOptions

namespace Expression

/-- The text with one character in place of another. -/
def substitute (old new : Char) (s : String) : String :=
  String.ofList (s.toList.map fun c => if c == old then new else c)

/-- A number with the decimal mark of the locale. -/
def renderNumber (locale : Locale) (x : Float) : String :=
  match locale.decimal with
  | .period => Number.format x
  | .comma => substitute '.' ',' (Number.format x)

/-- A value as it stands in a formula. -/
def renderValue (locale : Locale) : Value → String
  | .text s => Value.doubleQuoted s
  | .number x => renderNumber locale x
  | .boolean b => if b then "TRUE" else "FALSE"
  | .undefined => ""
  | v => v.display

/-- A complex number as it stands in a formula. -/
def renderComplex (locale : Locale) (z : Complex) : String :=
  renderNumber locale z.real ++ (if 0 ≤ z.imaginary then "+" else "") ++
    renderNumber locale z.imaginary ++ locale.imaginary.toString

/-- The label of a mention moved by the offset of the options. -/
def renderMention (o : RenderOptions) (m : Mention) : String :=
  m.target.labelAt o.rows o.columns

/-- The text between marks, joined by the separator and a space. -/
def renderList (locale : Locale) (items : List String) : String :=
  (locale.separator.char.toString ++ " ").intercalate items

mutual

/-- The text of an expression that was written in the locale `source`. -/
def render (source : Locale) (o : RenderOptions) : Expression → String
  | .cell m => renderMention o m
  | .range _ r => renderMention o r.first ++ ":" ++ renderMention o r.last
  | .missing _ => o.missing
  | .array _ columns =>
    Value.braced (columns.map fun c => c.map (renderValue (o.target source)))
  | .binary _ s a b => render source o a ++ " " ++ s ++ " " ++ render source o b
  | .unary _ s a => s ++ render source o a
  | .complex _ z _ => renderComplex (o.target source) z
  | .imaginary _ x _ =>
    renderNumber (o.target source) x ++ (o.target source).imaginary.toString
  | .literal _ (.number _) (some spelling) =>
    substitute source.decimal.char (o.target source).decimal.char spelling
  | .literal _ v _ => renderValue (o.target source) v
  | .identifier _ name => name
  | .operator _ s => "[" ++ s ++ "]"
  | .group _ items explicit =>
    let body := renderList (o.target source) (renderAll source o items)
    if explicit then "(" ++ body ++ ")" else body
  | .call _ name args =>
    name ++ "(" ++ renderList (o.target source) (renderAll source o args) ++ ")"

/-- The texts of several expressions. -/
def renderAll (source : Locale) (o : RenderOptions) : List Expression → List String
  | [] => []
  | e :: es => render source o e :: renderAll source o es

end

end Expression

end Spreadsheet
