import Spreadsheet.Value

/-!
Operations element by element. Shapes are reconciled by repeating each operand down its rows and then
across its columns, so `{1,2,3}+{10,20}` reads as `{1,2,3}+{10,20,10}`.
-/

namespace Spreadsheet.Value

/-- The columns of a value; a scalar is a single cell. -/
def columns : Value → List (List Value)
  | .array cs => cs
  | .metadata _ v _ => columns v
  | v => [[v]]

/-- A column repeated down to the given number of rows, `height` elements at a time. A column that is
long enough stays as it is. -/
def repeatDown (height rows : Nat) (column : List Value) : List Value :=
  column ++ (List.range' height (rows - height)).map fun r => column.getD (r % height) .undefined

/-- Columns repeated until there are `width` of them and each has `rows` elements; an array without
rows gives nothing everywhere. -/
def recycle (cs : List (List Value)) (width rows : Nat) : List (List Value) :=
  let h := height cs
  if h = 0 then List.replicate width (List.replicate rows .undefined)
  else
    let tall := cs.map (repeatDown h rows)
    tall ++ (List.range' tall.length (width - tall.length)).map fun c =>
      tall.getD (c % tall.length) []

/-- The number of columns and of rows that hold every operand. -/
def commonShape (vs : List Value) : Nat × Nat :=
  vs.foldl (fun (c, r) v => (max c v.shape.1, max r v.shape.2)) (0, 0)

/-- The function applied to each element of an array, or to the value itself. -/
def map (f : Value → Value) : Value → Value
  | .array cs => .array (cs.map fun c => c.map f)
  | v => f v

/-- The function applied to corresponding elements, once both operands have the same shape. -/
def zip (f : Value → Value → Value) (a b : Value) : Value :=
  if !a.isArray && !b.isArray then f a b
  else
    let (width, rows) := commonShape [a, b]
    .array (List.zipWith (List.zipWith f) (recycle a.columns width rows) (recycle b.columns width rows))

end Spreadsheet.Value
