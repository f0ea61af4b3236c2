import Spreadsheet.Function.Arguments
import Spreadsheet.Value.Order

/-!
Tables: look-ups, sorting and turning.
-/

namespace Spreadsheet.Function

/-- The row of the numeric key nearest to a number, the first one if several are equally near; `best` is
the distance and the row found so far, and `row` is the row of the next key. -/
def nearestRow (target : Float) (best : Option (Float × Nat)) (row : Nat) :
    List Value → Option (Float × Nat)
  | [] => best
  | key :: keys =>
    match key.scalar with
    | .number k =>
      let distance := (k - target).abs
      let closer : Bool :=
        match best with
        | some (d, _) => decide (distance < d)
        | none => true
      nearestRow target (if closer then some (distance, row) else best) (row + 1) keys
    | _ => nearestRow target best (row + 1) keys

/-- The result beside the key nearest to a value. -/
def lookUpNearest (value : Value) (keys results : List Value) : Value :=
  match value.toNumber with
  | .error _ => .ofCode .na
  | .ok target =>
    match nearestRow target none 0 keys with
    | some (_, row) => results.getD row .undefined
    | none => .ofCode .na

/-- The result beside the first key that equals a value. -/
def lookUpEqual (value : Value) (keys results : List Value) : Value :=
  match keys.findIdx? fun key => key.looselyEqual value with
  | some row => results.getD row (.ofCode .na)
  | none => .ofCode .na

/-- Looks a value up in the first column of a table and gives what stands beside it in another column. -/
def lookUp (vs : List Value) : Value :=
  let table := (argument vs 1).columns
  match (argument vs 2).toNumber with
  | .error e => .error e
  | .ok n =>
    let column := (Number.clampWord n - 1).toNat
    match table.head?, table[column]? with
    | some keys, some results =>
      if isTrue (argument vs 3) then lookUpNearest (argument vs 0) keys results
      else lookUpEqual (argument vs 0) keys results
    | _, _ => .ofCode .ref

/-- The total order of numbers: a negative zero comes before a positive one, what is no number last. -/
def totalAtMost (x y : Float) : Bool :=
  if y.isNaN then true
  else if x.isNaN then false
  else x < y || (x == y && (Number.isSignNegative x || !Number.isSignNegative y))

/-- The order of two values that are numbers. -/
def numberAtMost : Value → Value → Bool
  | .number x, .number y => totalAtMost x y
  | _, _ => true

/-- Whether the value is a number. -/
def isPlainNumber : Value → Bool
  | .number _ => true
  | _ => false

/-- All scalars in order: of numbers if all are numbers, of their texts otherwise. -/
def sorted (vs : List Value) : List Value :=
  let values := scalars vs
  if values.all isPlainNumber then values.mergeSort numberAtMost
  else values.mergeSort fun a b => (compare a.toText b.toText).isLE

/-- An array with its rows as columns. -/
def transpose : Value → Value
  | .array columns => .array ((List.range (Value.height columns)).map (Value.rowAt columns))
  | v => v

/-- A column upside down, a wider array from right to left, a text backward. -/
def reverse : Value → Value
  | .array [column] => .array [column.reverse]
  | .array columns => .array columns.reverse
  | v => .text (String.ofList v.toText.toList.reverse)

/-- Look-ups, sorting and turning. -/
def tables : List Function :=
  [plain "VLOOKUP"
      [{ name := "value" }, { name := "table" }, { name := "column" },
        { name := "inexact", default := some (.boolean true) }]
      lookUp,
    plain "SORT" [{ name := "values" }] fun vs => .array [sorted vs],
    plain "TRANSPOSE" [{ name := "matrix", anyValue := true }] (fun vs => transpose (argument vs 0))
      "Returns transpose of input matrix",
    plain "REVERSE" [{ name := "values", anyValue := true }] fun vs => reverse (argument vs 0)]

end Spreadsheet.Function
