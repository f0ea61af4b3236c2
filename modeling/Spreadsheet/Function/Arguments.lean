import Spreadsheet.Function
import Spreadsheet.Value.Coercion
import Spreadsheet.Value.Broadcast

/-!
Arguments of functions. Functions of numbers are applied element by element when an argument is an
array; functions of ranges see all scalars of all arguments.
-/

namespace Spreadsheet.Function

/-- The argument at an index; an argument that is left out is nothing. -/
def argument (vs : List Value) (i : Nat) : Value := vs.getD i .undefined

/-- The scalars of all arguments, arrays column by column. -/
def scalars (vs : List Value) : List Value := vs.flatMap Value.flatten

/-- The operands at one place of arrays of a common shape. -/
def operandsAt (recycled : List (List (List Value))) (c r : Nat) : List Value :=
  recycled.map fun columns => (columns.getD c []).getD r .undefined

/-- Applies a function to the elements of the arguments, which are brought to a common shape; without an
array among them it is applied once. -/
def elementwiseM [Monad m] (f : List Value → m Value) (vs : List Value) : m Value :=
  if vs.any Value.isArray then do
    let (width, rows) := Value.commonShape vs
    let recycled := vs.map fun v => Value.recycle v.columns width rows
    let columns ← (List.range width).mapM fun c =>
      (List.range rows).mapM fun r => f (operandsAt recycled c r)
    return .array columns
  else f vs

/-- Applies a function without effects element by element. -/
def elementwise (f : List Value → Value) (vs : List Value) : Value :=
  Id.run (elementwiseM (fun xs => pure (f xs)) vs)

/-- Applies a function of a number to the first argument. -/
def ofOneNumber (f : Float → Value) (vs : List Value) : Value :=
  elementwise (fun xs => Value.ofExcept f (argument xs 0).toNumber) (vs.take 1)

/-- The numbers of two values. -/
def twoNumbers (x y : Value) : Except CellError (Float × Float) := do
  let a ← x.toNumber
  let b ← y.toNumber
  return (a, b)

/-- Applies a function of two numbers to the first two arguments, with effects. -/
def ofTwoNumbersM [Monad m] (f : Float → Float → m Value) (vs : List Value) : m Value :=
  elementwiseM
    (fun xs =>
      match twoNumbers (argument xs 0) (argument xs 1) with
      | .ok (x, y) => f x y
      | .error e => pure (.error e))
    (vs.take 2)

/-- Applies a function of two numbers to the first two arguments. -/
def ofTwoNumbers (f : Float → Float → Value) (vs : List Value) : Value :=
  Id.run (ofTwoNumbersM (fun x y => pure (f x y)) vs)

/-- The numbers among some scalars, up to the first error; texts and truth values are passed over. -/
def numbersOf : List Value → Except CellError (List Float)
  | [] => .ok []
  | .number x :: vs => (numbersOf vs).map (x :: ·)
  | .error e :: _ => .error e
  | _ :: vs => numbersOf vs

/-- The numbers in the arguments. -/
def numbers (vs : List Value) : Except CellError (List Float) := numbersOf (scalars vs)

/-- Whether a value counts as true: zero, an empty text, nothing and errors do not. -/
def isTrue (v : Value) : Bool :=
  match v.scalar with
  | .undefined | .error _ => false
  | .number x => x != 0 && !x.isNaN
  | .text s => !s.isEmpty
  | .boolean b => b
  | .complex z => z.real != 0 || z.imaginary != 0
  | .array _ | .metadata _ _ _ => true

/-- A function without effects that does not depend on where it is called. -/
def plain (name : String) (parameters : List Parameter) (f : List Value → Value)
    (description : String := "") : Function :=
  { name, description, parameters, apply := fun _ vs => pure (f vs) }

end Spreadsheet.Function
