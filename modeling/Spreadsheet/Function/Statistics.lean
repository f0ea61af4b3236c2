import Spreadsheet.Function.Arguments

/-!
Sums, means and counts. They see all scalars of their arguments; what is no number is passed over or
counts as zero, and errors come through.
-/

namespace Spreadsheet.Function

/-- A sum that is being taken, and whether a complex number has been seen. -/
structure Total where
  /-- The sum so far. -/
  sum : Complex := ⟨0, 0⟩
  /-- Whether one of the terms is complex. -/
  isComplex : Bool := false

/-- Adds scalars to a sum. Truth values count as 0 or 1; the first error ends the sum. -/
def addAll (t : Total) : List Value → Value
  | [] => if t.isComplex then Value.ofComplex t.sum else Value.ofNumber t.sum.real
  | .number x :: vs => addAll { t with sum.real := t.sum.real + x } vs
  | .boolean b :: vs => addAll { t with sum.real := t.sum.real + (if b then 1 else 0) } vs
  | .complex z :: vs => addAll ⟨t.sum.add z, true⟩ vs
  | .error e :: _ => .error e
  | _ :: vs => addAll t vs

/-- Multiplies scalars, nothing being passed over. -/
def multiplyAll (product : Float) : List Value → Value
  | [] => Value.ofNumber product
  | v :: vs =>
    if v.isUndefined then multiplyAll product vs
    else
      match v.toNumber with
      | .ok x => multiplyAll (product * x) vs
      | .error e => .error e

/-- The sum of numbers, from the first on. -/
def sumOf (xs : List Float) : Float :=
  xs.foldl (· + ·) (-0)

/-- The mean of the numbers in the arguments. -/
def mean (vs : List Value) : Value :=
  match numbers vs with
  | .ok [] => .ofCode .div0
  | .ok xs => Value.ofNumber (sumOf xs / Number.ofNat xs.length)
  | .error e => .error e

/-- The number among the arguments that a choice between two numbers leads to; without any it is zero. -/
def extreme (choose : Float → Float → Float) (vs : List Value) : Value :=
  match numbers vs with
  | .ok [] => Value.ofNumber 0
  | .ok (x :: xs) => Value.ofNumber (xs.foldl choose x)
  | .error e => .error e

/-- How many scalars satisfy a test, counted in a word of 64 bits. -/
def countOf (test : Value → Bool) (vs : List Value) : Value :=
  .number (Number.ofNat ((scalars vs).countP test).toUInt64.toNat)

/-- Whether the value is a plain number. -/
def isNumber : Value → Bool
  | .number _ => true
  | _ => false

/-- The factor that a scalar contributes to a product of a row; what is no number counts as zero. -/
def factorOf : Value → Except CellError Float
  | .number x => .ok x
  | .boolean b => .ok (if b then 1 else 0)
  | .error e => .error e
  | _ => .ok 0

/-- The product of a row of scalars, up to the first error. -/
def rowProduct (product : Float) : List Value → Except CellError Float
  | [] => .ok product
  | v :: vs =>
    match factorOf v with
    | .ok x => rowProduct (product * x) vs
    | .error e => .error e

/-- The sum of the products of rows, up to the first error. -/
def sumOfProducts (sum : Float) : List (List Value) → Value
  | [] => Value.ofNumber sum
  | row :: rows =>
    match rowProduct 1 row with
    | .ok x => sumOfProducts (sum + x) rows
    | .error e => .error e

/-- The sum of pairwise products of ranges, which must have the same number of cells. -/
def sumProduct (vs : List Value) : Value :=
  let ranges := vs.map Value.flatten
  match ranges.head? with
  | none => .ofCode .range
  | some first =>
    if first.isEmpty || ranges.any (fun r => r.length != first.length) then .ofCode .range
    else
      sumOfProducts 0 ((List.range first.length).map fun i =>
        ranges.map fun r => r.getD i .undefined)

/-- Sums, means and counts. -/
def statistics : List Function :=
  [plain "SUM" [{ name := "values or ranges", anyValue := true }] (fun vs => addAll {} (scalars vs))
      "Adds arguments and ranges",
    plain "PRODUCT" [] fun vs => multiplyAll 1 (scalars vs),
    plain "AVERAGE" [] mean "Returns the arithmetic mean of all numeric arguments",
    plain "MAX" [] (extreme Number.greater),
    plain "MIN" [] (extreme Number.lesser),
    plain "COUNT" [] (countOf isNumber) "Counts cells that contain numbers",
    plain "COUNTA" [] (countOf fun v => !v.isUndefined) "Counts cells that are not empty",
    plain "SUMPRODUCT" [] sumProduct "Returns the sum of pairwise products of two or more ranges"]

end Spreadsheet.Function
