import Spreadsheet.Value.Order
import Spreadsheet.Value.Broadcast

/-!
Operators applied to values. Operators work element by element; on scalars the error of the left operand
goes before that of the right one.
-/

namespace Spreadsheet.Operator

/-- Whether a value is a complex number that is not real. -/
def isProperlyComplex (v : Value) : Bool :=
  match v.scalar with
  | .complex z => !z.isReal
  | _ => false

/-- The negative of a scalar. Zero has no negative sign. -/
def negate (v : Value) : Value :=
  match v.scalar with
  | .error e => .error e
  | .complex z => Value.ofComplex ⟨-z.real, -z.imaginary⟩
  | other => Value.ofExcept (fun x => Value.ofNumber (if x == 0 then 0 else -x)) other.toNumber

/-- A sign before a value. -/
def applySign (symbol : String) (v : Value) : Value :=
  if symbol == "+" then v else if symbol == "-" then v.map negate else .ofCode .expr

/-- The operations of arithmetic. -/
inductive Arithmetic where
  | add
  | subtract
  | multiply
  | divide
  | power
  | remainder
deriving DecidableEq

/-- The order relations. -/
inductive Relation where
  | less
  | greater
  | atMost
  | atLeast
deriving DecidableEq

/-- What a binary operator does. -/
inductive Meaning where
  | arithmetic (op : Arithmetic)
  | join
  | equal
  | different
  | relation (r : Relation)

/-- What the symbol of a binary operator means. -/
def meaning? (symbol : String) : Option Meaning :=
  match symbol with
  | "+" => some (.arithmetic .add)
  | "-" => some (.arithmetic .subtract)
  | "*" => some (.arithmetic .multiply)
  | "/" => some (.arithmetic .divide)
  | "^" => some (.arithmetic .power)
  | "%" => some (.arithmetic .remainder)
  | "&" => some .join
  | "=" | "==" => some .equal
  | "<>" | "!=" | "!==" => some .different
  | "<" => some (.relation .less)
  | ">" => some (.relation .greater)
  | "<=" => some (.relation .atMost)
  | ">=" => some (.relation .atLeast)
  | _ => none

/-- Whether an ordering is one that the relation admits. -/
def Relation.holds : Relation → Ordering → Bool
  | .less, o => o.isLT
  | .greater, o => o.isGT
  | .atMost, o => o.isLE
  | .atLeast, o => o.isGE

/-- Arithmetic on complex numbers. -/
def onComplex (op : Arithmetic) (a b : Complex) : Value :=
  match op with
  | .add => Value.ofComplex (a.add b)
  | .subtract => Value.ofComplex (a.sub b)
  | .multiply => Value.ofComplex (a.mul b)
  | .divide =>
    match a.div b with
    | some z => Value.ofComplex z
    | none => .ofCode .div0
  | .power | .remainder => Value.ofComplex (a.pow b)

/-- Arithmetic on numbers. -/
def onNumbers (op : Arithmetic) (x y : Float) : Value :=
  match op with
  | .add => Value.ofNumber (x + y)
  | .subtract => Value.ofNumber (x - y)
  | .multiply => Value.ofNumber (x * y)
  | .divide => if y == 0 then .ofCode .div0 else Value.ofNumber (x / y)
  | .remainder => if y == 0 then .ofCode .div0 else Value.ofNumber (Number.remainder x y)
  | .power => Value.ofNumber (Float.pow x y)

/-- The results of two coercions, the left error going first. -/
def both (a b : Except CellError α) : Except CellError (α × α) := do
  let x ← a
  let y ← b
  return (x, y)

/-- Arithmetic on scalars: on complex numbers if one operand is properly complex, except for remainders. -/
def arithmetic (op : Arithmetic) (a b : Value) : Value :=
  if op != .remainder && (isProperlyComplex a || isProperlyComplex b) then
    Value.ofExcept (fun (x, y) => onComplex op x y) (both a.toComplex b.toComplex)
  else Value.ofExcept (fun (x, y) => onNumbers op x y) (both a.toNumber b.toNumber)

/-- What a meaning gives for two scalars that are no errors. -/
def Meaning.onScalars (m : Meaning) (a b : Value) : Value :=
  match m with
  | .arithmetic op => Operator.arithmetic op a b
  | .join => .text (a.toText ++ b.toText)
  | .equal => .boolean (a.looselyEqual b)
  | .different => .boolean (!a.looselyEqual b)
  | .relation r => .boolean (((a.order b).map r.holds).getD false)

/-- A binary operator on two scalars. -/
def applyScalars (symbol : String) (a b : Value) : Value :=
  match a.scalar, b.scalar with
  | .error e, _ => .error e
  | _, .error e => .error e
  | _, _ =>
    match meaning? symbol with
    | some m => m.onScalars a b
    | none => .ofCode .expr

/-- A binary operator on two values, element by element. -/
def applyBinary (symbol : String) (a b : Value) : Value :=
  Value.zip (applyScalars symbol) a b

end Spreadsheet.Operator
