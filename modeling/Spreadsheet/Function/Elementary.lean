import Spreadsheet.Function.Arguments

/-!
Constants and elementary functions under their usual names.
-/

namespace Spreadsheet.Function

/-- A constant, given by the bits of its number. -/
def constant (name : String) (bits : UInt64) : Function :=
  plain name [] fun _ => .number (Float.ofBits bits)

/-- A function of one number. -/
def unaryFunction (name : String) (f : Float → Float) : Function :=
  plain name [] (ofOneNumber fun x => Value.ofNumber (f x))

/-- A function of two numbers. -/
def binaryFunction (name : String) (f : Float → Float → Float) : Function :=
  plain name [] (ofTwoNumbers fun x y => Value.ofNumber (f x y))

/-- The sign of a number: -1, 0 or 1. -/
def sign (x : Float) : Float :=
  if x == 0 then 0 else if x.isNaN then x else if x < 0 then -1 else 1

/-- The number rounded to single precision. -/
def single (x : Float) : Float := x.toFloat32.toFloat

/-- The square root of the sum of the squares of scalars, added up from the first on. -/
def hypotenuse (total : Float) : List Value → Value
  | [] => Value.ofNumber total
  | v :: vs =>
    match v.toNumber with
    | .ok x => hypotenuse (Number.hypot total x) vs
    | .error e => .error e

/-- Constants and elementary functions. -/
def elementary : List Function :=
  [constant "PI" 0x400921FB54442D18,
    constant "E" 0x4005BF0A8B145769,
    constant "LN2" 0x3FE62E42FEFA39EF,
    constant "LN10" 0x40026BB1BBB55516,
    constant "LOG2E" 0x3FF71547652B82FE,
    constant "LOG10E" 0x3FDBCB7B1526E50E,
    constant "SQRT2" 0x3FF6A09E667F3BCD,
    constant "SQRT1_2" 0x3FE6A09E667F3BCD,
    unaryFunction "SIN" Float.sin,
    unaryFunction "COS" Float.cos,
    unaryFunction "TAN" Float.tan,
    unaryFunction "ASIN" Float.asin,
    unaryFunction "ACOS" Float.acos,
    unaryFunction "ATAN" Float.atan,
    unaryFunction "SINH" Float.sinh,
    unaryFunction "COSH" Float.cosh,
    unaryFunction "TANH" Float.tanh,
    unaryFunction "EXP" Float.exp,
    unaryFunction "SQRT" Float.sqrt,
    unaryFunction "CBRT" Number.cubeRoot,
    unaryFunction "CEIL" Number.ceil,
    unaryFunction "FLOOR" Number.floor,
    unaryFunction "TRUNC" Number.trunc,
    unaryFunction "SIGN" sign,
    unaryFunction "LOG2" Float.log2,
    unaryFunction "LOG1P" Number.logOnePlus,
    unaryFunction "EXPM1" Number.expMinusOne,
    unaryFunction "FROUND" single,
    binaryFunction "ATAN2" Float.atan2,
    binaryFunction "POW" Float.pow,
    plain "HYPOT" [] fun vs => hypotenuse 0 (scalars vs)]

end Spreadsheet.Function
