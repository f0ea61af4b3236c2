import Spreadsheet.Function.Arguments

/-!
Powers, logarithms, rounding and the normal distribution. All of them work element by element.
-/

namespace Spreadsheet.Function

/-- The remainder with the sign of the dividend; there is none by zero. -/
def modulo (x y : Float) : Value :=
  if y == 0 then .ofCode .div0 else Value.ofNumber (Number.remainder x y)

/-- The power of ten whose exponent is the integer part of `digits`. -/
def decimalScale (digits : Float) : Float :=
  Float.pow 10 (Number.trunc digits)

/-- Rounds at a number of decimal places by a rounding to integers. -/
def roundPlaces (rounding : Float → Float) (x digits : Float) : Value :=
  let scale := decimalScale digits
  Value.ofNumber (rounding (x * scale) / scale)

/-- One with the sign of the number. -/
def signOne (x : Float) : Float :=
  if x.isNaN then x else if Number.isSignNegative x then -1 else 1

/-- Rounds to a number of significant digits; zero digits mean two. -/
def significant (x digits : Float) : Value :=
  let digits := if digits == 0 then 2 else digits
  if x == 0 then .number 0
  else
    let magnitude := x.abs
    let unit := Float.pow 10 (Number.floor (Float.log10 magnitude) + 1 - digits)
    Value.ofNumber (Number.round (magnitude / unit) * unit * signOne x)

/-- The absolute value of a scalar, which is the modulus of a complex number. -/
def absolute (v : Value) : Value :=
  match v.scalar with
  | .complex z => Value.ofNumber z.modulus
  | other => Value.ofExcept (fun x => .number x.abs) other.toNumber

/-- The error function by a rational approximation whose error is at most 1.5e-7. -/
def errorFunction (x : Float) : Float :=
  let sign : Float := if x < 0 then -1 else 1
  let x := x.abs
  let t := 1 / (1 + 0.3275911 * x)
  let poly :=
    ((((1.061405429 * t + -1.453152027) * t + 1.421413741) * t + -0.284496736) * t + 0.254829592) * t
  let y := 1 - poly * Float.exp (-x * x)
  sign * y

/-- The square root of two. -/
def sqrtTwo : Float := Float.ofBits 0x3FF6A09E667F3BCD

/-- The numbers of three values. -/
def threeNumbers (xs : List Value) : Except CellError (Float × Float × Float) := do
  let a ← (argument xs 0).toNumber
  let b ← (argument xs 1).toNumber
  let c ← (argument xs 2).toNumber
  return (a, b, c)

/-- The cumulative normal distribution of a value, a mean and a deviation above zero. -/
def normal (xs : List Value) : Value :=
  match threeNumbers xs with
  | .ok (x, mean, deviation) =>
    if 0 < deviation then
      Value.ofNumber (0.5 * (1 + errorFunction ((x - mean) / (deviation * sqrtTwo))))
    else .ofCode .value
  | .error e => .error e

/-- Degrees as radians. -/
def radians (x : Float) : Value := .number (x * (Number.pi / 180))

/-- Radians as degrees. -/
def degrees (x : Float) : Value := .number (x * (180 / Number.pi))

/-- Powers, logarithms, rounding and distributions. -/
def arithmetic : List Function :=
  [plain "POWER" [{ name := "base" }, { name := "exponent" }]
      (ofTwoNumbers fun x y => Value.ofNumber (Float.pow x y)),
    plain "MOD" [{ name := "number" }, { name := "divisor" }] (ofTwoNumbers modulo),
    plain "LOG" [{ name := "number" }, { name := "base", default := some (.number 10) }]
      (ofTwoNumbers fun x base => Value.ofNumber (Float.log x / Float.log base)),
    plain "LOG10" [] (ofOneNumber fun x => Value.ofNumber (Float.log10 x)),
    plain "LN" [] (ofOneNumber fun x => Value.ofNumber (Float.log x)),
    plain "ROUND" [{ name := "number" }, { name := "digits", default := some (.number 0) }]
      (ofTwoNumbers (roundPlaces Number.round)),
    plain "ROUNDDOWN" [{ name := "number" }, { name := "digits", default := some (.number 0) }]
      (ofTwoNumbers (roundPlaces Number.trunc)),
    plain "SIMPLIFY"
      [{ name := "value" }, { name := "significant digits", default := some (.number 2) }]
      (ofTwoNumbers significant),
    plain "ABS" [] fun vs => elementwise (fun xs => absolute (argument xs 0)) (vs.take 1),
    plain "ERF" [] (ofOneNumber fun x => Value.ofNumber (errorFunction x)),
    plain "NORM.DIST"
      [{ name := "value" }, { name := "mean", default := some (.number 0) },
        { name := "standard deviation", default := some (.number 1) }]
      (fun vs => elementwise normal (vs.take 3)) "Cumulative normal distribution",
    plain "RADIANS" [{ name := "degrees" }] (ofOneNumber radians) "Converts degrees to radians",
    plain "DEGREES" [{ name := "radians" }] (ofOneNumber degrees) "Converts radians to degrees"]

end Spreadsheet.Function
