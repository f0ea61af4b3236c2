import Spreadsheet.Number.Exact

/-!
Powers, roots and logarithms that are built from the basic operations.
-/

namespace Spreadsheet.Number

/-- One step of repeated squaring: `result · base ^ n`. -/
def powerStep (result base : Float) (n : Nat) : Float :=
  let result := if n % 2 = 1 then result * base else result
  if n / 2 = 0 then result else powerStep result (base * base) (n / 2)
termination_by n
decreasing_by omega

/-- The power with an integer exponent, by repeated squaring; a negative exponent takes the reciprocal
of the positive power. -/
def power (x : Float) (n : Int) : Float :=
  let magnitude := powerStep 1 x n.natAbs
  if n < 0 then 1 / magnitude else magnitude

/-- The greatest natural number whose power with the given exponent is at most `n`, found bit by bit from
`2 ^ bits` down. -/
def rootBits (n exponent : Nat) : Nat → Nat → Nat
  | 0, root => root
  | bits + 1, root =>
    let next := root + 1 <<< bits
    rootBits n exponent bits (if Nat.pow next exponent ≤ n then next else root)

/-- The integer root with the given exponent, which is not zero. -/
def rootNat (n exponent : Nat) : Nat :=
  rootBits n exponent (n.log2 / exponent + 1) 0

/-- The root of `±m · 2 ^ (exponent · e)`, correctly rounded. It is taken with spare bits, and a last bit
tells that something was cut off. -/
def exactRoot (exponent : Nat) (negative : Bool) (m : Nat) (e : Int) : Float :=
  let spare : Nat := 120
  let scaled := m <<< (exponent * spare)
  let root := rootNat scaled exponent
  let sticky := if Nat.pow root exponent = scaled then 0 else 1
  Exact.toFloat (.finite negative (2 * root + sticky) (e - spare - 1))

/-- The length of the hypotenuse over legs `x` and `y`, correctly rounded. -/
def hypot (x y : Float) : Float :=
  match Exact.ofFloat x, Exact.ofFloat y with
  | .infinite _, _ | _, .infinite _ => infinity
  | .nan, _ | _, .nan => nan
  | .finite _ m e, .finite _ n k =>
    let low := min e k
    let a := m <<< (e - low).toNat
    let b := n <<< (k - low).toNat
    exactRoot 2 false (a * a + b * b) low

/-- The cube root, correctly rounded. -/
def cubeRoot (x : Float) : Float :=
  match Exact.ofFloat x with
  | .finite negative m e => exactRoot 3 negative (m <<< (e % 3).toNat) (e / 3)
  | _ => x

/-- The natural logarithm of `1 + x`, accurate for small `x`. -/
def logOnePlus (x : Float) : Float :=
  let u := 1 + x
  if u == 1 then x else if u.isInf then u else Float.log u * (x / (u - 1))

/-- The exponential less one, accurate for small `x`. -/
def expMinusOne (x : Float) : Float :=
  let u := Float.exp x
  if u == 1 then x
  else
    let d := u - 1
    if d == -1 || u.isInf then d else d * (x / Float.log u)

/-- The circle constant. -/
def pi : Float := Float.ofBits 0x400921FB54442D18

end Spreadsheet.Number
