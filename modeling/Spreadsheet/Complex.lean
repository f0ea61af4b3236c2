import Spreadsheet.Number.Decimal
import Spreadsheet.Number.Elementary

/-!
Complex numbers in rectangular form: arithmetic, the principal logarithm and powers, and their text.
-/

namespace Spreadsheet

/-- A complex number. -/
structure Complex where
  /-- The real part. -/
  real : Float
  /-- The imaginary part. -/
  imaginary : Float

namespace Complex

/-- The complex number of a real one. -/
def ofReal (x : Float) : Complex := ⟨x, 0⟩

/-- The imaginary unit. -/
def unit : Complex := ⟨0, 1⟩

/-- The number of a modulus and a phase in radians. -/
def ofPolar (modulus phase : Float) : Complex :=
  ⟨modulus * Float.cos phase, modulus * Float.sin phase⟩

/-- Part by part, as floating-point numbers compare. -/
instance : BEq Complex where
  beq a b := a.real == b.real && a.imaginary == b.imaginary

/-- Whether the imaginary part is zero. -/
def isReal (a : Complex) : Bool := a.imaginary == 0

/-- Whether both parts are zero. -/
def isZero (a : Complex) : Bool := a.real == 0 && a.imaginary == 0

/-- The modulus. -/
def modulus (a : Complex) : Float := Number.hypot a.real a.imaginary

/-- The phase in radians. -/
def phase (a : Complex) : Float := Float.atan2 a.imaginary a.real

/-- The complex conjugate. -/
def conjugate (a : Complex) : Complex := ⟨a.real, -a.imaginary⟩

/-- The sum. -/
def add (a b : Complex) : Complex := ⟨a.real + b.real, a.imaginary + b.imaginary⟩

/-- The difference. -/
def sub (a b : Complex) : Complex := ⟨a.real - b.real, a.imaginary - b.imaginary⟩

/-- The product. -/
def mul (a b : Complex) : Complex :=
  ⟨a.real * b.real - a.imaginary * b.imaginary, a.real * b.imaginary + a.imaginary * b.real⟩

/-- The quotient; there is none by zero. -/
def div (a b : Complex) : Option Complex :=
  let d := b.real * b.real + b.imaginary * b.imaginary
  if d == 0 then none
  else
    some ⟨(a.real * b.real + a.imaginary * b.imaginary) / d,
      (a.imaginary * b.real - a.real * b.imaginary) / d⟩

/-- The principal natural logarithm. -/
def log (a : Complex) : Complex := ⟨Float.log a.modulus, a.phase⟩

/-- The exponential. -/
def exp (a : Complex) : Complex := ofPolar (Float.exp a.real) a.imaginary

/-- The principal power. Zero to the power zero is one, to any other power zero. -/
def pow (a b : Complex) : Complex :=
  if a.isZero then (if b.isZero then ⟨1, 0⟩ else ⟨0, 0⟩)
  else (a.log.mul b).exp

/-- Both parts rounded to the given number of decimal places, without negative zeros. -/
def simplify (a : Complex) (places : Int) : Complex :=
  let scale := Number.power 10 places
  let tidy (v : Float) : Float :=
    let r := Number.round (v * scale) / scale
    if r == 0 then 0 else r
  ⟨tidy a.real, tidy a.imaginary⟩

/-- The text of a complex number with the given symbol for the imaginary unit, such as `3-2j`. -/
def textWith (a : Complex) (symbol : Char) : String :=
  let plus := if a.imaginary < 0 then "" else "+"
  Number.format a.real ++ plus ++ Number.format a.imaginary ++ symbol.toString

/-- The text of a complex number with `i` for the imaginary unit. -/
def toText (a : Complex) : String := a.textWith 'i'

end Complex

end Spreadsheet
