import Spreadsheet.Function.Arguments

/-!
Complex numbers taken apart and put together.
-/

namespace Spreadsheet.Function

/-- A scalar as a complex number: numbers, nothing and the empty text are real numbers. -/
def complexOf? (v : Value) : Option Complex :=
  match v.scalar with
  | .complex z => some z
  | .number x => some ⟨x, 0⟩
  | .undefined => some ⟨0, 0⟩
  | .text s => if s.isEmpty then some ⟨0, 0⟩ else none
  | _ => none

/-- Applies a function of a complex number to the first argument. -/
def ofOneComplex (f : Complex → Value) (vs : List Value) : Value :=
  elementwise
    (fun xs =>
      match complexOf? (argument xs 0) with
      | some z => f z
      | none => .explained .value "expected a complex number")
    (vs.take 1)

/-- A function of one complex number. -/
def complexFunction (name : String) (f : Complex → Value) (description : String) : Function :=
  plain name [{ name := "value", anyValue := true }] (ofOneComplex f) description

/-- Whether a cell holds a complex number that is not real. -/
def holdsComplex : Value → Bool
  | .metadata _ (.complex z) _ => !z.isReal
  | _ => false

/-- The principal logarithm; zero has none. -/
def complexLogarithm (z : Complex) : Value :=
  if z.isZero then .explained .value "logarithm of zero" else Value.ofComplex z.log

/-- Functions of complex numbers. -/
def complexNumbers : List Function :=
  [plain "ISCOMPLEX" [{ name := "reference", passing := .metadata }]
      (fun vs => .boolean (holdsComplex (argument vs 0)))
      "Returns true if the reference is a complex number",
    complexFunction "REAL" (fun z => .number z.real) "Returns the real part of a complex number",
    complexFunction "IMAGINARY" (fun z => .number z.imaginary)
      "Returns the imaginary part of a complex number (as real)",
    complexFunction "CONJUGATE" (fun z => Value.ofComplex z.conjugate)
      "Returns the conjugate of a complex number",
    complexFunction "ARG" (fun z => Value.ofNumber z.phase)
      "Returns the principal argument of a complex number",
    plain "RECTANGULAR"
      [{ name := "r", default := some (.number 0) },
        { name := "θ in radians", default := some (.number 0) }]
      (ofTwoNumbers fun r phase => Value.ofComplex (Complex.ofPolar r phase))
      "Converts a complex number in polar form to rectangular form",
    complexFunction "COMPLEX" .complex
      "Ensures that the given value will be treated as a complex number",
    complexFunction "COMPLEXLOG" complexLogarithm
      "Returns the principal value Log(z) of a complex number z"]

end Spreadsheet.Function
