import Spreadsheet.Text.Printable
import Spreadsheet.Value

/-!
Coercions of values to numbers, complex numbers, truth values and texts, and the checks that keep
results finite. A coercion sees through metadata and arrays of one cell, and hands errors on.
-/

namespace Spreadsheet.Value

/-- The value as a number. Truth values count as 1 and 0, nothing as 0, and a text as the number it
spells. -/
def toNumber (v : Value) : Except CellError Float :=
  match v.scalar with
  | .number x => .ok x
  | .boolean b => .ok (if b then 1 else 0)
  | .undefined => .ok 0
  | .text s =>
    match Number.ofText s with
    | some x => .ok x
    | none => .error (.explained .value ("not a number: " ++ Text.quoted s))
  | .complex z => if z.isReal then .ok z.real else .error ⟨.value, none⟩
  | .error e => .error e
  | .array _ | .metadata _ _ _ => .error ⟨.value, none⟩

/-- The value as a complex number; what is none itself is taken as a real number. -/
def toComplex (v : Value) : Except CellError Complex :=
  match v.scalar with
  | .complex z => .ok z
  | other => other.toNumber.map Complex.ofReal

/-- The truth value a text spells: `true` and `false` in any case, else a number other than zero. -/
def textToBool (s : String) : Except CellError Bool :=
  let t := Text.trim s
  if Text.equalIgnoringCase t "true" then .ok true
  else if Text.equalIgnoringCase t "false" || t.isEmpty then .ok false
  else
    match Number.ofText t with
    | some x => .ok (x != 0)
    | none => .error ⟨.value, none⟩

/-- The value as a truth value. -/
def toBool (v : Value) : Except CellError Bool :=
  match v.scalar with
  | .boolean b => .ok b
  | .number x => .ok (x != 0)
  | .undefined => .ok false
  | .text s => textToBool s
  | .complex z => .ok (z.real != 0 || z.imaginary != 0)
  | .error e => .error e
  | .array _ | .metadata _ _ _ => .error ⟨.value, none⟩

/-- The value as a text, as joining texts takes it. -/
def toText (v : Value) : String :=
  match v.scalar with
  | .undefined => ""
  | .text s => s
  | other => other.display

/-- Whether the value is true; what is no truth value is not. -/
def isTruthy (v : Value) : Bool :=
  match v.toBool with
  | .ok b => b
  | .error _ => false

/-- Refuses infinities and what is no number. -/
def finite (x : Float) : Except CellError Float :=
  if x.isFinite then .ok x else .error (.explained .value "result is not a finite number")

/-- A number as a result. -/
def ofNumber (x : Float) : Value :=
  ofExcept .number (finite x)

/-- A complex number as a result; a real one becomes a plain number. -/
def ofComplex (z : Complex) : Value :=
  if !z.real.isFinite || !z.imaginary.isFinite then .ofCode .value
  else if z.isReal then .number z.real
  else .complex z

end Spreadsheet.Value
