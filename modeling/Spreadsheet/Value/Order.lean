import Spreadsheet.Value.Coercion

/-!
Equality and order as the comparison operators see them. Numbers meet numeric texts as numbers, an
empty cell meets each kind as its neutral element, and a complex number with no imaginary part is a
number.
-/

namespace Spreadsheet.Value

/-- A scalar in the form in which it is compared. -/
inductive Comparand where
  /-- Nothing. -/
  | undefined
  /-- A number or a truth value. -/
  | number (x : Float)
  /-- A text. -/
  | text (s : String)
  /-- A complex number. -/
  | complex (z : Complex)
  /-- A value that compares with nothing. -/
  | other

/-- The form in which a value is compared. -/
def comparand (v : Value) : Comparand :=
  match v.scalar with
  | .undefined => .undefined
  | .number x => .number x
  | .boolean b => .number (if b then 1 else 0)
  | .text s => .text s
  | .complex z => .complex z
  | .array _ | .metadata _ _ _ | .error _ => .other

/-- Whether the text spells the number. -/
def spells (s : String) (x : Float) : Bool :=
  match Number.ofText s with
  | some y => y == x
  | none => false

/-- Equality of comparands. -/
def Comparand.equal : Comparand → Comparand → Bool
  | .undefined, .undefined => true
  | .number x, .number y => x == y
  | .number x, .text s | .text s, .number x => spells s x
  | .text s, .text t => s == t
  | .undefined, .number x | .number x, .undefined => x == 0
  | .undefined, .text s | .text s, .undefined => s.isEmpty
  | .complex a, .complex b => a == b
  | .complex z, .number x | .number x, .complex z => z.isReal && z.real == x
  | _, _ => false

/-- Equality of scalars as the operators `=` and `<>` see it. -/
def looselyEqual (a b : Value) : Bool :=
  a.comparand.equal b.comparand

/-- The number a comparand stands for. -/
def Comparand.real? : Comparand → Option Float
  | .number x => some x
  | .complex z => if z.isReal then some z.real else none
  | .text s => Number.ofText s
  | .undefined => some 0
  | .other => none

/-- The text a comparand stands for. -/
def Comparand.text? : Comparand → Option String
  | .text s => some s
  | .undefined => some ""
  | _ => none

/-- Whether the comparand makes a comparison one of numbers. -/
def Comparand.isNumeric : Comparand → Bool
  | .number _ | .complex _ => true
  | _ => false

/-- The order of two numbers, if both are numbers at all. -/
def compareFloats (x y : Float) : Option Ordering :=
  if x < y then some .lt else if x == y then some .eq else if y < x then some .gt else none

/-- The order of two comparands: as numbers if either is one, as texts otherwise. -/
def Comparand.order (a b : Comparand) : Option Ordering :=
  if a.isNumeric || b.isNumeric then
    match a.real?, b.real? with
    | some x, some y => compareFloats x y
    | _, _ => none
  else
    match a.text?, b.text? with
    | some s, some t => some (compare s t)
    | _, _ => none

/-- The order of two scalars as the operators `<`, `>`, `<=` and `>=` see it; `none` when they do not
compare. -/
def order (a b : Value) : Option Ordering :=
  a.comparand.order b.comparand

end Spreadsheet.Value
