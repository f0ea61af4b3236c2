/-!
Exact values of floating-point numbers. A finite number is read as `±mantissa · 2 ^ exponent`, and the
roundings to integers, the remainder and the clamped conversions are integer arithmetic on that form.
-/

namespace Spreadsheet.Number

/-- What a floating-point number stands for. -/
inductive Exact where
  /-- No number at all. -/
  | nan
  /-- An infinity of either sign. -/
  | infinite (negative : Bool)
  /-- The number `±mantissa · 2 ^ exponent`; zero keeps its sign. -/
  | finite (negative : Bool) (mantissa : Nat) (exponent : Int)

namespace Exact

open Float.Model (UnpackedFloat Format)

/-- Whether a sign bit is set. -/
def isNegative : UnpackedFloat.Sign → Bool
  | .negative => true
  | .positive => false

/-- The sign with the given bit. -/
def sign (negative : Bool) : UnpackedFloat.Sign :=
  if negative then .negative else .positive

/-- The exact value of a number. -/
def ofFloat (x : Float) : Exact :=
  match x.toModel.unpack with
  | .notANumber => .nan
  | .infinity s => .infinite (isNegative s)
  | .zero s => .finite (isNegative s) 0 0
  | .finite s m e _ => .finite (isNegative s) m e

/-- The floating-point number nearest to an exact value, ties going to an even mantissa. -/
def toFloat : Exact → Float
  | .nan => .ofModel (.pack .notANumber)
  | .infinite neg => .ofModel (.pack (.infinity (sign neg)))
  | .finite neg m e =>
    if m = 0 then .ofModel (.pack (.zero (sign neg)))
    else .ofModel (.pack (UnpackedFloat.round Format.binary64 (sign neg) m e))

/-- The greatest natural number not above `m · 2 ^ e`. -/
def floorNat (m : Nat) (e : Int) : Nat :=
  if 0 ≤ e then m <<< e.toNat else m >>> (-e).toNat

/-- The least natural number not below `m · 2 ^ e`. -/
def ceilNat (m : Nat) (e : Int) : Nat :=
  if 0 ≤ e then m <<< e.toNat else (m + (1 <<< (-e).toNat - 1)) >>> (-e).toNat

/-- The natural number nearest to `m · 2 ^ e`, a half going up. -/
def roundNat (m : Nat) (e : Int) : Nat :=
  if 0 ≤ e then m <<< e.toNat else (2 * m + 1 <<< (-e).toNat) >>> ((-e).toNat + 1)

/-- The integer of a sign and a magnitude. -/
def signed (negative : Bool) (n : Nat) : Int :=
  if negative then -(n : Int) else n

end Exact

/-- Rounds the magnitude of a finite number by `f`; other numbers, and integers, stay as they are. -/
def roundBy (f : Bool → Nat → Int → Nat) (x : Float) : Float :=
  match Exact.ofFloat x with
  | .finite neg m e => if 0 ≤ e then x else Exact.toFloat (.finite neg (f neg m e) 0)
  | _ => x

/-- The greatest integer not above the number. -/
def floor (x : Float) : Float :=
  roundBy (fun neg m e => if neg then Exact.ceilNat m e else Exact.floorNat m e) x

/-- The least integer not below the number. -/
def ceil (x : Float) : Float :=
  roundBy (fun neg m e => if neg then Exact.floorNat m e else Exact.ceilNat m e) x

/-- The integer next to the number on the side of zero. -/
def trunc (x : Float) : Float :=
  roundBy (fun _ m e => Exact.floorNat m e) x

/-- The nearest integer, a half going away from zero. -/
def round (x : Float) : Float :=
  roundBy (fun _ m e => Exact.roundNat m e) x

/-- The part after the point, with the sign of the number. -/
def fract (x : Float) : Float :=
  x - trunc x

/-- Whether the number is finite and has nothing after the point. -/
def isIntegral (x : Float) : Bool :=
  fract x == 0

/-- The integer part of the number, clamped to the given bounds; no number counts as zero. -/
def clampInt (lo hi : Int) (x : Float) : Int :=
  match Exact.ofFloat x with
  | .nan => 0
  | .infinite neg => if neg then lo else hi
  | .finite neg m e => max lo (min hi (Exact.signed neg (Exact.floorNat m e)))

/-- The integer part of the number as a count below `2 ^ bits`; negative numbers give zero. -/
def clampNat (bits : Nat) (x : Float) : Nat :=
  (clampInt 0 ((1 <<< bits - 1 : Nat) : Int) x).toNat

/-- The integer part of the number, clamped to the integers that 64 bits hold with a sign. -/
def clampWord (x : Float) : Int :=
  clampInt (-0x8000000000000000) 0x7FFFFFFFFFFFFFFF x

/-- The floating-point number nearest to an integer. -/
def ofInt (n : Int) : Float :=
  Exact.toFloat (.finite (n < 0) n.natAbs 0)

/-- The floating-point number nearest to a natural number. -/
def ofNat (n : Nat) : Float :=
  ofInt n

/-- The remainder of a division whose quotient is cut toward zero; it has the sign of the dividend. -/
def remainder (x y : Float) : Float :=
  match Exact.ofFloat x, Exact.ofFloat y with
  | .finite neg m e, .finite _ n k =>
    if n = 0 then Exact.toFloat .nan
    else
      let low := min e k
      Exact.toFloat
        (.finite neg (m <<< (e - low).toNat % n <<< (k - low).toNat) low)
  | .finite _ _ _, .infinite _ => x
  | _, _ => Exact.toFloat .nan

/-- Whether the sign bit of the number is set. -/
def isSignNegative (x : Float) : Bool :=
  match Exact.ofFloat x with
  | .nan => false
  | .infinite neg => neg
  | .finite neg _ _ => neg

/-- The infinity above all numbers. -/
def infinity : Float := Exact.toFloat (.infinite false)

/-- The value of operations without a result. -/
def nan : Float := Exact.toFloat .nan

/-- The greater of two numbers; a missing number yields to the other. -/
def greater (x y : Float) : Float :=
  if x.isNaN then y else if y.isNaN then x else if x < y then y else x

/-- The lesser of two numbers; a missing number yields to the other. -/
def lesser (x y : Float) : Float :=
  if x.isNaN then y else if y.isNaN then x else if y < x then y else x

end Spreadsheet.Number
