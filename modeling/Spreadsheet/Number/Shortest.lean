import Spreadsheet.Number.Exact

/-!
Shortest decimal digits. Every real number between the midpoints around a floating-point number reads
back as that number; the digits chosen are the fewest that name such a real, and of those the nearest.
-/

namespace Spreadsheet.Number.Shortest

/-- How many decimal digits a positive number has. -/
def digitCount (n : Nat) : Nat :=
  (Nat.toDigits 10 n).length

/-- A positive number and the interval of reals that round to it, all over one denominator. -/
structure Interval where
  /-- Numerator of the lower end. -/
  low : Nat
  /-- Numerator of the number itself. -/
  value : Nat
  /-- Numerator of the upper end. -/
  high : Nat
  /-- The common denominator. -/
  denominator : Nat
  /-- Whether the ends themselves round to the number. -/
  inclusive : Bool

/-- The interval of `m · 2 ^ e`. Below a power of two the neighbours lie twice as close. -/
def Interval.of (m : Nat) (e : Int) : Interval :=
  let narrow := m == 0x10000000000000 && e > -1074
  let low := 4 * m - (if narrow then 1 else 2)
  let up := 1 <<< (e - 2).toNat
  { low := low * up
    value := 4 * m * up
    high := (4 * m + 2) * up
    denominator := 1 <<< (2 - e).toNat
    inclusive := m % 2 == 0 }

/-- Ten to the power of `p`, or one if `p` is negative. -/
def tenTo (p : Int) : Nat := Nat.pow 10 p.toNat

/-- Whether the decimal `c · 10 ^ p` lies in the interval. -/
def Interval.contains (i : Interval) (c : Nat) (p : Int) : Bool :=
  let x := c * tenTo p * i.denominator
  let s := tenTo (-p)
  if i.inclusive then i.low * s ≤ x && x ≤ i.high * s else i.low * s < x && x < i.high * s

/-- The digits on the grid of multiples of `10 ^ p`, when one of the two multiples around the number
lies in the interval; of two the nearer is taken, the upper one if they are equally near. -/
def Interval.onGrid (i : Interval) (p : Int) : Option Nat :=
  let num := i.value * tenTo (-p)
  let den := i.denominator * tenTo p
  let c := num / den
  let below := i.contains c p
  let above := i.contains (c + 1) p
  if below && above then some (if 2 * (num % den) < den then c else c + 1)
  else if below then some c
  else if above then some (c + 1)
  else none

/-- The first grid with a hit, among `n` grids from `10 ^ p` downward. -/
def Interval.search (i : Interval) : Nat → Int → Nat × Int
  | 0, p => (i.value * tenTo (-p) / (i.denominator * tenTo p), p)
  | n + 1, p =>
    match i.onGrid p with
    | some c => (c, p)
    | none => i.search n (p - 1)

/-- The exponent of the first decimal digit of `num / den`. -/
def leadingExponent (num den : Nat) : Int :=
  if den ≤ num then (digitCount (num / den) : Int) - 1 else -(digitCount (den / num) : Int)

/-- The shortest decimal `c · 10 ^ p` that reads back as `m · 2 ^ e`. Seventeen digits always do. -/
def digits (m : Nat) (e : Int) : Nat × Int :=
  let i := Interval.of m e
  i.search 17 (leadingExponent i.value i.denominator)

end Spreadsheet.Number.Shortest
