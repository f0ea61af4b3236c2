/-!
Texts as sequences of 16-bit code units. A character outside the basic plane takes two units, a high
and a low surrogate. Reading units back is lossy: a surrogate without its partner becomes U+FFFD.
-/

namespace Spreadsheet.Text

/-- The mark that stands for a unit which encodes no character. -/
def replacement : Char := Char.ofNat 0xFFFD

/-- The code units of one character. -/
def unitsOfChar (c : Char) : List Nat :=
  let n := c.toNat
  if n < 0x10000 then [n]
  else [0xD800 + (n - 0x10000) / 0x400, 0xDC00 + (n - 0x10000) % 0x400]

/-- The code units of a text. -/
def units (s : String) : List Nat :=
  s.toList.flatMap unitsOfChar

/-- Whether the unit opens a pair of surrogates. -/
def isHighSurrogate (u : Nat) : Bool := 0xD800 ≤ u && u < 0xDC00

/-- Whether the unit closes a pair of surrogates. -/
def isLowSurrogate (u : Nat) : Bool := 0xDC00 ≤ u && u < 0xE000

/-- The character a single unit stands for; a lone surrogate gives the replacement mark. -/
def charOfUnit (u : Nat) : Char :=
  if isHighSurrogate u || isLowSurrogate u then replacement else Char.ofNat u

/-- The characters a sequence of units encodes. -/
def charsOfUnits : List Nat → List Char
  | [] => []
  | [u] => [charOfUnit u]
  | u :: v :: rest =>
    if isHighSurrogate u && isLowSurrogate v then
      Char.ofNat (0x10000 + (u - 0xD800) * 0x400 + (v - 0xDC00)) :: charsOfUnits rest
    else charOfUnit u :: charsOfUnits (v :: rest)

/-- The text a sequence of units encodes. -/
def ofUnits (us : List Nat) : String :=
  String.ofList (charsOfUnits us)

end Spreadsheet.Text
