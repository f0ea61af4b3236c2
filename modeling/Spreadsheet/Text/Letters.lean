/-!
Letters of the Latin alphabet. Names of functions, columns, error codes and sheets are compared
without regard to the case of these letters and of no others.
-/

namespace Spreadsheet.Text

/-- The text with the letters `a` to `z` raised to `A` to `Z`. -/
def upper (s : String) : String :=
  String.ofList (s.toList.map Char.toUpper)

/-- The text with the letters `A` to `Z` lowered to `a` to `z`. -/
def lower (s : String) : String :=
  String.ofList (s.toList.map Char.toLower)

/-- Equality of texts up to the case of the letters `a` to `z`. -/
def equalIgnoringCase (s t : String) : Bool :=
  upper s == upper t

@[simp] theorem toList_upper (s : String) : (upper s).toList = s.toList.map Char.toUpper := by
  simp [upper]

@[simp] theorem toList_lower (s : String) : (lower s).toList = s.toList.map Char.toLower := by
  simp [lower]

theorem equalIgnoringCase_iff {s t : String} : equalIgnoringCase s t = true ↔ upper s = upper t := by
  simp [equalIgnoringCase]

end Spreadsheet.Text
