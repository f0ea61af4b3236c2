import Spreadsheet.Proofs.Formula.Label

/-!
Labels of references that are moved. As long as a reference stays on the sheet, its label at another place is read as
the reference that has been moved there; the label of one that leaves the sheet names nothing.
-/

namespace Spreadsheet

/-! ### Moved references -/

namespace Reference

variable {a : Reference} {rows columns : Int} {axis : Option Nat} {fixed : Bool} {delta : Int} {last : Nat}

/-- The reference names no sheet and has a finite axis; its finite axes lie on the sheet, and only these are fixed. -/
structure IsLocal (a : Reference) : Prop where
  sheet : a.sheet = none
  finite : a.row ≠ none ∨ a.column ≠ none
  row : ∀ r ∈ a.row, r ≤ Row.last
  column : ∀ c ∈ a.column, c ≤ Column.last
  fixedRow : a.fixedRow = true → a.row ≠ none
  fixedColumn : a.fixedColumn = true → a.column ≠ none

/-- Where a coordinate goes, be it on the sheet or not. -/
def destination (fixed : Bool) (delta : Int) (v : Nat) : Int := if fixed then v else v + delta

/-- The finite axes stay on the sheet. -/
def Stays (a : Reference) (rows columns : Int) : Prop :=
  (∀ r ∈ a.row, 0 ≤ destination a.fixedRow rows r ∧ destination a.fixedRow rows r ≤ Row.last) ∧
    ∀ c ∈ a.column, 0 ≤ destination a.fixedColumn columns c ∧ destination a.fixedColumn columns c ≤ Column.last

/-- The reference with each finite axis at its destination. -/
def translated (a : Reference) (rows columns : Int) : Reference :=
  { a with
    row := a.row.map fun r => (destination a.fixedRow rows r).toNat
    column := a.column.map fun c => (destination a.fixedColumn columns c).toNat }

theorem shiftAxis_of_stays (h : ∀ v ∈ axis, 0 ≤ destination fixed delta v ∧ destination fixed delta v ≤ last) :
    shiftAxis axis fixed delta last = some (axis.map fun v => (destination fixed delta v).toNat) := by
  cases axis with
  | none => rfl
  | some v =>
    have hv := h v rfl
    cases fixed with
    | true => rfl
    | false =>
      simp only [destination, Bool.false_eq_true, if_false] at hv
      simp [shiftAxis, destination, hv]

theorem shiftAxis_of_leaves (hlast : ∀ v ∈ axis, v ≤ last)
    (h : ¬∀ v ∈ axis, 0 ≤ destination fixed delta v ∧ destination fixed delta v ≤ last) :
    shiftAxis axis fixed delta last = none := by
  cases axis with
  | none => exact absurd (fun v hv => nomatch hv) h
  | some v =>
    cases fixed with
    | true =>
      refine absurd (fun w hw => ?_) h
      obtain rfl := Option.some.inj hw
      have := hlast v rfl
      simp only [destination, if_true]
      omega
    | false =>
      simp only [destination, Bool.false_eq_true, if_false, Option.mem_some_iff, forall_eq'] at h
      simp [shiftAxis]
      omega

theorem labelAt_of_stays (h : a.Stays rows columns) :
    a.labelAt rows columns = (a.translated rows columns).spelling := by
  rw [labelAt, shift?, shiftAxis_of_stays h.1, shiftAxis_of_stays h.2]
  rfl

theorem labelAt_of_leaves (ha : a.IsLocal) (h : ¬a.Stays rows columns) : a.labelAt rows columns = broken := by
  rw [labelAt, shift?]
  rcases not_and_or.1 h with hrow | hcolumn
  · rw [shiftAxis_of_leaves ha.row hrow]
  · rw [shiftAxis_of_leaves ha.column hcolumn]
    cases shiftAxis a.row a.fixedRow rows Row.last <;> rfl

theorem IsLocal.translated (ha : a.IsLocal) (h : a.Stays rows columns) : (a.translated rows columns).IsLocal := by
  refine ⟨ha.sheet, ?_, fun r hr => ?_, fun c hc => ?_, fun hfixed => ?_, fun hfixed => ?_⟩
  · simpa [Reference.translated] using ha.finite
  · obtain ⟨v, hv, rfl⟩ := Option.map_eq_some_iff.1 hr
    have := h.1 v hv
    omega
  · obtain ⟨v, hv, rfl⟩ := Option.map_eq_some_iff.1 hc
    have := h.2 v hv
    omega
  · simpa [Reference.translated] using ha.fixedRow hfixed
  · simpa [Reference.translated] using ha.fixedColumn hfixed

theorem IsLocal.isPlaced (ha : a.IsLocal) : a.IsCell ∨ a.IsRow ∨ a.IsColumn := by
  have hfixedRow := ha.fixedRow
  have hfixedColumn := ha.fixedColumn
  cases hrow : a.row with
  | none =>
    cases hcolumn : a.column with
    | none => exact absurd ha.finite (by simp [hrow, hcolumn])
    | some c => exact .inr (.inr ⟨c, hcolumn, ha.column c hcolumn, hrow, by simpa [hrow] using hfixedRow⟩)
  | some r =>
    cases hcolumn : a.column with
    | none => exact .inr (.inl ⟨r, hrow, ha.row r hrow, hcolumn, by simpa [hcolumn] using hfixedColumn⟩)
    | some c => exact .inl ⟨r, c, hrow, hcolumn, ha.row r hrow, ha.column c hcolumn⟩

end Reference

/-! ### Reading a label -/

namespace Formula

namespace Lexeme

variable {locale : Locale} {us : List Nat}

theorem writes_digits (locale : Locale) (hus : DigitUnits us) : Writes locale us ⟨false, us, [], none, us.length⟩ :=
  ⟨[], [], [], by simp, .none, hus, .none, .none, rfl⟩

/-- Digits to the end of a text are a number. -/
theorem number_digits (hi : isDigitUnit (unitOf locale.imaginary) = false) (hus : DigitUnits us) (hne : us ≠ [])
    (p : Nat) : number locale p us =
      (.literal p (.number (Number.ofDecimal false (Number.digitsValue (digitChars us)) 0)) (some (Text.ofUnits us)),
        us.length) := by
  have hsign : takeSign us = (false, 0) := takeSign_of_unsigned (by simpa using unsigned_of_digits hus hne [])
  have htake : takeDigits locale us = us := by
    refine List.takeWhile_eq_self_iff.2 fun u hu => ?_
    have hne : u ≠ unitOf locale.imaginary := by
      rintro rfl
      rw [hus _ hu] at hi
      cases hi
    simp [hus u hu, hne]
  have hnumeral : takeNumeral locale us = ⟨false, us, [], none, us.length⟩ := by
    simp [takeNumeral, hsign, htake, startsFraction]
  simp [number, hnumeral, Numeral.value]

end Lexeme

open Lexeme Mention

variable {locale : Locale} {a : Reference} {rows columns : Int}

/-- The number of a row is read as the row. -/
theorem parseReference_bareRow (hi : isDigitUnit (unitOf locale.imaginary) = false) (h : IsBareRow a) :
    parseReference locale a.spelling = some a := by
  obtain ⟨r, hr, ha, hspelling, -, hdigits, hne⟩ := isNumber_bareRow locale h
  have hvalue : Number.ofDecimal false (Number.digitsValue (digitChars (Text.units a.spelling))) 0 =
      Number.floatOfNat (r + 1) := by
    rw [hspelling, Text.units, flatMap_digits (Row.digits_name r), digitChars_map (Row.digits_name r),
      Row.digitsValue_name]
    exact Number.ofDecimal_nat (Nat.succ_pos r) (by have : r ≤ 4294967294 := hr; omega)
  have htrim : Text.trim a.spelling = a.spelling := trim_spelling (.inl (by simp [ha]))
  have hunsigned : Unsigned (Text.units a.spelling) := by simpa using unsigned_of_digits hdigits hne []
  obtain ⟨u, us, hunits, hread⟩ :=
    read_writes true (writes_digits locale hdigits) (by simpa using hne) (fun _ => hunsigned) [] 0
  rw [List.append_nil, List.append_nil, number_digits hi hdigits hne, hvalue, Text.ofUnits_units] at hread
  have hrow := ofRowNumber?_floatOfNat hr (hspelling ▸ point_not_mem_name r) 0
  unfold parseReference
  simp only [htrim, hunits, hread, List.length_cons, Nat.add_sub_cancel, if_true, ofUnit?, hrow, Option.map_some, ← ha]

theorem parseReference_spelling (hi : isDigitUnit (unitOf locale.imaginary) = false) (h : a.IsLocal) :
    parseReference locale a.spelling = some a := by
  have hplaced := h.isPlaced
  have hkept : a.IsKept := fun name hname => by simp [h.sheet] at hname
  by_cases hbare : IsBareRow a
  · exact parseReference_bareRow hi hbare
  · have hword : IsWord a.spelling := by
      rcases hplaced with hcell | haxis
      · exact isWord_cell hcell hkept
      · exact isWord_axis haxis hbare hkept
    rw [parseReference_of_isWord hword (trim_spelling h.finite)]
    exact referenceOfWord?_spelling hplaced hkept

theorem parseReference_broken (locale : Locale) : parseReference locale Reference.broken = none := by
  obtain ⟨decimal, separator, imaginary⟩ := locale
  cases decimal <;> rfl

/-- The label of a reference at another place is read as the reference with its axes at their destinations, if these lie
on the sheet; else the label is `#REF`, which is not read. -/
theorem parseReference_labelAt (hi : isDigitUnit (unitOf locale.imaginary) = false) (h : a.IsLocal)
    (rows columns : Int) :
    (a.Stays rows columns → parseReference locale (a.labelAt rows columns) = some (a.translated rows columns)) ∧
      (¬a.Stays rows columns → a.labelAt rows columns = "#REF" ∧ parseReference locale "#REF" = none) := by
  constructor
  · intro hstays
    rw [Reference.labelAt_of_stays hstays]
    exact parseReference_spelling hi (h.translated hstays)
  · intro hleaves
    exact ⟨Reference.labelAt_of_leaves h hleaves, parseReference_broken locale⟩

/-- A cell in a fixed column, in the last row but one. -/
theorem parseReference_labelAt_edge :
    Reference.IsLocal { row := some 4294967293, column := some 5, fixedColumn := true } ∧
      Reference.labelAt { row := some 4294967293, column := some 5, fixedColumn := true } 1 (-9) = "$F4294967295" ∧
      parseReference {} "$F4294967295" = some { row := some 4294967294, column := some 5, fixedColumn := true } ∧
      Reference.labelAt { row := some 4294967293, column := some 5, fixedColumn := true } 2 0 = "#REF" ∧
      parseReference {} "#REF" = none := by
  have hlocal : Reference.IsLocal { row := some 4294967293, column := some 5, fixedColumn := true } :=
    ⟨rfl, by decide, by decide, by decide, by decide, by decide⟩
  have hlabel : Reference.labelAt { row := some 4294967293, column := some 5, fixedColumn := true } 1 (-9) =
      "$F4294967295" := by decide +kernel
  have hi : isDigitUnit (unitOf ({} : Locale).imaginary) = false := by decide
  have hread := (parseReference_labelAt hi hlocal 1 (-9)).1 ⟨by decide, by decide⟩
  rw [hlabel] at hread
  exact ⟨hlocal, hlabel, hread, (parseReference_labelAt hi hlocal 2 0).2 fun h => absurd (h.1 _ rfl).2 (by decide)⟩

end Formula

end Spreadsheet
