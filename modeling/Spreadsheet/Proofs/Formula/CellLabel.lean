import Spreadsheet.Proofs.Formula.Label

/-!
Labels of cells. Sheets and formulas read labels by different means: a label of its own is read character by character,
and in a formula it is a word among others. They accept the same texts and give the same cells.
-/

namespace Spreadsheet

open Formula Formula.Lexeme

theorem Text.trim_trim (s : String) : trim (trim s) = trim s := by
  refine String.toList_injective ?_
  have hstart (cs : List Char) : trimStart (trimStart cs) = trimStart cs := List.dropWhile_idempotent isBlank cs
  calc (trim (trim s)).toList = trimChars (trimEnd (trimStart s.toList)) := by rw [toList_trim, toList_trim]; rfl
    _ = trimChars (trimStart s.toList) := trimChars_trimEnd _
    _ = (trim s).toList := by rw [toList_trim, trimChars, hstart, trimChars]

/-- The text names the cell: one to three letters and then digits, each perhaps after a `$`. The letters are the numeral
of the column, and rows are counted from one. -/
def Position.NamedBy (p : Position) (cs : List Char) : Prop :=
  ∃ (fixedColumn fixedRow : Bool) (letters digits : List Char),
    cs = (Reference.dollar fixedColumn).toList ++ (letters ++ ((Reference.dollar fixedRow).toList ++ digits)) ∧
    (1 ≤ letters.length ∧ letters.length ≤ 3 ∧ ∀ c ∈ letters, Column.isLetter c = true) ∧
    (∀ c ∈ digits, Number.isDigit c = true) ∧
    (1 ≤ Number.digitsValue digits ∧ Number.digitsValue digits ≤ 4294967295) ∧
    p = ⟨Number.digitsValue digits - 1, Column.numeral letters - 1⟩

namespace Mention

variable {cs ds : List Char} {p : Position} {q n : Nat} {m : Mention}

theorem takeDollar_eq (cs : List Char) : cs = (Reference.dollar (takeDollar cs).1).toList ++ (takeDollar cs).2 := by
  unfold takeDollar
  split <;> simp [Reference.dollar]

theorem ofLetters?_eq_some_iff : Column.ofLetters? cs = some n ↔
    (1 ≤ cs.length ∧ cs.length ≤ 3 ∧ ∀ c ∈ cs, Column.isLetter c = true) ∧ Column.numeral cs - 1 = n := by
  unfold Column.ofLetters? Column.maxLetters
  split
  · rename_i h
    simp only [Bool.or_eq_true, List.isEmpty_iff_length_eq_zero, decide_eq_true_eq, Bool.not_eq_true',
      List.all_eq_false] at h
    constructor
    · rintro ⟨⟩
    · rintro ⟨⟨hpos, hthree, hall⟩, -⟩
      rcases h with (h | h) | ⟨c, hc, h⟩
      · omega
      · omega
      · exact absurd (hall c hc) h
  · rename_i h
    simp only [Bool.or_eq_true, List.isEmpty_iff_length_eq_zero, decide_eq_true_eq, not_or, Bool.not_eq_true',
      List.all_eq_false, not_exists, not_and, not_not] at h
    obtain ⟨⟨hpos, hthree⟩, hall⟩ := h
    simp only [Option.some.injEq]
    exact ⟨fun hn => ⟨⟨by omega, by omega, hall⟩, hn⟩, fun hn => hn.2⟩

theorem rowOfDigits?_eq_some_iff : rowOfDigits? ds = some n ↔
    (∀ c ∈ ds, Number.isDigit c = true) ∧ (1 ≤ Number.digitsValue ds ∧ Number.digitsValue ds ≤ 4294967295) ∧
      Number.digitsValue ds - 1 = n := by
  have hnil : ds = [] → Number.digitsValue ds = 0 := by
    rintro rfl
    rfl
  unfold rowOfDigits? Row.numberBound
  simp only
  split
  · rename_i h
    simp only [Bool.or_eq_true, List.isEmpty_iff, decide_eq_true_eq, Bool.not_eq_true', List.all_eq_false] at h
    constructor
    · rintro ⟨⟩
    · rintro ⟨hall, ⟨hpos, hlast⟩, -⟩
      rcases h with ((h | ⟨c, hc, h⟩) | h) | h
      · have := hnil h
        omega
      · exact absurd (hall c hc) h
      · omega
      · omega
  · rename_i h
    simp only [Bool.or_eq_true, List.isEmpty_iff, decide_eq_true_eq, Bool.not_eq_true', List.all_eq_false, not_or,
      not_exists, not_and, not_not] at h
    obtain ⟨⟨⟨-, hall⟩, hpos⟩, hlast⟩ := h
    simp only [Option.some.injEq]
    exact ⟨fun hn => ⟨hall, ⟨by omega, by omega⟩, hn⟩, fun hn => hn.2.2⟩

/-- A text names a cell if its letters name a column and its digits a row. -/
theorem namedBy_iff : p.NamedBy cs ↔
    Column.ofLetters? ((takeDollar cs).2.takeWhile Column.isLetter) = some p.column ∧
      rowOfDigits? (takeDollar ((takeDollar cs).2.dropWhile Column.isLetter)).2 = some p.row := by
  constructor
  · rintro ⟨fixedColumn, fixedRow, letters, digits, rfl, ⟨hpos, hthree, hletters⟩, hdigits, hvalue, rfl⟩
    have hdollar {c : Char} (hc : 48 ≤ c.toNat) : c ≠ '$' := ne_dollar hc
    -- neither a letter nor a digit is a mark
    have hletter (c : Char) (hc : c ∈ letters) : 65 ≤ c.toNat := by
      rcases Column.isLetter_iff.1 (hletters c hc) with h | h <;> omega
    have hdigit (c : Char) (hc : c ∈ digits) : 48 ≤ c.toNat ∧ c.toNat ≤ 57 := isDigit_iff.1 (hdigits c hc)
    have hbody : takeDollar ((Reference.dollar fixedColumn).toList ++
        (letters ++ ((Reference.dollar fixedRow).toList ++ digits))) =
          (fixedColumn, letters ++ ((Reference.dollar fixedRow).toList ++ digits)) := by
      refine takeDollar_dollar fixedColumn _ fun c hc => ?_
      obtain ⟨d, ds, rfl⟩ := List.exists_cons_of_length_pos hpos
      obtain rfl : d = c := by simpa using hc
      exact hdollar (by have := hletter d List.mem_cons_self; omega)
    have hrest : takeDollar ((Reference.dollar fixedRow).toList ++ digits) = (fixedRow, digits) :=
      takeDollar_dollar fixedRow _ fun c hc => hdollar (hdigit c (List.mem_of_mem_head? hc)).1
    have hstop : ∀ c ∈ ((Reference.dollar fixedRow).toList ++ digits).head?, ¬Column.isLetter c = true := by
      intro c hc
      have hmem := List.mem_of_mem_head? hc
      rw [Column.isLetter_iff]
      cases fixedRow with
      | true =>
        obtain rfl : '$' = c := by simpa [Reference.dollar] using hc
        decide
      | false =>
        have := hdigit c (by simpa [Reference.dollar] using hmem)
        omega
    have htake : (letters ++ ((Reference.dollar fixedRow).toList ++ digits)).takeWhile Column.isLetter = letters := by
      rw [List.takeWhile_append_of_pos hletters]
      cases hds : (Reference.dollar fixedRow).toList ++ digits with
      | nil => simp
      | cons c ds => rw [List.takeWhile_cons_of_neg (hstop c (by simp [hds])), List.append_nil]
    have hdrop : (letters ++ ((Reference.dollar fixedRow).toList ++ digits)).dropWhile Column.isLetter =
        (Reference.dollar fixedRow).toList ++ digits := by
      rw [List.dropWhile_append_of_pos hletters]
      cases hds : (Reference.dollar fixedRow).toList ++ digits with
      | nil => simp
      | cons c ds => rw [List.dropWhile_cons_of_neg (hstop c (by simp [hds]))]
    rw [hbody, htake, hdrop, hrest]
    exact ⟨ofLetters?_eq_some_iff.2 ⟨⟨hpos, hthree, hletters⟩, rfl⟩,
      rowOfDigits?_eq_some_iff.2 ⟨hdigits, hvalue, rfl⟩⟩
  · rintro ⟨hcolumn, hrow⟩
    obtain ⟨hletters, hcolumn⟩ := ofLetters?_eq_some_iff.1 hcolumn
    obtain ⟨hdigits, hvalue, hrow⟩ := rowOfDigits?_eq_some_iff.1 hrow
    refine ⟨(takeDollar cs).1, (takeDollar ((takeDollar cs).2.dropWhile Column.isLetter)).1, _, _, ?_, hletters, hdigits,
      hvalue, by rw [hcolumn, hrow]⟩
    rw [← takeDollar_eq, List.takeWhile_append_dropWhile, ← takeDollar_eq]

/-- A label by itself is read as the cell that it names. -/
theorem ofLabel_iff {s : String} : Position.ofLabel s = .ok p ↔ p.NamedBy (Text.trimChars s.toList) := by
  have hdollar (cs : List Char) : Position.dropDollar cs = (takeDollar cs).2 := by
    by_cases h : ∃ rest, cs = '$' :: rest
    · obtain ⟨rest, rfl⟩ := h
      rfl
    · rw [Position.dropDollar.eq_2 cs fun rest hcs => h ⟨rest, hcs⟩, takeDollar.eq_2 cs fun rest hcs => h ⟨rest, hcs⟩]
  rw [namedBy_iff]
  unfold Position.ofLabel
  simp only [hdollar]
  generalize Text.trimChars s.toList = cs
  generalize hletters : (takeDollar cs).2.takeWhile Column.isLetter = letters
  generalize (takeDollar ((takeDollar cs).2.dropWhile Column.isLetter)).2 = digits
  cases cs with
  | nil =>
    have hnone : Column.ofLetters? letters = none := by
      rw [← hletters]
      rfl
    simp [hnone]
  | cons c cs =>
    rw [List.isEmpty_cons, if_neg Bool.false_ne_true]
    cases hcolumn : Column.ofLetters? letters with
    | none => simp
    | some column =>
      obtain ⟨row, column'⟩ := p
      unfold rowOfDigits?
      simp only [Option.some.injEq]
      by_cases hbad : (digits.isEmpty || !digits.all Number.isDigit ||
          decide (Row.numberBound ≤ Number.digitsValue digits)) = true
      · rw [if_pos hbad, if_pos (by simp only [Bool.or_eq_true] at hbad ⊢; tauto)]
        simp
      · rw [if_neg hbad]
        by_cases hzero : Number.digitsValue digits = 0
        · rw [if_pos hzero, if_pos (by simp [hzero])]
          simp
        · rw [if_neg hzero, if_neg (by simp only [Bool.or_eq_true] at hbad ⊢; simp only [decide_eq_true_eq] at hbad ⊢; tauto)]
          simp [and_comm]

theorem mem_namedBy (h : p.NamedBy cs) {c : Char} (hc : c ∈ cs) :
    c = '$' ∨ Column.isLetter c = true ∨ Number.isDigit c = true := by
  obtain ⟨fixedColumn, fixedRow, letters, digits, rfl, ⟨-, -, hletters⟩, hdigits, -⟩ := h
  have hdollar (fixed : Bool) (hc : c ∈ (Reference.dollar fixed).toList) : c = '$' := by
    cases fixed <;> simp_all [Reference.dollar]
  simp only [List.mem_append] at hc
  rcases hc with hc | hc | hc | hc
  · exact .inl (hdollar _ hc)
  · exact .inr (.inl (hletters c hc))
  · exact .inl (hdollar _ hc)
  · exact .inr (.inr (hdigits c hc))

/-- A word is read as the cell that it names, unless it names a sheet. -/
theorem ofCellWord?_iff : (∃ m, ofCellWord? cs q = some m ∧ m.target.sheet = none ∧ m.target.position? = some p) ↔
    p.NamedBy cs := by
  constructor
  · rintro ⟨m, hm, hsheet, hposition⟩
    rw [namedBy_iff]
    simp only [ofCellWord?] at hm
    rcases splitSheet_cases cs with hsplit | ⟨raw, body, -, hsplit⟩
    · rw [hsplit] at hm
      simp only at hm
      split at hm
      · rename_i column row hcolumn hrow
        obtain rfl := Option.some.inj hm
        obtain rfl := Option.some.inj hposition
        exact ⟨hcolumn, hrow⟩
      · cases hm
    · rw [hsplit] at hm
      simp only at hm
      split at hm
      · obtain rfl := Option.some.inj hm
        cases hsheet
      · cases hm
  · intro h
    have hmark : '!' ∉ cs := fun hmem => by
      rcases mem_namedBy h hmem with h | h | h
      · cases h
      · exact absurd h (by decide)
      · exact absurd h (by decide)
    obtain ⟨hcolumn, hrow⟩ := namedBy_iff.1 h
    simp only [ofCellWord?, splitSheet_of_not_mem hmark, hcolumn, hrow]
    exact ⟨_, rfl, rfl, rfl⟩

theorem isWord_of_namedBy (h : p.NamedBy cs) : IsWord (String.ofList cs) := by
  have hunit (c : Char) (hc : c ∈ cs) : isWordUnit c.toNat = true := by
    rcases mem_namedBy h hc with rfl | h | h
    · decide
    · rcases Column.isLetter_iff.1 h with h | h <;> simp [isWordUnit, isLetterUnit, h]
    · have := isDigit_iff.1 h
      simp [isWordUnit, isDigitUnit, this]
  obtain ⟨fixedColumn, fixedRow, letters, digits, rfl, ⟨hpos, -, hletters⟩, hdigits, ⟨hvalue, -⟩, -⟩ := h
  obtain ⟨d, ds, rfl⟩ : ∃ d ds, digits = d :: ds := by
    cases digits with
    | nil => cases hvalue
    | cons d ds => exact ⟨d, ds, rfl⟩
  obtain ⟨l, ls, rfl⟩ := List.exists_cons_of_length_pos hpos
  have hdigit := (isDigit_iff.1 (hdigits d List.mem_cons_self)).2
  have hletter := Column.isLetter_iff.1 (hletters l List.mem_cons_self)
  cases fixedColumn with
  | true =>
    have hdollar : (Reference.dollar true).toList = ['$'] := by simp [Reference.dollar]
    rw [hdollar, List.singleton_append] at hunit ⊢
    exact isWord_of_wordUnits (by decide) (by decide) (fun c hc => hunit c (List.mem_cons_of_mem _ hc))
      (.inl ⟨'$', List.mem_cons_self, by decide⟩)
  | false =>
    have hnone : (Reference.dollar false).toList = [] := by simp [Reference.dollar]
    rw [hnone, List.nil_append, List.cons_append] at hunit ⊢
    refine isWord_of_wordUnits ?_ ?_ (fun c hc => hunit c (List.mem_cons_of_mem _ hc)) (.inl ⟨d, by simp, by omega⟩)
    · rcases hletter with h | h <;> simp [isWordStart, isLetterUnit, h]
    · rintro rfl
      simp at hletter

end Mention

namespace Position

open Mention

variable {p : Position}

/-- The label of a cell on the sheet names it. -/
theorem namedBy_label (hrow : p.row ≤ Row.last) (hcolumn : p.column ≤ Column.last) : p.NamedBy p.label.toList := by
  have hletters : Column.ofLetters? (Column.letters p.column) = some p.column := Column.ofLetters?_letters hcolumn
  have hdigits : rowOfDigits? (Row.name p.row).toList = some p.row := rowOfDigits?_name hrow
  obtain ⟨hshape, hcolumn⟩ := ofLetters?_eq_some_iff.1 hletters
  obtain ⟨hall, hvalue, hrow⟩ := rowOfDigits?_eq_some_iff.1 hdigits
  refine ⟨false, false, _, _, ?_, hshape, hall, hvalue, by rw [hcolumn, hrow]⟩
  simp [label, Column.name, Reference.dollar]

end Position

namespace Formula

open Mention

variable {locale : Locale} {s : String} {p : Position}

theorem parseReference_trim (locale : Locale) (s : String) :
    parseReference locale (Text.trim s) = parseReference locale s := by
  unfold parseReference
  rw [Text.trim_trim]

/-- A formula reads a label as the cell that it names. -/
theorem parseReference_iff : (∃ a, parseReference locale s = some a ∧ a.sheet = none ∧ a.position? = some p) ↔
    p.NamedBy (Text.trimChars s.toList) := by
  constructor
  · rintro ⟨a, ha, hsheet, hposition⟩
    rcases isRow_or_isWord_of_parseReference ha with ⟨⟨r, -, -, hcolumn, -⟩, -⟩ | ⟨-, hword⟩
    · simp [Reference.position?, hcolumn] at hposition
    · obtain ⟨m, hm, rfl⟩ := Option.map_eq_some_iff.1 hword
      rw [Text.toList_trim] at hm
      rcases Option.or_eq_some_iff.1 hm with hcell | ⟨-, haxis⟩
      · exact ofCellWord?_iff.1 ⟨m, hcell, hsheet, hposition⟩
      · rcases isAxis_of_word haxis with ⟨_, -, -, hnone, -⟩ | ⟨_, -, -, hnone, -⟩
        · simp [Reference.position?, hnone] at hposition
        · simp [Reference.position?, hnone] at hposition
  · intro h
    obtain ⟨m, hm, hsheet, hposition⟩ := (ofCellWord?_iff (q := 0)).2 h
    have hword : IsWord (Text.trim s) := isWord_of_namedBy h
    rw [← parseReference_trim, parseReference_of_isWord hword (Text.trim_trim s)]
    refine ⟨m.target, ?_, hsheet, hposition⟩
    rw [referenceOfWord?, Text.toList_trim, hm]
    rfl

/-- A label by itself and a label in a formula are read as the same cell, whatever the locale: after blanks at the ends
are gone, both are a column and a row, each perhaps after a `$`. The label of each cell on the sheet is read as that
cell. -/
theorem cell_read_alike (locale : Locale) (s : String) (p : Position) :
    (Position.ofLabel s = .ok p ↔
      ∃ a, parseReference locale s = some a ∧ a.sheet = none ∧ a.position? = some p) ∧
    (Position.ofLabel s = .ok p ↔ p.NamedBy (Text.trimChars s.toList)) ∧
    (p.row ≤ Row.last → p.column ≤ Column.last → Position.ofLabel p.label = .ok p) := by
  refine ⟨ofLabel_iff.trans parseReference_iff.symm, ofLabel_iff, fun hrow hcolumn => ?_⟩
  have hspelling : p.label = (Reference.ofPosition p).spelling := by
    simp [Position.label, Reference.spelling, Reference.ofPosition, Reference.dollar]
  have htrim : Text.trimChars p.label.toList = p.label.toList := by
    rw [← Text.toList_trim, hspelling, trim_spelling (.inl (by simp [Reference.ofPosition]))]
  rw [ofLabel_iff, htrim]
  exact Position.namedBy_label hrow hcolumn

theorem cell_read_alike_padded :
    (∃ a, parseReference {} " $ab$007 " = some a ∧ a.sheet = none ∧ a.position? = some ⟨6, 27⟩) ∧
    Position.ofLabel (Position.label ⟨4294967294, 18277⟩) = .ok ⟨4294967294, 18277⟩ :=
  ⟨(cell_read_alike {} " $ab$007 " ⟨6, 27⟩).1.1 (by decide +kernel),
    (cell_read_alike {} "" ⟨4294967294, 18277⟩).2.2 (by decide) (by decide)⟩

end Formula

end Spreadsheet
