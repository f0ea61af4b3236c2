import Spreadsheet.Formula.Fold
import Spreadsheet.Proofs.Expression.Moved
import Spreadsheet.Proofs.Formula.Lexeme
import Spreadsheet.Proofs.Label
import Spreadsheet.Proofs.Number.Natural

/-!
Mentions and their labels. Whatever is mentioned lies on the sheet, and the label of a cell, a row or a column
on the sheet is read as that cell, row or column.
-/

namespace Spreadsheet

/-! ### References -/

namespace SheetName

/-- Whether a name is a letter or `_` and then letters, digits and `_`. -/
def isSimple (name : String) : Bool :=
  match name.toList with
  | [] => false
  | c :: cs => (Number.isLetter c || c == '_') && cs.all fun d => Number.isLetter d || Number.isDigit d || d == '_'

/-- Names that are read back from a label: simple ones, and those in quotes without a quote of their own. -/
def IsReadable (name : String) : Prop :=
  isSimple name = true ∨ needsQuotes name = true ∧ '\x27' ∉ name.toList

/-- Whether a name is a word without quotes. -/
def isBare (name : String) : Bool :=
  match name.toList with
  | [] => false
  | c :: cs => c != '\x27' && Formula.isWordStart c.toNat && cs.all fun d => Formula.isWordUnit d.toNat

/-- Whether a name is a word that begins with a part in quotes, such as `'x'y`. The quotes belong to the name. -/
def isPartlyQuoted (name : String) : Bool :=
  match name.toList with
  | '\x27' :: cs =>
    let rest := (cs.dropWhile (· != '\x27')).tail
    !rest.isEmpty && rest.all fun d => Formula.isWordUnit d.toNat
  | _ => false

/-- The names that a label keeps. One that is written in quotes has no quote of its own; any other is a word, and
quotes in front of a word are kept before the label of a cell only. -/
def IsKept (bounded : Bool) (name : String) : Prop :=
  if needsQuotes name then '\x27' ∉ name.toList
  else isBare name = true ∨ bounded = true ∧ isPartlyQuoted name = true

instance (bounded : Bool) (name : String) : Decidable (IsKept bounded name) :=
  inferInstanceAs (Decidable (if needsQuotes name then '\x27' ∉ name.toList
    else isBare name = true ∨ bounded = true ∧ isPartlyQuoted name = true))

variable {name : String}

theorem isBare_iff : isBare name = true ↔ ∃ c cs, name.toList = c :: cs ∧ c ≠ '\x27' ∧
    Formula.isWordStart c.toNat = true ∧ ∀ d ∈ cs, Formula.isWordUnit d.toNat = true := by
  unfold isBare
  split
  · rename_i heq
    simp [heq]
  · rename_i c cs heq
    simp [heq, and_assoc]

theorem isPartlyQuoted_iff : isPartlyQuoted name = true ↔
    ∃ inner rest, name.toList = '\x27' :: (inner ++ '\x27' :: rest) ∧ '\x27' ∉ inner ∧ rest ≠ [] ∧
      ∀ d ∈ rest, Formula.isWordUnit d.toNat = true := by
  unfold isPartlyQuoted
  split
  · rename_i cs heq
    simp only [Bool.and_eq_true, Bool.not_eq_true', List.isEmpty_eq_false_iff, List.all_eq_true]
    constructor
    · rintro ⟨hne, hrest⟩
      cases hdrop : cs.dropWhile (· != '\x27') with
      | nil => simp [hdrop] at hne
      | cons q rest =>
        have hq : q = '\x27' := by
          have hhead := List.head?_dropWhile_not (· != '\x27') cs
          simpa [hdrop] using hhead
        subst hq
        rw [hdrop] at hne hrest
        refine ⟨cs.takeWhile (· != '\x27'), rest, ?_, fun hmem => ?_, hne, hrest⟩
        · rw [heq, ← hdrop, List.takeWhile_append_dropWhile]
        · have hall := List.all_takeWhile (p := (· != '\x27')) (l := cs)
          simpa using List.all_eq_true.1 hall _ hmem
    · rintro ⟨inner, rest, hsplit, hinner, hne, hrest⟩
      obtain rfl := (List.cons.inj (heq.symm.trans hsplit)).2
      have hpass (d : Char) (hd : d ∈ inner) : (d != '\x27') = true := by
        simpa using fun h : d = '\x27' => hinner (h ▸ hd)
      rw [List.dropWhile_append_of_pos hpass, List.dropWhile_cons_of_neg (by simp)]
      exact ⟨hne, hrest⟩
  · rename_i hne
    simp only [Bool.false_eq_true, false_iff]
    rintro ⟨inner, rest, hsplit, -⟩
    exact hne _ hsplit

end SheetName

namespace Reference

/-- The reference is to a cell on the sheet. -/
def IsCell (a : Reference) : Prop :=
  ∃ r c, a.row = some r ∧ a.column = some c ∧ r ≤ Row.last ∧ c ≤ Column.last

/-- The reference is to a whole row on the sheet. -/
def IsRow (a : Reference) : Prop :=
  ∃ r, a.row = some r ∧ r ≤ Row.last ∧ a.column = none ∧ a.fixedColumn = false

/-- The reference is to a whole column on the sheet. -/
def IsColumn (a : Reference) : Prop :=
  ∃ c, a.column = some c ∧ c ≤ Column.last ∧ a.row = none ∧ a.fixedRow = false

/-- The sheet, if one is named, is read back from a label. -/
def IsReadable (a : Reference) : Prop :=
  ∀ name, a.sheet = some name → SheetName.IsReadable name

/-- The sheet, if one is named, is one that the label keeps. -/
def IsKept (a : Reference) : Prop :=
  ∀ name, a.sheet = some name → SheetName.IsKept a.isBounded name

instance (a : Reference) : Decidable a.IsKept :=
  inferInstanceAs (Decidable (∀ name ∈ a.sheet, SheetName.IsKept a.isBounded name))

instance (name : String) : Decidable (SheetName.IsReadable name) :=
  inferInstanceAs (Decidable (SheetName.isSimple name = true ∨ SheetName.needsQuotes name = true ∧ '\x27' ∉ name.toList))

instance (a : Reference) : Decidable a.IsReadable :=
  inferInstanceAs (Decidable (∀ name ∈ a.sheet, SheetName.IsReadable name))

variable {a b : Reference} {rows columns : Int}

theorem shiftAxis_le {v : Nat} {fixed : Bool} {delta : Int} {last : Nat} {axis : Option Nat}
    (h : shiftAxis (some v) fixed delta last = some axis) (hv : v ≤ last) : ∃ w, axis = some w ∧ w ≤ last := by
  simp only [shiftAxis] at h
  split at h
  · exact ⟨v, (Option.some.inj h).symm, hv⟩
  · split at h
    · rename_i hmoved
      simp only [Bool.and_eq_true, decide_eq_true_eq] at hmoved
      refine ⟨_, (Option.some.inj h).symm, ?_⟩
      omega
    · cases h

/-- What a shift changes. -/
theorem shift?_eq (h : a.shift? rows columns = some b) : ∃ row column,
    shiftAxis a.row a.fixedRow rows Row.last = some row ∧
      shiftAxis a.column a.fixedColumn columns Column.last = some column ∧ b = { a with row, column } := by
  unfold shift? at h
  split at h
  · rename_i row column hrow hcolumn
    exact ⟨row, column, hrow, hcolumn, (Option.some.inj h).symm⟩
  · cases h

theorem sheet_shift? (h : a.shift? rows columns = some b) : b.sheet = a.sheet := by
  obtain ⟨row, column, -, -, rfl⟩ := shift?_eq h
  rfl

theorem isBounded_shift? (h : a.shift? rows columns = some b) : b.isBounded = a.isBounded := by
  have haxis {axis moved : Option Nat} {fixed : Bool} {delta : Int} {last : Nat}
      (h : shiftAxis axis fixed delta last = some moved) : moved.isSome = axis.isSome := by
    cases axis with
    | none =>
      obtain rfl : none = moved := Option.some.inj h
      rfl
    | some v =>
      simp only [shiftAxis] at h
      split at h
      · exact (Option.some.inj h) ▸ rfl
      · split at h
        · exact (Option.some.inj h) ▸ rfl
        · cases h
  obtain ⟨row, column, hrow, hcolumn, rfl⟩ := shift?_eq h
  simp only [isBounded, haxis hrow, haxis hcolumn]

theorem IsKept.shift? (ha : a.IsKept) (h : a.shift? rows columns = some b) : b.IsKept := by
  unfold IsKept
  rw [sheet_shift? h, isBounded_shift? h]
  exact ha

/-- A reference on the sheet stays where it is. -/
theorem shift?_zero (h : a.IsCell ∨ a.IsRow ∨ a.IsColumn) : a.shift? 0 0 = some a := by
  have haxis {axis : Option Nat} {fixed : Bool} {last : Nat} (h : ∀ v ∈ axis, v ≤ last) :
      shiftAxis axis fixed 0 last = some axis := by
    cases axis with
    | none => rfl
    | some v => simp [shiftAxis, h v rfl]
  have hbounds : (∀ v ∈ a.row, v ≤ Row.last) ∧ ∀ v ∈ a.column, v ≤ Column.last := by
    rcases h with ⟨row, column, hrow, hcolumn, hrow', hcolumn'⟩ | ⟨row, hrow, hrow', hcolumn, -⟩ |
      ⟨column, hcolumn, hcolumn', hrow, -⟩ <;> simp [hrow, hcolumn] <;> omega
  rw [shift?, haxis hbounds.1, haxis hbounds.2]

theorem shiftAxis_zero {axis axis' : Option Nat} {fixed : Bool} {last : Nat}
    (h : shiftAxis axis fixed 0 last = some axis') : axis' = axis := by
  unfold shiftAxis at h
  split at h
  · exact (Option.some.inj h).symm
  · split at h
    · exact (Option.some.inj h).symm
    · simp only at h
      split at h
      · simpa using (Option.some.inj h).symm
      · cases h

theorem moved_zero (a : Reference) : a.moved 0 0 = a := by
  unfold moved
  cases h : a.shift? 0 0 with
  | none => rfl
  | some b =>
    obtain ⟨row, column, hrow, hcolumn, rfl⟩ := shift?_eq h
    rw [Option.getD_some, shiftAxis_zero hrow, shiftAxis_zero hcolumn]

theorem IsCell.shift? (ha : a.IsCell) (h : a.shift? rows columns = some b) : b.IsCell := by
  obtain ⟨r, c, hr, hc, hr', hc'⟩ := ha
  obtain ⟨row, column, hrow, hcolumn, rfl⟩ := shift?_eq h
  rw [hr] at hrow
  rw [hc] at hcolumn
  obtain ⟨r', rfl, hr'⟩ := shiftAxis_le hrow hr'
  obtain ⟨c', rfl, hc'⟩ := shiftAxis_le hcolumn hc'
  exact ⟨r', c', rfl, rfl, hr', hc'⟩

theorem IsRow.shift? (ha : a.IsRow) (h : a.shift? rows columns = some b) : b.IsRow := by
  obtain ⟨r, hr, hr', hc, hfixed⟩ := ha
  obtain ⟨row, column, hrow, hcolumn, rfl⟩ := shift?_eq h
  rw [hr] at hrow
  rw [hc] at hcolumn
  obtain ⟨r', rfl, hr'⟩ := shiftAxis_le hrow hr'
  exact ⟨r', rfl, hr', (Option.some.inj hcolumn).symm, hfixed⟩

theorem IsColumn.shift? (ha : a.IsColumn) (h : a.shift? rows columns = some b) : b.IsColumn := by
  obtain ⟨c, hc, hc', hr, hfixed⟩ := ha
  obtain ⟨row, column, hrow, hcolumn, rfl⟩ := shift?_eq h
  rw [hr] at hrow
  rw [hc] at hcolumn
  obtain ⟨c', rfl, hc'⟩ := shiftAxis_le hcolumn hc'
  exact ⟨c', rfl, hc', (Option.some.inj hrow).symm, hfixed⟩

end Reference

/-! ### What is mentioned -/

namespace Mention

variable {m n : Mention} {p : Nat}

theorem le_last_of_rowOfDigits? {ds : List Char} {r : Nat} (h : rowOfDigits? ds = some r) : r ≤ Row.last := by
  simp only [rowOfDigits?] at h
  split at h
  · cases h
  · rename_i hds
    simp only [Bool.or_eq_true, decide_eq_true_eq, not_or] at hds
    have hbound : ¬4294967296 ≤ Number.digitsValue ds := hds.2
    have hr := Option.some.inj h
    simp only [Row.last]
    omega

theorem isCell_of_word {cs : List Char} (h : ofCellWord? cs p = some m) : m.target.IsCell := by
  simp only [ofCellWord?] at h
  split at h
  · rename_i c r hc hr
    obtain rfl := Option.some.inj h
    exact ⟨r, c, rfl, rfl, le_last_of_rowOfDigits? hr, Column.le_last_of_ofLetters? hc⟩
  · cases h

theorem isAxis_of_word {cs : List Char} (h : ofAxisWord? cs p = some m) : m.target.IsRow ∨ m.target.IsColumn := by
  simp only [ofAxisWord?] at h
  split at h
  · cases h
  · split at h
    · rename_i r hr
      obtain rfl := Option.some.inj h
      exact .inl ⟨r, rfl, le_last_of_rowOfDigits? hr, rfl, rfl⟩
    · rename_i c hr hc
      obtain rfl := Option.some.inj h
      exact .inr ⟨c, rfl, Column.le_last_of_ofLetters? hc, rfl, rfl⟩
    · cases h

theorem isRow_of_number {x : Float} {spelling : Option String} (h : ofRowNumber? x spelling p = some m) :
    m.target.IsRow := by
  simp only [ofRowNumber?] at h
  split at h
  · obtain rfl := Option.some.inj h
    refine ⟨_, rfl, ?_, rfl, rfl⟩
    have hclamp : Number.clampNat 32 x ≤ 4294967295 := by
      unfold Number.clampNat Number.clampInt
      rw [show ((1 <<< 32 - 1 : Nat) : Int) = 4294967295 from rfl]
      split
      · omega
      · split <;> omega
      · omega
    simp only [Row.last]
    omega
  · cases h

theorem isAxis_of_unit {e : Expression} (h : ofUnit? e = some m) : m.target.IsRow ∨ m.target.IsColumn := by
  unfold ofUnit? at h
  split at h
  · exact .inl (isRow_of_number h)
  · exact isAxis_of_word h
  · cases h

/-! ### Labels that are read back -/

/-- The part of a label that names the sheet, without the `!`. -/
def sheetPart (name : String) : List Char :=
  if SheetName.needsQuotes name then '\x27' :: (name.toList ++ ['\x27']) else name.toList

theorem toList_labelStart (name : String) : (SheetName.labelStart name).toList = sheetPart name ++ ['!'] := by
  unfold SheetName.labelStart sheetPart
  split <;> simp

/-- What stands before the rest of a label. -/
def sheetChars (sheet : Option String) : List Char :=
  match sheet with
  | some name => sheetPart name ++ ['!']
  | none => []

theorem toList_sheet (sheet : Option String) :
    ((sheet.map SheetName.labelStart).getD "").toList = sheetChars sheet := by
  cases sheet with
  | none => rfl
  | some name => exact toList_labelStart name

theorem splitSheet_append (raw : List Char) {cs : List Char} (hcs : '!' ∉ cs) :
    splitSheet (raw ++ '!' :: cs) = (some raw, cs) := by
  have htake : (raw ++ '!' :: cs).reverse.takeWhile (· != '!') = cs.reverse := by
    rw [List.reverse_append, List.reverse_cons, List.append_assoc, List.takeWhile_append_of_pos fun c hc => ?_]
    · rw [List.singleton_append, List.takeWhile_cons_of_neg (by simp), List.append_nil]
    · have hne : c ≠ '!' := fun h => hcs (h ▸ List.mem_reverse.1 hc)
      simpa using hne
  have hmark : (raw ++ '!' :: cs).contains '!' = true := by simp
  simp only [splitSheet, htake, List.reverse_reverse, hmark, if_true, List.length_append, List.length_cons]
  rw [show raw.length + (cs.length + 1) - cs.length - 1 = raw.length by omega, List.take_left]

theorem splitSheet_of_not_mem {cs : List Char} (hcs : '!' ∉ cs) : splitSheet cs = (none, cs) := by
  simp [splitSheet, hcs]

theorem splitSheet_sheetChars (sheet : Option String) {cs : List Char} (hcs : '!' ∉ cs) :
    splitSheet (sheetChars sheet ++ cs) = (sheet.map sheetPart, cs) := by
  cases sheet with
  | none => exact splitSheet_of_not_mem hcs
  | some name =>
    rw [sheetChars, List.append_assoc, List.singleton_append]
    exact splitSheet_append _ hcs

variable {name : String} {bounded : Bool}

/-- Quotes in front of a word are no quotes around it. -/
theorem unquote_partlyQuoted (h : SheetName.isPartlyQuoted name = true) : unquote name.toList = name.toList := by
  obtain ⟨inner, rest, hsplit, -, hne, hrest⟩ := SheetName.isPartlyQuoted_iff.1 h
  have hlast : (inner ++ '\x27' :: rest).getLast? ≠ some '\x27' := fun hlast => by
    rw [List.getLast?_append_cons, List.getLast?_cons_of_ne_nil hne] at hlast
    exact absurd (hrest _ (List.mem_of_getLast? hlast)) (by decide)
  rw [hsplit, unquote, if_neg (by simpa using hlast)]

theorem unquote_bare (h : SheetName.isBare name = true) : unquote name.toList = name.toList := by
  obtain ⟨c, cs, heq, hc, -⟩ := SheetName.isBare_iff.1 h
  unfold unquote
  split
  · rename_i heq'
    exact absurd (List.cons.inj (heq.symm.trans heq')).1 hc
  · rfl

theorem unquote_sheetPart (h : SheetName.IsKept bounded name) : unquote (sheetPart name) = name.toList := by
  unfold SheetName.IsKept at h
  unfold sheetPart
  split
  · simp [unquote]
  · rename_i hquotes
    rw [if_neg hquotes] at h
    rcases h with hbare | ⟨-, hpartly⟩
    · exact unquote_bare hbare
    · exact unquote_partlyQuoted hpartly

theorem sheetName_sheetPart {a : Reference} (h : a.IsKept) : sheetName (a.sheet.map sheetPart) = a.sheet := by
  cases hsheet : a.sheet with
  | none => rfl
  | some name =>
    simp only [Option.map_some, sheetName, unquote_sheetPart (h name hsheet), String.ofList_toList]

theorem isSheetPart_sheetPart (h : SheetName.IsKept false name) : isSheetPart (sheetPart name) = true := by
  unfold SheetName.IsKept at h
  unfold sheetPart
  split
  · simp [isSheetPart]
  · rename_i hquotes
    rw [if_neg hquotes] at h
    obtain ⟨c, cs, heq, hc, -⟩ := SheetName.isBare_iff.1 (h.resolve_right (by simp))
    rw [heq, isSheetPart]
    rintro rest ⟨rfl, -⟩
    exact hc rfl

/-! ### Labels are words -/

open Formula Formula.Lexeme

/-- The characters of labels besides the sheet: capitals, digits and `$`. -/
def LabelChars (cs : List Char) : Prop :=
  ∀ c ∈ cs, c.toNat = 36 ∨ 48 ≤ c.toNat ∧ c.toNat ≤ 57 ∨ 65 ≤ c.toNat ∧ c.toNat ≤ 90

theorem LabelChars.append {cs ds : List Char} (hc : LabelChars cs) (hd : LabelChars ds) : LabelChars (cs ++ ds) := by
  intro c hmem
  rcases List.mem_append.1 hmem with h | h
  · exact hc c h
  · exact hd c h

theorem labelChars_dollar (fixed : Bool) : LabelChars (Reference.dollar fixed).toList := by
  cases fixed <;> simp [LabelChars, Reference.dollar]

theorem labelChars_letters (c : Nat) : LabelChars (Column.letters c) :=
  fun d hd => .inr (.inr (Column.capitals_letters c d hd))

theorem labelChars_digits {cs : List Char} (h : Number.Digits cs) : LabelChars cs :=
  fun d hd => .inr (.inl (isDigit_iff.1 (h d hd)))

theorem LabelChars.not_mem {cs : List Char} (h : LabelChars cs) : '!' ∉ cs := by
  intro hmem
  have : '!'.toNat = 33 := rfl
  rcases h '!' hmem with h | h | h <;> omega

theorem LabelChars.isWordUnit {cs : List Char} (h : LabelChars cs) (c : Char) (hc : c ∈ cs) :
    isWordUnit c.toNat = true := by
  have hc := h c hc
  simp [Formula.isWordUnit, isLetterUnit, isDigitUnit, isAccentedUnit, unitOf]
  omega

theorem spans_wordUnits {cs : List Char} (h : ∀ c ∈ cs, isWordUnit c.toNat = true) :
    Spans false (cs.flatMap Text.unitsOfChar) false := by
  induction cs with
  | nil => exact spans_nil.2 rfl
  | cons c cs ih =>
    have hc := h c List.mem_cons_self
    have hlt := lt_of_isWordUnit hc
    rw [List.flatMap_cons, Text.unitsOfChar_of_lt (by omega), List.singleton_append]
    exact spans_cons.2 ⟨hc, ih fun d hd => h d (List.mem_cons_of_mem c hd)⟩

/-- Outside quotes a word goes on with the characters of words only. -/
theorem spans_false_iff {cs : List Char} {last : Bool} :
    Spans false (cs.flatMap Text.unitsOfChar) last ↔ last = false ∧ ∀ c ∈ cs, isWordUnit c.toNat = true := by
  induction cs generalizing last with
  | nil =>
    rw [List.flatMap_nil, spans_nil, eq_comm]
    simp
  | cons c cs ih =>
    rw [List.flatMap_cons]
    by_cases hlt : c.toNat < 0x10000
    · rw [Text.unitsOfChar_of_lt hlt, List.singleton_append, spans_cons, Bool.false_and, ih]
      simp only [Bool.false_or, List.mem_cons, forall_eq_or_imp]
      tauto
    · rw [Text.unitsOfChar_of_le (by omega)]
      constructor
      · intro h
        cases (spans_cons_high (by omega) h).1
      · rintro ⟨-, hall⟩
        have := lt_of_isWordUnit (hall c List.mem_cons_self)
        omega

/-- Inside quotes a word that ends outside them goes on to the closing quote and then with the characters of words. -/
theorem spans_true_iff {cs : List Char} : Spans true (cs.flatMap Text.unitsOfChar) false ↔
    ∃ inner rest, cs = inner ++ '\x27' :: rest ∧ '\x27' ∉ inner ∧ ∀ c ∈ rest, isWordUnit c.toNat = true := by
  have hclosing : Spans true (Text.unitsOfChar '\x27') false := rfl
  constructor
  · intro h
    induction cs with
    | nil => cases spans_nil.1 h
    | cons c cs ih =>
      rw [List.flatMap_cons] at h
      by_cases hc : c = '\x27'
      · subst hc
        exact ⟨[], cs, rfl, List.not_mem_nil, (spans_false_iff.1 ((hclosing.append_iff).1 h)).2⟩
      · obtain ⟨inner, rest, rfl, hinner, hrest⟩ := ih ((spans_unitsOfChar hc).append_iff.1 h)
        exact ⟨c :: inner, rest, rfl, by simp [hinner, Ne.symm hc], hrest⟩
  · rintro ⟨inner, rest, rfl, hinner, hrest⟩
    rw [List.flatMap_append, List.flatMap_cons]
    exact (spans_flatMap fun c hc heq => hinner (heq ▸ hc)).append (hclosing.append (spans_false_iff.2 ⟨rfl, hrest⟩))

theorem not_truth_of_mem {cs : List Char} {c : Char} (hc : c ∈ cs) (hlt : c.toNat < 65) :
    Text.equalIgnoringCase (String.ofList cs) "true" = false ∧
      Text.equalIgnoringCase (String.ofList cs) "false" = false := by
  have hupper : c ∈ (Text.upper (String.ofList cs)).toList := by
    rw [Text.toList_upper, String.toList_ofList]
    exact List.mem_map.2 ⟨c, hc, Column.toUpper_of_lt (by omega)⟩
  have hne (word : String) (hword : ∀ d ∈ (Text.upper word).toList, 65 ≤ d.toNat) :
      Text.equalIgnoringCase (String.ofList cs) word = false := by
    refine Bool.eq_false_iff.2 fun heq => ?_
    rw [Text.equalIgnoringCase_iff.1 heq] at hupper
    have := hword c hupper
    omega
  exact ⟨hne "true" (by simp [Text.toList_upper]), hne "false" (by simp [Text.toList_upper])⟩

theorem not_truth_of_length {cs : List Char} (h : cs.length ≤ 3) :
    Text.equalIgnoringCase (String.ofList cs) "true" = false ∧
      Text.equalIgnoringCase (String.ofList cs) "false" = false := by
  have hlength : (Text.upper (String.ofList cs)).toList.length ≤ 3 := by simpa using h
  have hne (word : String) (hword : 3 < (Text.upper word).toList.length) :
      Text.equalIgnoringCase (String.ofList cs) word = false := by
    refine Bool.eq_false_iff.2 fun heq => ?_
    rw [Text.equalIgnoringCase_iff.1 heq] at hlength
    omega
  exact ⟨hne "true" (by decide), hne "false" (by decide)⟩

/-- Characters of words make a word if they are none of the truth values. -/
theorem isWord_of_wordUnits {c : Char} {cs : List Char} (hstart : isWordStart c.toNat = true) (hquote : c ≠ '\x27')
    (hcs : ∀ d ∈ cs, isWordUnit d.toNat = true) (htruth : (∃ d ∈ c :: cs, d.toNat < 65) ∨ (c :: cs).length ≤ 3) :
    IsWord (String.ofList (c :: cs)) := by
  have hquote : (c.toNat == unitOf '\x27') = false := beq_eq_false_iff_ne.2 fun h => hquote (Char.toNat_inj.1 h)
  obtain ⟨htrue, hfalse⟩ : Text.equalIgnoringCase (String.ofList (c :: cs)) "true" = false ∧
      Text.equalIgnoringCase (String.ofList (c :: cs)) "false" = false := by
    rcases htruth with ⟨d, hd, hlt⟩ | hlength
    · exact not_truth_of_mem hd hlt
    · exact not_truth_of_length hlength
  refine ⟨⟨c.toNat, cs.flatMap Text.unitsOfChar, ?_, hstart, ?_⟩, htrue, hfalse⟩
  · have hlt := lt_of_isWordStart hstart
    rw [Text.units_ofList, List.flatMap_cons, Text.unitsOfChar_of_lt (by omega), List.singleton_append]
  · rw [hquote]
    exact spans_wordUnits hcs

/-- A label without a sheet is a word. -/
theorem isWord_bare {c : Char} {cs : List Char} (hcs : LabelChars (c :: cs)) (hc : ¬(48 ≤ c.toNat ∧ c.toNat ≤ 57))
    (htruth : (∃ d ∈ c :: cs, d.toNat < 65) ∨ (c :: cs).length ≤ 3) : IsWord (String.ofList (c :: cs)) := by
  have hfirst := hcs c List.mem_cons_self
  refine isWord_of_wordUnits ?_ (fun hquote => ?_) (fun d hd => hcs.isWordUnit d (List.mem_cons_of_mem c hd)) htruth
  · simp [isWordStart, isLetterUnit, unitOf]
    omega
  · obtain rfl := hquote
    simp at hfirst

/-- The letters, digits and `_`, which are all that a name without quotes has. -/
def IsPlainChar (c : Char) : Prop :=
  (65 ≤ c.toNat ∧ c.toNat ≤ 90 ∨ 97 ≤ c.toNat ∧ c.toNat ≤ 122) ∨ 48 ≤ c.toNat ∧ c.toNat ≤ 57 ∨ c.toNat = 95

theorem isPlainChar_iff {c : Char} :
    IsPlainChar c ↔ (Number.isLetter c || Number.isDigit c || c == '_') = true := by
  have hletter : Number.isLetter c = true ↔ 65 ≤ c.toNat ∧ c.toNat ≤ 90 ∨ 97 ≤ c.toNat ∧ c.toNat ≤ 122 :=
    Column.isLetter_iff
  have hunderscore : c = '_' ↔ c.toNat = 95 := by
    rw [← Char.toNat_inj]
    exact Iff.rfl
  rw [Bool.or_eq_true, Bool.or_eq_true, hletter, isDigit_iff, beq_iff_eq, hunderscore, or_assoc, IsPlainChar]

theorem isSimple_chars {name : String} (h : SheetName.isSimple name = true) : ∃ c cs, name.toList = c :: cs ∧
    ¬(48 ≤ c.toNat ∧ c.toNat ≤ 57) ∧ ∀ d ∈ c :: cs, IsPlainChar d := by
  unfold SheetName.isSimple at h
  split at h
  · cases h
  · rename_i c cs heq
    rw [Bool.and_eq_true, List.all_eq_true] at h
    obtain ⟨hfirst, hrest⟩ := h
    have hdigit : ¬(48 ≤ c.toNat ∧ c.toNat ≤ 57) := fun hc => by
      have hletter : Number.isLetter c = true ↔ 65 ≤ c.toNat ∧ c.toNat ≤ 90 ∨ 97 ≤ c.toNat ∧ c.toNat ≤ 122 :=
        Column.isLetter_iff
      rcases Bool.or_eq_true _ _ ▸ hfirst with h | h
      · have := hletter.1 h
        omega
      · obtain rfl := eq_of_beq h
        exact absurd hc (by decide)
    refine ⟨c, cs, heq, hdigit, fun d hd => isPlainChar_iff.2 ?_⟩
    rcases List.mem_cons.1 hd with rfl | hd
    · rcases Bool.or_eq_true _ _ ▸ hfirst with h | h <;> simp [h]
    · exact hrest d hd

theorem needsQuotes_simple {name : String} (h : SheetName.isSimple name = true) :
    SheetName.needsQuotes name = false := by
  obtain ⟨c, cs, heq, -, hall⟩ := isSimple_chars h
  refine Bool.eq_false_iff.2 fun hneeds => ?_
  rw [SheetName.needsQuotes, heq, List.any_eq_true] at hneeds
  obtain ⟨d, hd, hbad⟩ := hneeds
  have hplain := hall d hd
  rw [Bool.or_eq_true] at hbad
  rcases hbad with hblank | hmark
  · simp [Text.isBlank] at hblank
    unfold IsPlainChar at hplain
    omega
  · have hmarks : ∀ c ∈ "-+=<>!()".toList, c.toNat < 48 ∨ c.toNat = 61 ∨ c.toNat = 60 ∨ c.toNat = 62 := by simp
    have hcode := hmarks d (List.contains_iff_mem.1 hmark)
    unfold IsPlainChar at hplain
    omega

theorem quote_eq (c : Char) : (c.toNat == unitOf '\x27') = decide (c = '\x27') := by
  rw [Bool.eq_iff_iff, beq_iff_eq, decide_eq_true_eq, ← Char.toNat_inj]
  exact Iff.rfl

/-- The characters of a word: quotes open at the start or not at all. -/
theorem shape_of_isWord {c : Char} {cs : List Char} (h : IsWord (String.ofList (c :: cs))) :
    (c = '\x27' ∧ ∃ inner rest, cs = inner ++ '\x27' :: rest ∧ '\x27' ∉ inner ∧
      ∀ d ∈ rest, isWordUnit d.toNat = true) ∨
    (c ≠ '\x27' ∧ isWordStart c.toNat = true ∧ ∀ d ∈ cs, isWordUnit d.toNat = true) := by
  obtain ⟨u, us, hunits, hstart, hspans⟩ := h.spans
  have hlt : c.toNat < 0x10000 := by
    by_contra hle
    rw [Text.units_ofList, List.flatMap_cons, Text.unitsOfChar_of_le (by omega)] at hunits
    have := lt_of_isWordStart hstart
    have := (List.cons.inj hunits).1
    omega
  rw [Text.units_ofList, List.flatMap_cons, Text.unitsOfChar_of_lt hlt] at hunits
  obtain ⟨rfl, rfl⟩ := List.cons.inj hunits
  rw [quote_eq] at hspans
  by_cases hc : c = '\x27'
  · rw [decide_eq_true hc] at hspans
    exact .inl ⟨hc, spans_true_iff.1 hspans⟩
  · rw [decide_eq_false hc] at hspans
    exact .inr ⟨hc, hstart, (spans_false_iff.1 hspans).2⟩

/-- A text of such characters with a mark of a sheet in it is a word. -/
theorem isWord_ofList_iff {c : Char} {cs : List Char} (hmark : '!' ∈ c :: cs) : IsWord (String.ofList (c :: cs)) ↔
    (c = '\x27' ∧ ∃ inner rest, cs = inner ++ '\x27' :: rest ∧ '\x27' ∉ inner ∧
      ∀ d ∈ rest, isWordUnit d.toNat = true) ∨
    (c ≠ '\x27' ∧ isWordStart c.toNat = true ∧ ∀ d ∈ cs, isWordUnit d.toNat = true) := by
  have hunits (hlt : c.toNat < 0x10000) :
      Text.units (String.ofList (c :: cs)) = c.toNat :: cs.flatMap Text.unitsOfChar := by
    rw [Text.units_ofList, List.flatMap_cons, Text.unitsOfChar_of_lt hlt, List.singleton_append]
  refine ⟨shape_of_isWord, fun h => ?_⟩
  obtain ⟨htrue, hfalse⟩ := not_truth_of_mem hmark (by decide)
  refine ⟨?_, htrue, hfalse⟩
  rcases h with ⟨rfl, h⟩ | ⟨hc, hstart, hall⟩
  · exact ⟨_, _, hunits (by decide), rfl, spans_true_iff.2 h⟩
  · refine ⟨_, _, hunits (by have := lt_of_isWordStart hstart; omega), hstart, ?_⟩
    rw [quote_eq, decide_eq_false hc]
    exact spans_false_iff.2 ⟨rfl, hall⟩

theorem quote_not_mem {cs : List Char} (h : ∀ c ∈ cs, isWordUnit c.toNat = true) : '\x27' ∉ cs :=
  fun hmem => absurd (h _ hmem) (by decide)

/-- A quote lies in front of what has no quotes. -/
theorem split_at_quote {cs ds inner rest : List Char} (hsplit : ds ++ cs = inner ++ '\x27' :: rest)
    (hcs : '\x27' ∉ cs) : ∃ middle, ds = inner ++ '\x27' :: middle ∧ rest = middle ++ cs := by
  rcases List.append_eq_append_iff.1 hsplit with ⟨middle, -, hmiddle⟩ | ⟨middle, rfl, hmiddle⟩
  · exact absurd (hmiddle ▸ List.mem_append_right _ List.mem_cons_self) hcs
  · cases middle with
    | nil =>
      rw [List.nil_append] at hmiddle
      exact absurd (hmiddle ▸ List.mem_cons_self) hcs
    | cons q middle =>
      obtain ⟨rfl, rfl⟩ := List.cons.inj hmiddle
      exact ⟨middle, rfl, rfl⟩

/-- When a label with a sheet is a word. -/
theorem isWord_sheet_iff {cs : List Char} (hcs : LabelChars cs) :
    IsWord (String.ofList (sheetPart name ++ '!' :: cs)) ↔
      if SheetName.needsQuotes name then '\x27' ∉ name.toList
      else SheetName.isBare name = true ∨ ∃ inner rest, name.toList = '\x27' :: (inner ++ '\x27' :: rest) ∧
        '\x27' ∉ inner ∧ ∀ d ∈ rest, isWordUnit d.toNat = true := by
  have hbody (d : Char) (hd : d ∈ '!' :: cs) : isWordUnit d.toNat = true := by
    rcases List.mem_cons.1 hd with rfl | hd
    · rfl
    · exact hcs.isWordUnit d hd
  have hnone : '\x27' ∉ '!' :: cs := quote_not_mem hbody
  unfold sheetPart
  split
  · rename_i hquotes
    rw [List.cons_append, List.append_assoc, List.singleton_append, isWord_ofList_iff (by simp)]
    constructor
    · rintro (⟨-, inner, rest, hsplit, hinner, hrest⟩ | ⟨hne, -⟩)
      · have hcount := congrArg (List.count '\x27') hsplit
        have hinner' := List.count_eq_zero.2 hinner
        have hrest' := List.count_eq_zero.2 (quote_not_mem hrest)
        have hnone' := List.count_eq_zero.2 hnone
        simp only [List.count_append, List.count_cons_self] at hcount
        exact List.count_eq_zero.1 (by omega)
      · exact absurd rfl hne
    · exact fun hmem => .inl ⟨rfl, _, _, rfl, hmem, hbody⟩
  · cases hname : name.toList with
    | nil =>
      have hbare : SheetName.isBare name = false := by simp [SheetName.isBare, hname]
      rw [List.nil_append, isWord_ofList_iff (by simp), hbare]
      have hstart : isWordStart '!'.toNat = false := rfl
      simp only [hstart]
      simp
    | cons c ds =>
      rw [List.cons_append, isWord_ofList_iff (by simp), SheetName.isBare_iff, hname, or_comm]
      refine or_congr ⟨?_, ?_⟩ ⟨?_, ?_⟩
      · rintro ⟨hc, hstart, hall⟩
        exact ⟨c, ds, rfl, hc, hstart, fun d hd => hall d (List.mem_append_left _ hd)⟩
      · rintro ⟨_, _, ⟨⟩, hc, hstart, hall⟩
        exact ⟨hc, hstart, fun d hd => (List.mem_append.1 hd).elim (hall d) (hbody d)⟩
      · rintro ⟨rfl, inner, rest, hsplit, hinner, hrest⟩
        obtain ⟨middle, rfl, rfl⟩ := split_at_quote hsplit hnone
        exact ⟨inner, middle, rfl, hinner, fun d hd => hrest d (List.mem_append_left _ hd)⟩
      · rintro ⟨inner, rest, hsplit, hinner, hrest⟩
        obtain ⟨rfl, rfl⟩ := List.cons.inj hsplit
        refine ⟨rfl, inner, rest ++ '!' :: cs, by simp, hinner, fun d hd => ?_⟩
        exact (List.mem_append.1 hd).elim (hrest d) (hbody d)

/-- A label with a sheet that it keeps is a word. -/
theorem isWord_sheet (hname : SheetName.IsKept bounded name) {cs : List Char} (hcs : LabelChars cs) :
    IsWord (String.ofList (sheetPart name ++ '!' :: cs)) := by
  unfold SheetName.IsKept at hname
  refine (isWord_sheet_iff hcs).2 ?_
  split
  · rename_i hquotes
    rwa [if_pos hquotes] at hname
  · rename_i hquotes
    rw [if_neg hquotes] at hname
    refine hname.imp_right fun h => ?_
    obtain ⟨inner, rest, hsplit, hinner, -, hrest⟩ := SheetName.isPartlyQuoted_iff.1 h.2
    exact ⟨inner, rest, hsplit, hinner, hrest⟩

/-- Names that are read back are kept. -/
theorem isKept_of_isReadable (h : SheetName.IsReadable name) : SheetName.IsKept bounded name := by
  unfold SheetName.IsKept
  rcases h with hsimple | ⟨hneeds, hquote⟩
  · obtain ⟨c, ds, heq, hdigit, hall⟩ := isSimple_chars hsimple
    have hfirst := hall c List.mem_cons_self
    unfold IsPlainChar at hfirst
    rw [needsQuotes_simple hsimple, if_neg Bool.false_ne_true]
    refine .inl (SheetName.isBare_iff.2 ⟨c, ds, heq, ?_, ?_, fun d hd => ?_⟩)
    · rintro rfl
      exact absurd hfirst (by decide)
    · simp [isWordStart, isLetterUnit, isAccentedUnit, unitOf]
      omega
    · have := hall d (List.mem_cons_of_mem c hd)
      unfold IsPlainChar at this
      simp [Formula.isWordUnit, isLetterUnit, isDigitUnit, isAccentedUnit, unitOf]
      omega
  · rwa [if_pos hneeds]

/-! ### Reading a label -/

variable {a : Reference}

theorem takeDollar_dollar (fixed : Bool) (cs : List Char) (h : ∀ c ∈ cs.head?, c ≠ '$') :
    takeDollar ((Reference.dollar fixed).toList ++ cs) = (fixed, cs) := by
  cases fixed with
  | true => rfl
  | false =>
    cases cs with
    | nil => rfl
    | cons c cs =>
      have hc := h c rfl
      change takeDollar (c :: cs) = _
      unfold takeDollar
      split
      · rename_i heq
        exact absurd (List.cons.inj heq).1 hc
      · rfl

theorem rowOfDigits?_name {r : Nat} (h : r ≤ Row.last) : rowOfDigits? (Row.name r).toList = some r := by
  have hempty : (Row.name r).toList.isEmpty = false := by simpa using Row.name_ne_nil r
  have hall : (Row.name r).toList.all Number.isDigit = true := List.all_eq_true.2 (Row.digits_name r)
  have hbound : ¬4294967296 ≤ r + 1 := by
    have : r ≤ 4294967294 := h
    omega
  simp only [rowOfDigits?, Row.digitsValue_name, hempty, hall]
  rw [if_neg]
  · rfl
  · simpa [Row.numberBound] using hbound

/-- What stands after the sheet of a label. -/
def bodyChars (a : Reference) : List Char :=
  (a.column.elim [] fun c => (Reference.dollar a.fixedColumn).toList ++ Column.letters c) ++
    a.row.elim [] fun r => (Reference.dollar a.fixedRow).toList ++ (Row.name r).toList

theorem toList_spelling (h : a.row ≠ none ∨ a.column ≠ none) :
    a.spelling.toList = sheetChars a.sheet ++ bodyChars a := by
  unfold Reference.spelling bodyChars
  rw [← toList_sheet]
  cases hcolumn : a.column <;> cases hrow : a.row <;> simp_all [Column.name]

theorem labelChars_bodyChars (a : Reference) : LabelChars (bodyChars a) := by
  unfold bodyChars
  refine LabelChars.append ?_ ?_
  · cases a.column with
    | none => exact fun _ h => absurd h List.not_mem_nil
    | some c => exact (labelChars_dollar _).append (labelChars_letters c)
  · cases a.row with
    | none => exact fun _ h => absurd h List.not_mem_nil
    | some r => exact (labelChars_dollar _).append (labelChars_digits (Row.digits_name r))

theorem splitSheet_spelling (h : a.row ≠ none ∨ a.column ≠ none) :
    splitSheet a.spelling.toList = (a.sheet.map sheetPart, bodyChars a) := by
  rw [toList_spelling h]
  exact splitSheet_sheetChars a.sheet (labelChars_bodyChars a).not_mem

theorem takeWhile_letters (c : Nat) (cs : List Char) (hcs : ∀ d ∈ cs.head?, Column.isLetter d = false) :
    (Column.letters c ++ cs).takeWhile Column.isLetter = Column.letters c ∧
      (Column.letters c ++ cs).dropWhile Column.isLetter = cs := by
  have hall (d : Char) (hd : d ∈ Column.letters c) : Column.isLetter d = true :=
    Column.isLetter_iff.2 (.inl (Column.capitals_letters c d hd))
  rw [List.takeWhile_append_of_pos hall, List.dropWhile_append_of_pos hall]
  cases cs with
  | nil => exact ⟨List.append_nil _, rfl⟩
  | cons d cs =>
    have hd : ¬Column.isLetter d = true := by simp [hcs d rfl]
    rw [List.takeWhile_cons_of_neg hd, List.dropWhile_cons_of_neg hd]
    exact ⟨List.append_nil _, rfl⟩

/-- Letters start with no `$`. -/
theorem head_letters (c : Nat) (cs : List Char) : ∀ d ∈ (Column.letters c ++ cs).head?, 65 ≤ d.toNat ∧ d.toNat ≤ 90 := by
  intro d hd
  cases hletters : Column.letters c with
  | nil => exact absurd hletters (Column.letters_ne_nil c)
  | cons e es =>
    rw [hletters] at hd
    obtain rfl : e = d := Option.some.inj hd
    exact Column.capitals_letters c e (hletters ▸ List.mem_cons_self)

theorem head_rowName (r : Nat) : ∀ d ∈ (Row.name r).toList.head?, 48 ≤ d.toNat ∧ d.toNat ≤ 57 :=
  fun d hd => isDigit_iff.1 (Row.digits_name r d (List.mem_of_head? hd))

theorem ne_dollar {d : Char} (h : 48 ≤ d.toNat) : d ≠ '$' := by
  rintro rfl
  revert h
  decide

/-- The label of a cell is read as that cell. -/
theorem ofCellWord?_cell (h : a.IsCell) (hsheet : a.IsKept) (p : Nat) :
    ∃ m, ofCellWord? a.spelling.toList p = some m ∧ m.target = a := by
  obtain ⟨r, c, hrow, hcolumn, hr, hc⟩ := h
  have hsplit := splitSheet_spelling (a := a) (.inl (by simp [hrow]))
  have hbody : bodyChars a = (Reference.dollar a.fixedColumn).toList ++
      (Column.letters c ++ ((Reference.dollar a.fixedRow).toList ++ (Row.name r).toList)) := by
    simp [bodyChars, hrow, hcolumn]
  have hnext : ∀ d ∈ ((Reference.dollar a.fixedRow).toList ++ (Row.name r).toList).head?,
      Column.isLetter d = false := by
    intro d hd
    refine Bool.eq_false_iff.2 fun hletter => ?_
    have hletter := Column.isLetter_iff.1 hletter
    cases hfixed : a.fixedRow with
    | true =>
      rw [hfixed] at hd
      obtain rfl : '$' = d := Option.some.inj hd
      revert hletter
      decide
    | false =>
      rw [hfixed] at hd
      have := head_rowName r d hd
      omega
  obtain ⟨htake, hdrop⟩ := takeWhile_letters c _ hnext
  have hfirst := takeDollar_dollar a.fixedColumn (Column.letters c ++ ((Reference.dollar a.fixedRow).toList ++
    (Row.name r).toList)) fun d hd => ne_dollar (by have := head_letters c _ d hd; omega)
  have hsecond := takeDollar_dollar a.fixedRow (Row.name r).toList fun d hd => ne_dollar (head_rowName r d hd).1
  refine Option.map_eq_some_iff.1 ?_
  unfold ofCellWord?
  simp only [hsplit, hbody, hfirst, htake, hdrop, hsecond, Column.ofLetters?_letters hc, rowOfDigits?_name hr,
    sheetName_sheetPart hsheet]
  simp only [Option.map_some, ← hrow, ← hcolumn]

/-- The label of a whole row or column is no cell. -/
theorem ofCellWord?_axis (h : a.IsRow ∨ a.IsColumn) (p : Nat) : ofCellWord? a.spelling.toList p = none := by
  rcases h with ⟨r, hrow, hr, hcolumn, -⟩ | ⟨c, hcolumn, hc, hrow, -⟩
  · have hsplit := splitSheet_spelling (a := a) (.inl (by simp [hrow]))
    have hbody : bodyChars a = (Reference.dollar a.fixedRow).toList ++ (Row.name r).toList := by
      simp [bodyChars, hrow, hcolumn]
    have hfirst := takeDollar_dollar a.fixedRow (Row.name r).toList fun d hd => ne_dollar (head_rowName r d hd).1
    have htake : (Row.name r).toList.takeWhile Column.isLetter = [] := by
      cases hname : (Row.name r).toList with
      | nil => rfl
      | cons d ds =>
        have hd := head_rowName r d (by rw [hname]; rfl)
        refine List.takeWhile_cons_of_neg fun hletter => ?_
        have := Column.isLetter_iff.1 hletter
        omega
    unfold ofCellWord?
    simp only [hsplit, hbody, hfirst, htake]
    rfl
  · have hsplit := splitSheet_spelling (a := a) (.inr (by simp [hcolumn]))
    have hbody : bodyChars a = (Reference.dollar a.fixedColumn).toList ++ (Column.letters c ++ []) := by
      simp [bodyChars, hrow, hcolumn]
    have hfirst := takeDollar_dollar a.fixedColumn (Column.letters c ++ [])
      fun d hd => ne_dollar (by have := head_letters c _ d hd; omega)
    obtain ⟨htake, hdrop⟩ := takeWhile_letters c [] fun d hd => by cases hd
    unfold ofCellWord?
    simp only [hsplit, hbody, hfirst, htake, hdrop, Column.ofLetters?_letters hc]
    rfl

theorem map_toUpper {cs : List Char} (h : LabelChars cs) : cs.map Char.toUpper = cs := by
  have hid (c : Char) (hc : c ∈ cs) : c.toUpper = id c := by
    have := h c hc
    exact Column.toUpper_of_lt (by omega)
  rw [List.map_congr_left hid, List.map_id]

/-- The label of a whole row or column is read as that row or column. -/
theorem ofAxisWord?_axis (h : a.IsRow ∨ a.IsColumn) (hsheet : a.IsKept) (p : Nat) :
    ∃ m, ofAxisWord? a.spelling.toList p = some m ∧ m.target = a := by
  have hpart : ((a.sheet.map sheetPart).map isSheetPart).getD true = true := by
    cases heq : a.sheet with
    | none => rfl
    | some name =>
      have hbounded : a.isBounded = false := by
        rcases h with ⟨r, -, -, hcolumn, -⟩ | ⟨c, -, -, hrow, -⟩
        · simp [Reference.isBounded, hcolumn]
        · simp [Reference.isBounded, hrow]
      exact isSheetPart_sheetPart (hbounded ▸ hsheet name heq)
  rcases h with ⟨r, hrow, hr, hcolumn, hfixed⟩ | ⟨c, hcolumn, hc, hrow, hfixed⟩
  · have hsplit := splitSheet_spelling (a := a) (.inl (by simp [hrow]))
    have hbody : bodyChars a = (Reference.dollar a.fixedRow).toList ++ (Row.name r).toList := by
      simp [bodyChars, hrow, hcolumn]
    have hfirst := takeDollar_dollar a.fixedRow (Row.name r).toList fun d hd => ne_dollar (head_rowName r d hd).1
    have hupper := map_toUpper (labelChars_digits (Row.digits_name r))
    refine Option.map_eq_some_iff.1 ?_
    unfold ofAxisWord?
    simp only [hsplit, hpart, hbody, hfirst, hupper, rowOfDigits?_name hr, Bool.not_true, Bool.false_eq_true, if_false,
      sheetName_sheetPart hsheet]
    simp only [Option.map_some, ← hrow, ← hcolumn, ← hfixed]
  · have hsplit := splitSheet_spelling (a := a) (.inr (by simp [hcolumn]))
    have hbody : bodyChars a = (Reference.dollar a.fixedColumn).toList ++ Column.letters c := by
      simp [bodyChars, hrow, hcolumn]
    have hfirst := takeDollar_dollar a.fixedColumn (Column.letters c) fun d hd => ne_dollar (by
      have := head_letters c [] d (by rwa [List.append_nil])
      omega)
    have hupper := map_toUpper (labelChars_letters c)
    have hletter : rowOfDigits? (Column.letters c) = none := by
      cases hletters : Column.letters c with
      | nil => exact absurd hletters (Column.letters_ne_nil c)
      | cons d ds =>
        have hd := Column.capitals_letters c d (hletters ▸ List.mem_cons_self)
        have hdigit : Number.isDigit d = false := Bool.eq_false_iff.2 fun hc => by
          have := isDigit_iff.1 hc
          omega
        simp [rowOfDigits?, hdigit]
    refine Option.map_eq_some_iff.1 ?_
    unfold ofAxisWord?
    simp only [hsplit, hpart, hbody, hfirst, hupper, hletter, Column.ofLetters?_letters hc, Bool.not_true,
      Bool.false_eq_true, if_false, sheetName_sheetPart hsheet]
    simp only [Option.map_some, ← hrow, ← hcolumn, ← hfixed]

/-- Whether the row stands by itself, so that its label is a number. -/
def IsBareRow (a : Reference) : Prop := a.IsRow ∧ a.sheet = none ∧ a.fixedRow = false

theorem IsBareRow.of_shift? {b : Reference} {rows columns : Int} (h : IsBareRow b) (ha : a.IsRow)
    (hb : a.shift? rows columns = some b) : IsBareRow a := by
  obtain ⟨_, _, -, -, rfl⟩ := Reference.shift?_eq hb
  exact ⟨ha, h.2⟩

theorem isWord_label (h : a.row ≠ none ∨ a.column ≠ none) (hsheet : a.IsKept)
    (hbody : a.sheet = none → ∃ c cs, bodyChars a = c :: cs ∧ ¬(48 ≤ c.toNat ∧ c.toNat ≤ 57) ∧
      ((∃ d ∈ c :: cs, d.toNat < 65) ∨ (c :: cs).length ≤ 3)) : IsWord a.spelling := by
  have hspelling : a.spelling = String.ofList (sheetChars a.sheet ++ bodyChars a) := by
    rw [← toList_spelling h, String.ofList_toList]
  have hchars := labelChars_bodyChars a
  rw [hspelling]
  cases heq : a.sheet with
  | none =>
    obtain ⟨c, cs, hcs, hdigit, htruth⟩ := hbody heq
    rw [hcs] at hchars ⊢
    exact isWord_bare hchars hdigit htruth
  | some name =>
    have hword := isWord_sheet (hsheet name heq) hchars
    rw [sheetChars, List.append_assoc, List.singleton_append]
    exact hword

theorem isWord_cell (h : a.IsCell) (hsheet : a.IsKept) : IsWord a.spelling := by
  obtain ⟨r, c, hrow, hcolumn, -, -⟩ := h
  refine isWord_label (.inl (by simp [hrow])) hsheet fun _ => ?_
  have hbody : bodyChars a = (Reference.dollar a.fixedColumn).toList ++
      (Column.letters c ++ ((Reference.dollar a.fixedRow).toList ++ (Row.name r).toList)) := by
    simp [bodyChars, hrow, hcolumn]
  obtain ⟨d, hd⟩ := List.exists_mem_of_ne_nil _ (Row.name_ne_nil r)
  have hlow : d.toNat < 65 := by
    have := isDigit_iff.1 (Row.digits_name r d hd)
    omega
  have hmem : d ∈ bodyChars a := by
    rw [hbody]
    simp [hd]
  cases hcs : bodyChars a with
  | nil =>
    rw [hcs] at hmem
    cases hmem
  | cons e es =>
    refine ⟨e, es, rfl, ?_, .inl ⟨d, hcs ▸ hmem, hlow⟩⟩
    rw [hbody] at hcs
    cases hfixed : a.fixedColumn with
    | true =>
      rw [hfixed] at hcs
      obtain rfl : '$' = e := (List.cons.inj hcs).1
      decide
    | false =>
      rw [hfixed] at hcs
      have := head_letters c ((Reference.dollar a.fixedRow).toList ++ (Row.name r).toList) e (by
        rw [show Column.letters c ++ _ = e :: es from hcs]
        rfl)
      omega

theorem isWord_axis (h : a.IsRow ∨ a.IsColumn) (hbare : ¬IsBareRow a) (hsheet : a.IsKept) : IsWord a.spelling := by
  rcases h with hrow' | ⟨c, hcolumn, hc, hrow, -⟩
  · obtain ⟨r, hrow, -, hcolumn, -⟩ := id hrow'
    refine isWord_label (.inl (by simp [hrow])) hsheet fun hnone => ?_
    have hfixed : a.fixedRow = true := by
      simpa using fun h => hbare ⟨hrow', hnone, h⟩
    refine ⟨'$', (Row.name r).toList, ?_, by decide, .inl ⟨'$', List.mem_cons_self, by decide⟩⟩
    simp [bodyChars, hrow, hcolumn, hfixed, Reference.dollar]
  · refine isWord_label (.inr (by simp [hcolumn])) hsheet fun _ => ?_
    cases hfixed : a.fixedColumn with
    | true =>
      refine ⟨'$', Column.letters c, ?_, by decide, .inl ⟨'$', List.mem_cons_self, by decide⟩⟩
      simp [bodyChars, hrow, hcolumn, hfixed, Reference.dollar]
    | false =>
      have hbody : bodyChars a = Column.letters c := by simp [bodyChars, hrow, hcolumn, hfixed, Reference.dollar]
      have hlength : (Column.letters c).length ≤ 3 := Column.length_letters hc
      cases hletters : Column.letters c with
      | nil => exact absurd hletters (Column.letters_ne_nil c)
      | cons d ds =>
        have := Column.capitals_letters c d (hletters ▸ List.mem_cons_self)
        exact ⟨d, ds, hbody.trans hletters, by omega, .inr (hletters ▸ hlength)⟩

/-- The number of a row is read as that row, with any spelling that has no decimal point. -/
theorem ofRowNumber?_floatOfNat {r : Nat} (hr : r ≤ Row.last) {spelling : String} (hpoint : '.' ∉ spelling.toList)
    (p : Nat) : ofRowNumber? (Number.floatOfNat (r + 1)) (some spelling) p =
      some { target := { row := some r }, label := Row.name r, position := p } := by
  have hr : r + 1 < 2 ^ 32 := by
    have : r ≤ 4294967294 := hr
    omega
  have hcontains : spelling.toList.contains '.' = false :=
    Bool.eq_false_iff.2 fun hc => hpoint (List.contains_iff_mem.1 hc)
  unfold ofRowNumber?
  simp only [Number.isIntegral_floatOfNat (Nat.succ_pos r) (show r + 1 < 2 ^ 53 by omega), Option.getD_some, hcontains,
    Number.zero_lt_floatOfNat (Nat.succ_pos r) (show r + 1 < 2 ^ 53 by omega),
    Number.floatOfNat_lt (Nat.succ_pos r) hr, Number.clampNat_floatOfNat (Nat.succ_pos r) hr]
  rfl

theorem point_not_mem_name (r : Nat) : '.' ∉ (Row.name r).toList := fun hc => by
  have := isDigit_iff.1 (Row.digits_name r '.' hc)
  revert this
  decide

variable {locale : Locale} {rest : List Nat}

/-- The label of a cell is read as that cell. -/
theorem read_cell (locale : Locale) (first : Bool) (h : a.IsCell) (hsheet : a.IsKept) (hrest : Stops rest)
    (p : Nat) : ∃ u us m, Text.units a.spelling = u :: us ∧ isWordStart u = true ∧
      read locale first p u (us ++ rest) = (.atom (.cell m) none, us.length) ∧ m.target = a := by
  have hword := isWord_cell h hsheet
  obtain ⟨u, us, hunits, hstart, -⟩ := hword.spans
  obtain ⟨m, hm, htarget⟩ := ofCellWord?_cell h hsheet p
  refine ⟨u, us, m, hunits, hstart, ?_, htarget⟩
  rw [read_word hstart, word_atom hword hunits hrest, wordAtom, hm]

/-- The label of a row by itself is the number of the row. -/
theorem isNumber_bareRow (locale : Locale) (h : IsBareRow a) : ∃ r, r ≤ Row.last ∧ a = { row := some r } ∧
    a.spelling = Row.name r ∧ IsNumber locale (Text.units a.spelling) (Number.floatOfNat (r + 1)) ∧
    DigitUnits (Text.units a.spelling) ∧ Text.units a.spelling ≠ [] := by
  obtain ⟨⟨r, hrow, hr, hcolumn, hfixed⟩, hnone, hfixed'⟩ := h
  have hspelling : a.spelling = Row.name r := by
    simp [Reference.spelling, hrow, hcolumn, hnone, hfixed', Reference.dollar]
  have hdigits := Row.digits_name r
  have hunits : Text.units a.spelling = (Row.name r).toList.map Char.toNat := by
    rw [hspelling, Text.units, flatMap_digits hdigits]
  have hvalue : Number.ofDecimal false (r + 1) 0 = Number.floatOfNat (r + 1) :=
    Number.ofDecimal_nat (Nat.succ_pos r) (by have : r ≤ 4294967294 := hr; omega)
  have hnone' : Number.Digits [] := fun _ h => absurd h List.not_mem_nil
  obtain ⟨n, hwrites, hne, -, hn⟩ := writes_decimalText locale false (Row.name_ne_nil r) hdigits hnone'
  have hchars : Number.decimalText locale.decimal.char false (Row.name r).toList [] = (Row.name r).toList := by
    simp [Number.decimalText, Number.placesText]
  rw [List.append_nil, Row.digitsValue_name] at hn
  rw [hchars, flatMap_digits hdigits, ← hunits] at hwrites
  refine ⟨r, hr, ?_, hspelling, ⟨n, _, hwrites, hne, .inl ⟨rfl, (hn.trans hvalue).symm⟩⟩, ?_, ?_⟩
  · cases a
    simp_all
  · rw [hunits]
    exact digitUnits_map hdigits
  · rw [hunits]
    simpa using Row.name_ne_nil r

/-- The label of a whole row or column is read as a unit that mentions it. -/
theorem read_axis (first : Bool) (hi : locale.imaginary = 'i' ∨ locale.imaginary = 'j') (h : a.IsRow ∨ a.IsColumn)
    (hsheet : a.IsKept) (hrest : Stops rest) (p : Nat) :
    ∃ u us e m, Text.units a.spelling = u :: us ∧ (isDigitUnit u = true ∧ IsBareRow a ∨ isWordStart u = true) ∧
      read locale first p u (us ++ rest) = (.atom e none, us.length) ∧ ofUnit? e = some m ∧ m.target = a ∧
      e.isAnyOperator = false := by
  by_cases hbare : IsBareRow a
  · obtain ⟨r, hr, ha, hspelling, hnumber, hdigits, hne⟩ := isNumber_bareRow locale hbare
    have hunsigned : Unsigned (Text.units a.spelling) := by
      simpa using unsigned_of_digits hdigits hne []
    obtain ⟨u, us, heq, hread⟩ := read_number first hi hnumber (fun _ => hunsigned) hrest p
    rw [Text.ofUnits_units, hspelling] at hread
    refine ⟨u, us, _, _, heq, .inl ⟨hdigits u ?_, hbare⟩, hread, ofRowNumber?_floatOfNat hr (point_not_mem_name r) p,
      ha.symm, rfl⟩
    rw [heq]
    exact List.mem_cons_self
  · have hword := isWord_axis h hbare hsheet
    obtain ⟨u, us, hunits, hstart, -⟩ := hword.spans
    obtain ⟨m, hm, htarget⟩ := ofAxisWord?_axis h hsheet p
    refine ⟨u, us, .identifier p a.spelling, m, hunits, .inr hstart, ?_, hm, htarget, rfl⟩
    rw [read_word hstart, word_atom hword hunits hrest, wordAtom, ofCellWord?_axis h]

end Mention

end Spreadsheet
