import Spreadsheet.Proofs.Formula.Bordered

/-!
Texts that are one reference. A text that names a sheet is one word, and the label of the reference is read as the
reference again exactly if it keeps the name of the sheet.
-/

namespace Spreadsheet

/-- The sheet, if one is named, is one that a word can name: its name has no quotes, or it names the sheet of a cell
and the quotes stand in front of a word. -/
def Reference.IsTyped (a : Reference) : Prop :=
  ∀ name, a.sheet = some name → '\x27' ∉ name.toList ∨ a.isBounded = true ∧ SheetName.isPartlyQuoted name = true

namespace Mention

open Formula Formula.Lexeme

variable {m : Mention} {a : Reference} {name : String} {cs raw rest : List Char} {p : Nat}

/-! ### What words name -/

theorem splitSheet_cases (cs : List Char) : splitSheet cs = (none, cs) ∨
    ∃ raw rest, cs = raw ++ '!' :: rest ∧ splitSheet cs = (some raw, rest) := by
  by_cases hmark : '!' ∈ cs
  · obtain ⟨back, front, hsplit, hback⟩ := List.eq_append_cons_of_mem (List.mem_reverse.2 hmark)
    have hcs : cs = front.reverse ++ '!' :: back.reverse := by
      rw [← List.reverse_reverse cs, hsplit]
      simp
    exact .inr ⟨_, _, hcs, hcs ▸ splitSheet_append _ (by simpa using hback)⟩
  · exact .inl (splitSheet_of_not_mem hmark)

/-- The quotes of a word whose last part has none: those around the name of the sheet, or those in front of it, which
stay a part of it. -/
theorem unquote_of_isWord (h : IsWord name) (hname : name.toList = raw ++ '!' :: rest) (hrest : '\x27' ∉ rest) :
    '\x27' ∉ unquote raw ∨
      isSheetPart raw = false ∧ SheetName.isPartlyQuoted (String.ofList (unquote raw)) = true := by
  have hword : IsWord (String.ofList (raw ++ '!' :: rest)) := by rwa [← hname, String.ofList_toList]
  have hnone : '\x27' ∉ '!' :: rest := by simpa using hrest
  cases raw with
  | nil => exact .inl List.not_mem_nil
  | cons c ds =>
    rcases (isWord_ofList_iff (by simp)).1 hword with ⟨rfl, inner, after, hsplit, hinner, hafter⟩ | ⟨hc, -, hall⟩
    · obtain ⟨middle, rfl, rfl⟩ := split_at_quote hsplit hnone
      cases middle with
      | nil =>
        refine .inl ?_
        simpa [unquote] using hinner
      | cons d middle =>
        have hmiddle (e : Char) (he : e ∈ d :: middle) : isWordUnit e.toNat = true :=
          hafter e (List.mem_append_left _ he)
        have hpartly : SheetName.isPartlyQuoted (String.ofList ('\x27' :: (inner ++ '\x27' :: d :: middle))) = true :=
          SheetName.isPartlyQuoted_iff.2 ⟨inner, d :: middle, String.toList_ofList, hinner, by simp, hmiddle⟩
        have hunquote := unquote_partlyQuoted hpartly
        rw [String.toList_ofList] at hunquote
        refine .inr ⟨Bool.eq_false_iff.2 fun hpart => ?_, by rwa [hunquote]⟩
        rw [isSheetPart, beq_iff_eq, List.getLast?_append_cons, List.getLast?_cons_cons] at hpart
        exact quote_not_mem hmiddle (List.mem_of_getLast? hpart)
    · have hds : '\x27' ∉ ds := quote_not_mem fun d hd => hall d (List.mem_append_left _ hd)
      have hunquote : unquote (c :: ds) = c :: ds := by
        unfold unquote
        split
        · rename_i heq
          exact absurd (List.cons.inj heq).1 hc
        · rfl
      refine .inl ?_
      rw [hunquote]
      simp [hds, Ne.symm hc]

theorem quote_not_mem_of_letters {c : Nat} (h : Column.ofLetters? cs = some c) : '\x27' ∉ cs := by
  unfold Column.ofLetters? at h
  split at h
  · cases h
  · rename_i hcs
    simp only [Bool.or_eq_true, not_or, Bool.not_eq_true, Bool.not_eq_false'] at hcs
    intro hmem
    cases List.all_eq_true.1 hcs.2 _ hmem

theorem quote_not_mem_of_digits {r : Nat} (h : rowOfDigits? cs = some r) : '\x27' ∉ cs := by
  simp only [rowOfDigits?] at h
  split at h
  · cases h
  · rename_i hcs
    simp only [Bool.or_eq_true, not_or, Bool.not_eq_true, Bool.not_eq_false'] at hcs
    intro hmem
    cases List.all_eq_true.1 hcs.1.1.2 _ hmem

theorem quote_not_mem_takeDollar (h : '\x27' ∉ (takeDollar cs).2) : '\x27' ∉ cs := by
  unfold takeDollar at h
  split at h
  · simpa using h
  · exact h

/-- What a word names as a cell. -/
theorem isTyped_of_cell (h : IsWord name) (hm : ofCellWord? name.toList p = some m) : m.target.IsTyped := by
  rcases splitSheet_cases name.toList with hsplit | ⟨raw, rest, hname, hsplit⟩
  · simp only [ofCellWord?, hsplit] at hm
    split at hm
    · obtain rfl := Option.some.inj hm
      rintro _ ⟨⟩
    · cases hm
  · simp only [ofCellWord?, hsplit] at hm
    split at hm
    · rename_i c r hc hr
      obtain rfl := Option.some.inj hm
      have hbody : '\x27' ∉ (takeDollar rest).2 := by
        rw [← List.takeWhile_append_dropWhile (p := Column.isLetter) (l := (takeDollar rest).2), List.mem_append]
        exact not_or.2 ⟨quote_not_mem_of_letters hc, quote_not_mem_takeDollar (quote_not_mem_of_digits hr)⟩
      rintro _ ⟨⟩
      refine (unquote_of_isWord h hname (quote_not_mem_takeDollar hbody)).imp (fun hnone => ?_) fun hpartly =>
        ⟨rfl, hpartly.2⟩
      rwa [String.toList_ofList]
    · cases hm

/-- What a word names as a row or a column. -/
theorem isTyped_of_axis (h : IsWord name) (hm : ofAxisWord? name.toList p = some m) : m.target.IsTyped := by
  rcases splitSheet_cases name.toList with hsplit | ⟨raw, rest, hname, hsplit⟩
  · simp only [ofAxisWord?, hsplit] at hm
    split at hm
    · cases hm
    · split at hm
      · obtain rfl := Option.some.inj hm
        rintro _ ⟨⟩
      · obtain rfl := Option.some.inj hm
        rintro _ ⟨⟩
      · cases hm
  · simp only [ofAxisWord?, hsplit] at hm
    split at hm
    · cases hm
    · rename_i hpart
      have hbare (hbody : '\x27' ∉ (takeDollar rest).2.map Char.toUpper) : '\x27' ∉ unquote raw := by
        have hrest : '\x27' ∉ (takeDollar rest).2 := fun hmem => hbody (List.mem_map.2 ⟨_, hmem, rfl⟩)
        refine (unquote_of_isWord h hname (quote_not_mem_takeDollar hrest)).resolve_right fun hpartly => ?_
        exact hpart (by simpa using hpartly.1)
      split at hm
      · rename_i r hr
        obtain rfl := Option.some.inj hm
        rintro _ ⟨⟩
        rw [String.toList_ofList]
        exact .inl (hbare (quote_not_mem_of_digits hr))
      · rename_i c hr hc
        obtain rfl := Option.some.inj hm
        rintro _ ⟨⟩
        rw [String.toList_ofList]
        exact .inl (hbare (quote_not_mem_of_letters hc))
      · cases hm

/-- A sheet that a word can name is kept if the label is a word. -/
theorem isKept_of_isWord (htyped : a.IsTyped) (h : a.row ≠ none ∨ a.column ≠ none) (hword : IsWord a.spelling) :
    a.IsKept := by
  intro name hsheet
  have hspelling : a.spelling = String.ofList (sheetPart name ++ '!' :: bodyChars a) := by
    rw [← String.ofList_toList (s := a.spelling), toList_spelling h, hsheet, sheetChars, List.append_assoc,
      List.singleton_append]
  rw [hspelling, isWord_sheet_iff (labelChars_bodyChars a)] at hword
  unfold SheetName.IsKept
  split
  · rename_i hquotes
    rwa [if_pos hquotes] at hword
  · rename_i hquotes
    rw [if_neg hquotes] at hword
    rcases hword with hbare | ⟨inner, rest, hname, -⟩
    · exact .inl hbare
    · refine .inr ((htyped name hsheet).resolve_left fun hnone => hnone ?_)
      rw [hname]
      exact List.mem_cons_self

end Mention

namespace Formula

open Mention
open Lexeme hiding read

variable {locale : Locale} {text name : String} {a : Reference} {m : Mention} {e : Expression} {u p n : Nat}
  {us rest : List Nat} {first : Bool}

/-! ### Reading a text -/

/-- A word at the front of a text is a truth value or what its units stand for. -/
theorem word_front (h : word p u us = (.atom e none, n)) (hu : isWordStart u = true) :
    wordLength (u == unitOf '\x27') us = (n, false) ∧ ((∃ b, e = .literal p (.boolean b) none) ∨
      IsWord (Text.ofUnits (u :: us.take n)) ∧ e = wordAtom (Text.ofUnits (u :: us.take n)) p) := by
  have hspans := spans_take (u == unitOf '\x27') us
  unfold word at h
  simp only at h
  split at h
  · cases h
  · rename_i hbalanced
    rw [Bool.not_eq_true] at hbalanced
    rw [hbalanced] at hspans
    split at h
    · cases h
      exact ⟨Prod.ext rfl hbalanced, .inl ⟨true, rfl⟩⟩
    · rename_i htrue
      split at h
      · cases h
        exact ⟨Prod.ext rfl hbalanced, .inl ⟨false, rfl⟩⟩
      · rename_i hfalse
        split at h
        · cases h
        · cases h
          exact ⟨Prod.ext rfl hbalanced, .inr ⟨⟨⟨u, _, units_word hu _, hu, hspans.text⟩, by simpa using htrue, by simpa using hfalse⟩, rfl⟩⟩

/-- A word to the end of the units is the text of the units. -/
theorem word_inversion (hu : isWordStart u = true) (hname : Text.units name = u :: us)
    (h : word p u us = (.atom e none, us.length)) :
    (∃ b, e = .literal p (.boolean b) none) ∨ IsWord name ∧ e = wordAtom name p := by
  obtain ⟨-, hcases⟩ := word_front h hu
  rwa [List.take_length, ← hname, Text.ofUnits_units] at hcases

theorem number_kind (locale : Locale) (p : Nat) (us : List Nat) :
    (∃ q v spelling, (number locale p us).1 = .literal q v spelling) ∨
      ∃ q y spelling, (number locale p us).1 = .imaginary q y spelling := by
  simp only [number]
  split
  · exact .inl ⟨_, _, _, rfl⟩
  · split
    · exact .inr ⟨_, _, _, rfl⟩
    · exact .inl ⟨_, _, _, rfl⟩

/-- What is no literal is read as a word. -/
theorem read_inversion (h : Lexeme.read locale first p u us = (.atom e none, n)) :
    (∃ q v spelling, e = .literal q v spelling) ∨ (∃ q y spelling, e = .imaginary q y spelling) ∨
      isWordStart u = true ∧ word p u us = (.atom e none, n) := by
  unfold Lexeme.read at h
  split at h
  · cases h
  · split at h
    · exact .inl ⟨_, _, _, (Lexeme.atom.inj (Prod.mk.inj h).1).1.symm⟩
    · split at h
      · have he : (number locale p (u :: us)).1 = e := (Lexeme.atom.inj (Prod.mk.inj h).1).1
        rw [← he]
        exact (number_kind locale p (u :: us)).imp_right .inl
      · split at h
        · cases h
        · split at h
          · rename_i hstart
            exact .inr (.inr ⟨hstart, h⟩)
          · cases h

theorem sheet_of_rowNumber {x : Float} {spelling : Option String} {m : Mention}
    (h : ofRowNumber? x spelling p = some m) : m.target.sheet = none := by
  simp only [ofRowNumber?] at h
  split at h
  · exact Option.some.inj h ▸ rfl
  · cases h

/-- The reference that a word by itself stands for. -/
def referenceOfWord? (name : String) : Option Reference :=
  ((ofCellWord? name.toList 0).or (ofAxisWord? name.toList 0)).map Mention.target

/-- A text that is a reference is the number of a row or a word. -/
theorem isRow_or_isWord_of_parseReference (h : parseReference locale text = some a) :
    a.IsRow ∧ a.sheet = none ∨ IsWord (Text.trim text) ∧ referenceOfWord? (Text.trim text) = some a := by
  unfold parseReference at h
  generalize Text.trim text = name at h ⊢
  split at h
  · cases h
  · rename_i u us hunits
    split at h
    · rename_i e n hread
      split at h
      · rename_i hn
        rcases read_inversion hread with ⟨q, v, spelling, rfl⟩ | ⟨q, y, spelling, rfl⟩ | ⟨hstart, hword⟩
        · obtain ⟨m, hm, rfl⟩ := Option.map_eq_some_iff.1 h
          unfold ofUnit? at hm
          split at hm
          · exact .inl ⟨isRow_of_number hm, sheet_of_rowNumber hm⟩
          · rename_i heq
            cases heq
          · cases hm
        · cases h
        · right
          rcases word_inversion hstart hunits (hn ▸ hword) with ⟨b, he⟩ | ⟨hname, he⟩
          · rw [he] at h
            cases h
          · refine ⟨hname, ?_⟩
            rw [he] at h
            unfold wordAtom at h
            unfold referenceOfWord?
            cases hcell : ofCellWord? name.toList 0 <;> simpa [hcell, ofUnit?] using h
      · cases h
    · cases h

/-- A text that names a sheet is a word. -/
theorem isWord_of_parseReference (h : parseReference locale text = some a) (hsheet : a.sheet ≠ none) :
    IsWord (Text.trim text) ∧ referenceOfWord? (Text.trim text) = some a :=
  (isRow_or_isWord_of_parseReference h).resolve_left fun hrow => hsheet hrow.2

theorem parseReference_of_isWord (h : IsWord name) (htrim : Text.trim name = name) :
    parseReference locale name = referenceOfWord? name := by
  obtain ⟨u, us, hunits, hstart, -⟩ := h.spans
  have hread := word_atom h hunits stops_nil 0
  rw [List.append_nil] at hread
  unfold parseReference
  simp only [htrim, hunits, read_word hstart, hread, if_true]
  unfold wordAtom referenceOfWord?
  cases ofCellWord? name.toList 0 <;> rfl

theorem isTyped_of_referenceOfWord? (h : IsWord name) (ha : referenceOfWord? name = some a) : a.IsTyped := by
  obtain ⟨m, hm, rfl⟩ := Option.map_eq_some_iff.1 ha
  rcases Option.or_eq_some_iff.1 hm with hcell | ⟨-, haxis⟩
  · exact isTyped_of_cell h hcell
  · exact isTyped_of_axis h haxis

theorem isPlaced_of_referenceOfWord? (ha : referenceOfWord? name = some a) : a.IsCell ∨ a.IsRow ∨ a.IsColumn := by
  obtain ⟨m, hm, rfl⟩ := Option.map_eq_some_iff.1 ha
  rcases Option.or_eq_some_iff.1 hm with hcell | ⟨-, haxis⟩
  · exact .inl (isCell_of_word hcell)
  · exact .inr (isAxis_of_word haxis)

/-! ### A label in front of a text -/

/-- The sheet that a word names. -/
theorem sheet_of_word {cs : List Char} (h : ofCellWord? cs p = some m ∨ ofAxisWord? cs p = some m)
    (hsheet : m.target.sheet = some name) : ∃ raw body, cs = raw ++ '!' :: body ∧ unquote raw = name.toList := by
  have hraw {raw : Option (List Char)} (hname : sheetName raw = some name) :
      ∃ part, raw = some part ∧ unquote part = name.toList := by
    obtain ⟨part, rfl, hpart⟩ := Option.map_eq_some_iff.1 hname
    exact ⟨part, rfl, by rw [← hpart, String.toList_ofList]⟩
  have hnamed : sheetName (splitSheet cs).1 = some name := by
    rcases h with h | h
    · simp only [ofCellWord?] at h
      split at h
      · obtain rfl := Option.some.inj h
        exact hsheet
      · cases h
    · simp only [ofAxisWord?] at h
      split at h
      · cases h
      · split at h
        · obtain rfl := Option.some.inj h
          exact hsheet
        · obtain rfl := Option.some.inj h
          exact hsheet
        · cases h
  obtain ⟨part, hpart, hunquote⟩ := hraw hnamed
  rcases splitSheet_cases cs with hsplit | ⟨raw, body, hcs, hsplit⟩
  · rw [hsplit] at hpart
    cases hpart
  · rw [hsplit] at hpart
    obtain rfl := Option.some.inj hpart
    exact ⟨raw, body, hcs, hunquote⟩

theorem unquote_of_ne {c : Char} (hc : c ≠ '\x27') (cs : List Char) : unquote (c :: cs) = c :: cs := by
  unfold unquote
  split
  · rename_i heq
    exact absurd (List.cons.inj heq).1 hc
  · rfl

/-- A name that starts with two quotes is no name of a sheet unless it keeps them. -/
theorem unquote_twice {cs ds : List Char} (hcs : '\x27' ∉ cs) (h : unquote ('\x27' :: '\x27' :: cs) = '\x27' :: ds) :
    ds = '\x27' :: cs := by
  unfold unquote at h
  cases cs with
  | nil => cases h
  | cons c cs =>
    have hlast : ('\x27' :: c :: cs).getLast? ≠ some '\x27' := by
      rw [List.getLast?_cons_cons]
      exact fun hlast => hcs (List.mem_of_getLast? hlast)
    simp only [beq_iff_eq, hlast, if_false] at h
    exact (List.cons.inj h).2.symm

/-- A label that is a word in front of a text, and whose reference is what the word names, keeps its sheet. -/
theorem isKept_of_front (hplaced : a.row ≠ none ∨ a.column ≠ none) (hunits : Text.units a.spelling ++ rest = u :: us)
    (hu : isWordStart u = true) (hk : (wordLength (u == unitOf '\x27') us).1 = n)
    (hword : IsWord (Text.ofUnits (u :: us.take n)))
    (hm : ofCellWord? (Text.ofUnits (u :: us.take n)).toList p = some m ∨
      ofAxisWord? (Text.ofUnits (u :: us.take n)).toList p = some m)
    (htarget : m.target = a) : a.IsKept := by
  have htyped : a.IsTyped := by
    rw [← htarget]
    exact hm.elim (isTyped_of_cell hword) (isTyped_of_axis hword)
  intro sheet hsheet
  obtain ⟨raw, body, hname, hunquote⟩ := sheet_of_word hm (htarget ▸ hsheet)
  have hspelling : a.spelling.toList = sheetPart sheet ++ '!' :: bodyChars a := by
    rw [toList_spelling hplaced, hsheet, sheetChars, List.append_assoc, List.singleton_append]
  have hlt := lt_of_isWordStart hu
  have hfront : (sheetPart sheet ++ '!' :: bodyChars a).flatMap Text.unitsOfChar ++ rest = u :: us := by
    rw [← hspelling]
    exact hunits
  have hchars : (Text.ofUnits (u :: us.take n)).toList = Text.charOfUnit u :: Text.charsOfUnits (us.take n) := by
    rw [Text.ofUnits, String.toList_ofList, Text.charsOfUnits_cons (Text.isHighSurrogate_of_lt hlt)]
  rw [hchars] at hname
  rw [← String.ofList_toList (s := Text.ofUnits (u :: us.take n)), hchars] at hword
  have hshape := (isWord_ofList_iff (by rw [hname]; simp)).1 hword
  unfold SheetName.IsKept
  split
  · -- quotes around the name: a name that itself starts with a quote would end the word after two quotes
    rename_i hquotes
    refine (htyped sheet hsheet).resolve_right fun hpartly => ?_
    obtain ⟨inner, after, hparts, hinner, -, -⟩ := SheetName.isPartlyQuoted_iff.1 hpartly.2
    rw [sheetPart, if_pos hquotes, hparts] at hfront
    obtain ⟨rfl, hus⟩ := List.cons.inj hfront
    obtain ⟨us', rfl⟩ : ∃ us', us = 39 :: us' := ⟨_, hus.symm⟩
    obtain ⟨j, rfl⟩ : ∃ j, n = j + 1 := ⟨_, hk.symm⟩
    have hj : (wordLength false us').1 = j := Nat.succ.inj hk
    have hcons : Text.charsOfUnits ((39 :: us').take (j + 1)) = '\x27' :: Text.charsOfUnits (us'.take j) :=
      Text.charsOfUnits_cons rfl _
    rw [hcons] at hname hshape
    obtain ⟨-, inner', after', hsplit, hinner', hafter'⟩ := hshape.resolve_right fun h => h.1 rfl
    cases inner' with
    | cons c cs => exact hinner' ((List.cons.inj hsplit).1 ▸ List.mem_cons_self)
    | nil =>
      obtain ⟨-, rfl⟩ := List.cons.inj hsplit
      obtain ⟨cs, rfl, hcs⟩ : ∃ cs, raw = '\x27' :: '\x27' :: cs ∧
          Text.charsOfUnits (us'.take j) = cs ++ '!' :: body := by
        rcases raw with _ | ⟨_, _ | ⟨_, cs⟩⟩
        · exact absurd (List.cons.inj hname).1 (by decide)
        · exact absurd (List.cons.inj (List.cons.inj hname).2).1 (by decide)
        · obtain ⟨rfl, htail⟩ := List.cons.inj hname
          obtain ⟨rfl, htail'⟩ := List.cons.inj htail
          exact ⟨cs, rfl, htail'⟩
      have hplain : '\x27' ∉ cs := quote_not_mem fun c hc => hafter' c (hcs ▸ List.mem_append_left _ hc)
      rw [hparts] at hunquote
      have hinnerAfter := unquote_twice hplain hunquote
      obtain rfl : inner = [] := by
        cases inner with
        | nil => rfl
        | cons c _ =>
          obtain ⟨rfl, -⟩ := List.cons.inj hinnerAfter
          exact absurd List.mem_cons_self hinner
      -- the third quote ends the word
      obtain ⟨us'', rfl⟩ : ∃ us'', us' = 39 :: us'' := ⟨_, (List.cons.inj hus).2.symm⟩
      obtain rfl : j = 0 := hj.symm
      cases cs <;> cases hcs
  · rename_i hquotes
    rcases htyped sheet hsheet with hnone | hpartly
    · refine .inl (SheetName.isBare_iff.2 ?_)
      rw [sheetPart, if_neg hquotes] at hfront
      cases hchars' : sheet.toList with
      | nil =>
        rw [hchars'] at hfront
        obtain ⟨rfl, -⟩ := List.cons.inj hfront
        cases hu
      | cons c cs =>
        rw [hchars'] at hfront hunquote hnone
        have hc : c ≠ '\x27' := fun h => hnone (h ▸ List.mem_cons_self)
        obtain rfl : c.toNat = u := by
          by_cases hplain : c.toNat < 0x10000
          · rw [List.cons_append, List.flatMap_cons, Text.unitsOfChar_of_lt hplain] at hfront
            exact (List.cons.inj hfront).1
          · rw [List.cons_append, List.flatMap_cons, Text.unitsOfChar_of_le (by omega)] at hfront
            have := (List.cons.inj hfront).1
            omega
        have hchar : Text.charOfUnit c.toNat = c := Text.charOfUnit_toNat (by omega)
        rw [hchar] at hname hshape
        obtain ⟨-, -, hall⟩ := hshape.resolve_left fun h => hc h.1
        cases raw with
        | nil =>
          obtain ⟨rfl, -⟩ := List.cons.inj hname
          cases hu
        | cons d ds =>
          obtain ⟨rfl, hds⟩ := List.cons.inj hname
          rw [unquote_of_ne hc] at hunquote
          obtain ⟨-, rfl⟩ := List.cons.inj hunquote
          exact ⟨c, ds, rfl, hc, hu, fun d hd => hall d (hds ▸ List.mem_append_left _ hd)⟩
    · exact .inr hpartly

/-! ### Reading a label -/

theorem referenceOfWord?_spelling (h : a.IsCell ∨ a.IsRow ∨ a.IsColumn) (hkept : a.IsKept) :
    referenceOfWord? a.spelling = some a := by
  unfold referenceOfWord?
  rcases h with hcell | haxis
  · obtain ⟨m, hm, rfl⟩ := ofCellWord?_cell hcell hkept 0
    rw [hm]
    rfl
  · obtain ⟨m, hm, rfl⟩ := ofAxisWord?_axis haxis hkept 0
    rw [ofCellWord?_axis haxis, hm]
    rfl

theorem not_blank_of_labelChars {cs : List Char} (h : LabelChars cs) {c : Char} (hc : c ∈ cs) :
    Text.isBlank c = false := by
  have := h c hc
  simp only [Text.isBlank, Bool.or_eq_false_iff, Bool.and_eq_false_iff, decide_eq_false_iff_not, beq_eq_false_iff_ne]
  omega

/-- A sheet name that starts with a blank, a parenthesis or a mark of a comparison is written in quotes. -/
theorem head_sheetPart {c : Char} {cs : List Char} (h : sheetPart name ++ ['!'] = c :: cs) :
    Text.isBlank c = false ∧ c ∉ "()=>".toList := by
  unfold sheetPart at h
  split at h
  · obtain rfl := (List.cons.inj h).1
    decide
  · rename_i hquotes
    cases hname : name.toList with
    | nil =>
      rw [hname] at h
      obtain rfl := (List.cons.inj h).1
      decide
    | cons d ds =>
      rw [hname] at h
      obtain rfl := (List.cons.inj h).1
      have hplain : ¬(Text.isBlank d || "-+=<>!()".toList.contains d) = true := fun hd =>
        hquotes (List.any_eq_true.2 ⟨d, hname ▸ List.mem_cons_self, hd⟩)
      simp only [Bool.or_eq_true, not_or, Bool.not_eq_true, List.contains_iff_mem] at hplain
      exact ⟨hplain.1, fun hd => hplain.2 (by simp at hd ⊢; tauto)⟩

theorem bodyChars_ne_nil (h : a.row ≠ none ∨ a.column ≠ none) : bodyChars a ≠ [] := by
  have hletters := Column.letters_ne_nil
  have hdigits := Row.name_ne_nil
  unfold bodyChars
  rcases h with hrow | hcolumn
  · obtain ⟨r, hr⟩ := Option.ne_none_iff_exists'.1 hrow
    simp [hr, hdigits]
  · obtain ⟨c, hc⟩ := Option.ne_none_iff_exists'.1 hcolumn
    simp [hc, hletters]

/-- What a label starts with. -/
theorem head_spelling (h : a.row ≠ none ∨ a.column ≠ none) :
    ∃ c cs, a.spelling.toList = c :: cs ∧ Text.isBlank c = false ∧ c ∉ "()=>".toList := by
  rw [toList_spelling h]
  cases hsheet : a.sheet with
  | none =>
    obtain ⟨c, cs, hbody⟩ := List.exists_cons_of_ne_nil (bodyChars_ne_nil h)
    have hc : c ∈ bodyChars a := hbody ▸ List.mem_cons_self
    refine ⟨c, cs, hbody, not_blank_of_labelChars (labelChars_bodyChars a) hc, fun hmem => ?_⟩
    have hcode := labelChars_bodyChars a c hc
    simp only [String.reduceToList, List.mem_cons, List.not_mem_nil, or_false] at hmem
    rcases hmem with rfl | rfl | rfl | rfl <;> simp at hcode
  | some name =>
    obtain ⟨c, cs, hfirst⟩ : ∃ c cs, sheetPart name ++ ['!'] = c :: cs := List.exists_cons_of_ne_nil (by simp)
    exact ⟨c, cs ++ bodyChars a, by rw [sheetChars, hfirst, List.cons_append], head_sheetPart hfirst⟩

/-- A label ends with a letter or a digit. -/
theorem last_spelling (h : a.row ≠ none ∨ a.column ≠ none) :
    ∃ cs c, a.spelling.toList = cs ++ [c] ∧ Text.isBlank c = false := by
  obtain ⟨ds, d, hlast⟩ := List.eq_nil_or_concat (bodyChars a) |>.resolve_left (bodyChars_ne_nil h)
  rw [List.concat_eq_append] at hlast
  refine ⟨sheetChars a.sheet ++ ds, d, by rw [toList_spelling h, hlast, List.append_assoc], ?_⟩
  exact not_blank_of_labelChars (labelChars_bodyChars a) (by simp [hlast])

/-- A label has no blanks at its ends. -/
theorem trim_spelling (h : a.row ≠ none ∨ a.column ≠ none) : Text.trim a.spelling = a.spelling := by
  obtain ⟨c, cs, hstart, hc, -⟩ := head_spelling h
  obtain ⟨ds, d, hend, hd⟩ := last_spelling h
  refine String.toList_injective ?_
  rw [Text.toList_trim]
  exact Text.trimChars_of_not_blank hc hd hstart hend

/-- A reference to another sheet that is read from a text is read from its label again if and only if the label keeps
the name of the sheet. -/
theorem parseReference_label_iff (h : parseReference locale text = some a) (hsheet : a.sheet ≠ none) :
    parseReference locale a.label = some a ↔ a.IsKept := by
  obtain ⟨hword, ha⟩ := isWord_of_parseReference h hsheet
  have hplaced := isPlaced_of_referenceOfWord? ha
  have htyped := isTyped_of_referenceOfWord? hword ha
  have hplace : a.row ≠ none ∨ a.column ≠ none := by
    rcases hplaced with ⟨r, -, hr, -⟩ | ⟨r, hr, -⟩ | ⟨c, hc, -⟩ <;> simp [*]
  have hlabel : a.label = a.spelling := by rw [Reference.label, Reference.labelAt, Reference.shift?_zero hplaced]
  have htrim := trim_spelling hplace
  rw [hlabel]
  constructor
  · intro hread
    have hspelling := (isWord_of_parseReference hread hsheet).1
    rw [htrim] at hspelling
    exact isKept_of_isWord htyped hplace hspelling
  · intro hkept
    have hspelling : IsWord a.spelling := by
      rcases hplaced with hcell | haxis
      · exact isWord_cell hcell hkept
      · exact isWord_axis haxis (fun hbare => hsheet hbare.2.1) hkept
    rw [parseReference_of_isWord hspelling htrim]
    exact referenceOfWord?_spelling hplaced hkept

theorem parseReference_label_budget : ∃ a, parseReference {} " 'Budget 2024'!$b3" = some a ∧ a.sheet ≠ none ∧
    a.label = "'Budget 2024'!$B3" ∧ parseReference {} a.label = some a := by
  obtain ⟨a, ha⟩ := Option.isSome_iff_exists.1 (show (parseReference {} " 'Budget 2024'!$b3").isSome = true by
    decide +kernel)
  have hchecked : ∀ a ∈ parseReference {} " 'Budget 2024'!$b3",
      a.sheet ≠ none ∧ a.label = "'Budget 2024'!$B3" ∧ a.IsKept := by decide +kernel
  obtain ⟨hsheet, hlabel, hkept⟩ := hchecked a ha
  exact ⟨a, ha, hsheet, hlabel, (parseReference_label_iff ha hsheet).2 hkept⟩

/-- A sheet whose name starts with a digit can be named in quotes only, and its labels are written without them. -/
theorem label_forgets_year : ∃ a, parseReference {} "'2024'!A1" = some a ∧ a.sheet = some "2024" ∧
    a.label = "2024!A1" ∧ parseReference {} a.label = none := by
  obtain ⟨a, ha⟩ := Option.isSome_iff_exists.1 (show (parseReference {} "'2024'!A1").isSome = true by decide +kernel)
  have hchecked : ∀ a ∈ parseReference {} "'2024'!A1",
      a.sheet = some "2024" ∧ a.label = "2024!A1" ∧ parseReference {} a.label = none := by decide +kernel
  exact ⟨a, ha, hchecked a ha⟩

end Formula

end Spreadsheet
