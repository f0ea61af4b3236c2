import Mathlib
import Spreadsheet.Expression.Render
import Spreadsheet.Proofs.Formula.Numeral

/-!
Lexemes with what follows them. A number, a word or a text in quotes is read the same wherever it stands, as
long as it is followed by units that end it.
-/

namespace Spreadsheet.Formula.Lexeme

variable {locale : Locale} {us vs rest : List Nat} {n : Numeral} {x : Float} {name : String} {u : Nat}

/-- Units before which a lexeme has ended. -/
structure Stops (rest : List Nat) : Prop where
  word : ∀ u ∈ rest.head?, isWordUnit u = false
  quote : rest.head? ≠ some (unitOf '"')
  percent : rest.head? ≠ some (unitOf '%')
  sign : Unsigned rest
  comma : ∀ vs, rest = unitOf ',' :: vs → ∀ v ∈ vs.head?, isDigitUnit v = false
  call : (rest.dropWhile isSpaceUnit).head? ≠ some (unitOf '(')

/-! ### Words -/

/-- The units are all of a word that goes on, inside quotes or not; at its end it is inside quotes or not. -/
def Spans (quoted : Bool) (us : List Nat) (last : Bool) : Prop := wordLength quoted us = (us.length, last)

theorem spans_nil {quoted last : Bool} : Spans quoted [] last ↔ quoted = last := by
  simp [Spans, wordLength]

theorem spans_cons {quoted last : Bool} : Spans quoted (u :: us) last ↔
    (quoted || isWordUnit u) = true ∧ Spans (quoted && u != unitOf '\x27') us last := by
  unfold Spans
  rw [wordLength]
  split
  · rename_i h
    simp only [h, true_and, List.length_cons, Prod.mk.injEq, Nat.add_right_cancel_iff]
    rw [Prod.ext_iff]
  · rename_i h
    simp [h]

theorem Spans.append {quoted middle last : Bool} (hus : Spans quoted us middle) (hvs : Spans middle vs last) :
    Spans quoted (us ++ vs) last := by
  induction us generalizing quoted with
  | nil => rwa [spans_nil.1 hus]
  | cons u us ih =>
    obtain ⟨hu, hus⟩ := spans_cons.1 hus
    exact spans_cons.2 ⟨hu, ih hus⟩

theorem Spans.append_iff {quoted middle last : Bool} (hus : Spans quoted us middle) :
    Spans quoted (us ++ vs) last ↔ Spans middle vs last := by
  refine ⟨fun h => ?_, hus.append⟩
  induction us generalizing quoted with
  | nil => rwa [← spans_nil.1 hus]
  | cons u us ih =>
    obtain ⟨-, hus⟩ := spans_cons.1 hus
    exact ih hus (spans_cons.1 h).2

/-- A word ends before a unit that no word has. -/
theorem Spans.wordLength_append {quoted : Bool} (h : Spans quoted us false)
    (hrest : ∀ u ∈ rest.head?, isWordUnit u = false) : wordLength quoted (us ++ rest) = (us.length, false) := by
  induction us generalizing quoted with
  | nil =>
    obtain rfl := spans_nil.1 h
    cases rest with
    | nil => rfl
    | cons u rest => simp [wordLength, hrest u rfl]
  | cons u us ih =>
    obtain ⟨hu, hus⟩ := spans_cons.1 h
    rw [List.cons_append, wordLength, if_pos hu, ih hus]
    rfl

theorem spans_take (quoted : Bool) (us : List Nat) :
    Spans quoted (us.take (wordLength quoted us).1) (wordLength quoted us).2 := by
  induction us generalizing quoted with
  | nil => exact spans_nil.2 rfl
  | cons u us ih =>
    rw [wordLength]
    split
    · rename_i h
      exact spans_cons.2 ⟨h, ih _⟩
    · exact spans_nil.2 rfl

/-- Inside quotes any character but the quote goes on with the word. -/
theorem spans_unitsOfChar {c : Char} (hc : c ≠ '\x27') : Spans true (Text.unitsOfChar c) true := by
  have hunit (v : Nat) (hv : v ≠ 39) : (v != unitOf '\x27') = true := by simpa [unitOf] using hv
  have hne : c.toNat ≠ 39 := fun h => hc (Char.ext (UInt32.toNat_inj.1 h))
  by_cases hlt : c.toNat < 0x10000
  · rw [Text.unitsOfChar_of_lt hlt]
    exact spans_cons.2 ⟨rfl, spans_nil.2 (by simp [hunit _ hne])⟩
  · rw [Text.unitsOfChar_of_le (by omega)]
    refine spans_cons.2 ⟨rfl, spans_cons.2 ⟨?_, spans_nil.2 ?_⟩⟩
    · simp [hunit (0xD800 + (c.toNat - 0x10000) / 0x400) (by omega)]
    · simp [hunit (0xD800 + (c.toNat - 0x10000) / 0x400) (by omega),
        hunit (0xDC00 + (c.toNat - 0x10000) % 0x400) (by omega)]

theorem spans_flatMap {cs : List Char} (hcs : ∀ c ∈ cs, c ≠ '\x27') :
    Spans true (cs.flatMap Text.unitsOfChar) true := by
  induction cs with
  | nil => exact spans_nil.2 rfl
  | cons c cs ih =>
    rw [List.flatMap_cons]
    exact (spans_unitsOfChar (hcs c List.mem_cons_self)).append (ih fun d hd => hcs d (List.mem_cons_of_mem c hd))

theorem lt_of_isWordUnit (h : isWordUnit u = true) : u < 0xD800 := by
  simp [isWordUnit, isLetterUnit, isDigitUnit, isAccentedUnit, unitOf] at h
  omega

theorem lt_of_isWordStart (h : isWordStart u = true) : u < 0xD800 := by
  simp [isWordStart, isLetterUnit, isAccentedUnit, unitOf] at h
  omega

theorem ofNat_ne_quote {k : Nat} (h : k ≠ 39) : Char.ofNat k ≠ '\x27' := by
  intro heq
  have hnat := congrArg Char.toNat heq
  unfold Char.ofNat at hnat
  split at hnat
  · exact h hnat
  · cases hnat

theorem charOfUnit_ne_quote (h : u ≠ 39) : Text.charOfUnit u ≠ '\x27' := by
  unfold Text.charOfUnit
  split
  · decide
  · exact ofNat_ne_quote h

/-- A unit that no word has outside quotes goes on with a word inside them only. -/
theorem spans_cons_high {quoted last : Bool} (hu : 0xD800 ≤ u) (h : Spans quoted (u :: us) last) :
    quoted = true ∧ Spans true us last := by
  obtain ⟨hword, hus⟩ := spans_cons.1 h
  have hplain : isWordUnit u = false := Bool.eq_false_iff.2 fun hc => by
    have := lt_of_isWordUnit hc
    omega
  have hquote : (u != unitOf '\x27') = true := by
    have : u ≠ 39 := by omega
    simpa [unitOf] using this
  obtain rfl : quoted = true := by simpa [hplain] using hword
  rw [hquote] at hus
  exact ⟨rfl, hus⟩

theorem spans_charOfUnit {quoted middle : Bool} (h : Spans quoted [u] middle) :
    Spans quoted (Text.unitsOfChar (Text.charOfUnit u)) middle := by
  by_cases hu : u < 0xD800
  · rwa [Text.unitsOfChar_charOfUnit hu]
  · obtain ⟨rfl, hlast⟩ := spans_cons_high (by omega) h
    rw [← spans_nil.1 hlast]
    exact spans_unitsOfChar (charOfUnit_ne_quote (by omega))

/-- The text of a word spans a word again, even where it has lost a surrogate. -/
theorem Spans.text {quoted last : Bool} (h : Spans quoted us last) :
    Spans quoted ((Text.charsOfUnits us).flatMap Text.unitsOfChar) last := by
  fun_induction Text.charsOfUnits us generalizing quoted with
  | case1 => exact h
  | case2 u =>
    rw [List.flatMap_cons, List.flatMap_nil, List.append_nil]
    exact spans_charOfUnit h
  | case3 u v rest hpair ih =>
    simp only [Text.isHighSurrogate, Text.isLowSurrogate, Bool.and_eq_true, decide_eq_true_eq] at hpair
    obtain ⟨rfl, hv⟩ := spans_cons_high (by omega) h
    obtain ⟨-, hrest⟩ := spans_cons_high (by omega) hv
    rw [List.flatMap_cons]
    exact (spans_unitsOfChar (ofNat_ne_quote (by omega))).append (ih hrest)
  | case4 u v rest hpair ih =>
    obtain ⟨hu, hv⟩ := spans_cons.1 h
    rw [List.flatMap_cons]
    exact (spans_charOfUnit (spans_cons.2 ⟨hu, spans_nil.2 rfl⟩)).append (ih hv)

/-- A word that is no truth value. -/
structure IsWord (name : String) : Prop where
  spans : ∃ u us, Text.units name = u :: us ∧ isWordStart u = true ∧ Spans (u == unitOf '\x27') us false
  notTrue : Text.equalIgnoringCase name "true" = false
  notFalse : Text.equalIgnoringCase name "false" = false

theorem units_word (hu : isWordStart u = true) (us : List Nat) :
    Text.units (Text.ofUnits (u :: us)) = u :: (Text.charsOfUnits us).flatMap Text.unitsOfChar := by
  have hlt := lt_of_isWordStart hu
  rw [Text.ofUnits, Text.charsOfUnits_cons (Text.isHighSurrogate_of_lt hlt), Text.units_ofList, List.flatMap_cons,
    Text.unitsOfChar_charOfUnit hlt, List.singleton_append]

/-- What reading a word gives. -/
theorem word_cases (hu : isWordStart u = true) (p : Nat) (us : List Nat) :
    (∃ e fault n, word p u us = (.atom e (some fault), n)) ∨
    (∃ b n, word p u us = (.atom (.literal p (.boolean b) none) none, n)) ∨
    ∃ name n, IsWord name ∧
      (word p u us = (.atom (wordAtom name p) none, n) ∨ ∃ openAt, word p u us = (.call name openAt, n)) := by
  have hspans := spans_take (u == unitOf '\x27') us
  unfold word
  simp only
  split
  · exact .inl ⟨_, _, _, rfl⟩
  · rename_i hbalanced
    rw [Bool.not_eq_true] at hbalanced
    rw [hbalanced] at hspans
    split
    · exact .inr (.inl ⟨true, _, rfl⟩)
    · rename_i htrue
      split
      · exact .inr (.inl ⟨false, _, rfl⟩)
      · rename_i hfalse
        have hword : IsWord (Text.ofUnits (u :: us.take (wordLength (u == unitOf '\x27') us).1)) :=
          ⟨⟨u, _, units_word hu _, hu, hspans.text⟩, by simpa using htrue, by simpa using hfalse⟩
        split
        · exact .inr (.inr ⟨_, _, hword, .inr ⟨_, rfl⟩⟩)
        · exact .inr (.inr ⟨_, _, hword, .inl rfl⟩)

/-! ### Reading a word again -/

theorem IsWord.wordLength_append {u : Nat} (hname : Text.units name = u :: us)
    (h : IsWord name) (hrest : ∀ u ∈ rest.head?, isWordUnit u = false) :
    isWordStart u = true ∧ wordLength (u == unitOf '\x27') (us ++ rest) = (us.length, false) := by
  obtain ⟨v, vs, hunits, hstart, hspans⟩ := h.spans
  obtain ⟨rfl, rfl⟩ := List.cons.inj (hname.symm.trans hunits)
  exact ⟨hstart, hspans.wordLength_append hrest⟩

theorem word_atom (h : IsWord name) (hname : Text.units name = u :: us) (hrest : Stops rest) (p : Nat) :
    word p u (us ++ rest) = (.atom (wordAtom name p) none, us.length) := by
  obtain ⟨-, hlength⟩ := h.wordLength_append hname hrest.word
  have hcall : (rest.drop (rest.takeWhile isSpaceUnit).length).head? ≠ some (unitOf '(') := by
    have hdrop := congrArg (List.drop (rest.takeWhile isSpaceUnit).length)
      (List.takeWhile_append_dropWhile (p := isSpaceUnit) (l := rest))
    rw [List.drop_left] at hdrop
    rw [← hdrop]
    exact hrest.call
  have hspelling : Text.ofUnits (u :: us) = name := by rw [← hname, Text.ofUnits_units]
  unfold word
  simp only [hlength, List.take_left, List.drop_left, hspelling, h.notTrue, h.notFalse, Bool.false_eq_true, if_false]
  exact if_neg (by simpa using hcall)

theorem word_call (h : IsWord name) (hname : Text.units name = u :: us) (rest : List Nat) (p : Nat) :
    ∃ openAt, word p u (us ++ unitOf '(' :: rest) = (.call name openAt, us.length + 1) := by
  have hopening : ∀ v ∈ (unitOf '(' :: rest).head?, isWordUnit v = false := by
    rintro v ⟨⟩
    rfl
  obtain ⟨-, hlength⟩ := h.wordLength_append hname hopening
  have hspace : (unitOf '(' :: rest).takeWhile isSpaceUnit = [] := List.takeWhile_cons_of_neg (by decide)
  have hspelling : Text.ofUnits (u :: us) = name := by rw [← hname, Text.ofUnits_units]
  refine ⟨p + 1 + us.length, ?_⟩
  unfold word
  simp only [hlength, List.take_left, List.drop_left, hspelling, h.notTrue, h.notFalse, hspace]
  simp

/-- The text of a truth value is read as that truth value. -/
theorem word_boolean (b : Bool) (hname : Text.units (if b then "TRUE" else "FALSE") = u :: us) (hrest : Stops rest)
    (p : Nat) :
    isWordStart u = true ∧ word p u (us ++ rest) = (.atom (.literal p (.boolean b) none) none, us.length) := by
  have hspelling : Text.ofUnits (u :: us) = if b then "TRUE" else "FALSE" := by rw [← hname, Text.ofUnits_units]
  cases b with
  | false =>
    have hunits : [70, 65, 76, 83, 69] = u :: us := hname
    obtain ⟨rfl, rfl⟩ := List.cons.inj hunits
    have hspans : Spans false [65, 76, 83, 69] false := rfl
    have hlength := hspans.wordLength_append hrest.word
    refine ⟨rfl, ?_⟩
    unfold word
    rw [show ((70 : Nat) == unitOf '\x27') = false from rfl]
    simp only [hlength, List.take_left, hspelling]
    rfl
  | true =>
    have hunits : [84, 82, 85, 69] = u :: us := hname
    obtain ⟨rfl, rfl⟩ := List.cons.inj hunits
    have hspans : Spans false [82, 85, 69] false := rfl
    have hlength := hspans.wordLength_append hrest.word
    refine ⟨rfl, ?_⟩
    unfold word
    rw [show ((84 : Nat) == unitOf '\x27') = false from rfl]
    simp only [hlength, List.take_left, hspelling]
    rfl

/-! ### Texts in quotes -/

/-- The units of a text between quotes, with its own quotes written twice. -/
def escaped (cs : List Char) : List Nat :=
  (cs.flatMap fun c => if c == '"' then ['"', '"'] else [c]).flatMap Text.unitsOfChar

theorem takeString_cons (hu : u ≠ 34) (us : List Nat) :
    takeString (u :: us) = (u :: (takeString us).1, (takeString us).2.1 + 1, (takeString us).2.2) := by
  rw [takeString]
  · exact fun _ h => absurd h hu
  · exact hu

theorem takeString_unitsOfChar {c : Char} (hc : c ≠ '"') (us : List Nat) :
    takeString (Text.unitsOfChar c ++ us) =
      (Text.unitsOfChar c ++ (takeString us).1, (takeString us).2.1 + (Text.unitsOfChar c).length,
        (takeString us).2.2) := by
  have hne : c.toNat ≠ 34 := fun h => hc (Char.ext (UInt32.toNat_inj.1 h))
  by_cases hlt : c.toNat < 0x10000
  · rw [Text.unitsOfChar_of_lt hlt, List.singleton_append, takeString_cons hne]
    rfl
  · rw [Text.unitsOfChar_of_le (by omega), List.cons_append, List.singleton_append, takeString_cons (by omega),
      takeString_cons (by omega)]
    rfl

/-- A text in quotes is read up to its closing quote. -/
theorem takeString_escaped (cs : List Char) (hrest : rest.head? ≠ some 34) :
    takeString (escaped cs ++ 34 :: rest) = (cs.flatMap Text.unitsOfChar, (escaped cs).length + 1, true) := by
  induction cs with
  | nil =>
    cases rest with
    | nil => rfl
    | cons u rest =>
      have hu : u ≠ 34 := by simpa using hrest
      change takeString (34 :: u :: rest) = _
      rw [takeString]
      · rfl
      · simpa using hu
  | cons c cs ih =>
    by_cases hc : c = '"'
    · subst hc
      change takeString (34 :: 34 :: (escaped cs ++ 34 :: rest)) = _
      rw [takeString, ih]
      rfl
    · have hescaped : escaped (c :: cs) = Text.unitsOfChar c ++ escaped cs := by
        simp [escaped, hc]
      rw [hescaped, List.append_assoc, takeString_unitsOfChar hc, ih]
      simp [Nat.add_comm, Nat.add_left_comm]

/-! ### Reading a lexeme -/

/-- What is read as one unit, neither a call nor an array: a number without an operand before it may have a
sign. -/
inductive IsAtom (locale : Locale) (first : Bool) : Expression → Prop
  | text (p : Nat) (s : String) : IsAtom locale first (.literal p (.text s) none)
  | boolean (p : Nat) (b : Bool) : IsAtom locale first (.literal p (.boolean b) none)
  | number (p : Nat) (us : List Nat) (x : Float) : IsNumber locale us x → (first = false → Unsigned us) →
      IsAtom locale first (.literal p (.number x) (some (Text.ofUnits us)))
  | imaginary (p : Nat) (y : Float) (spelling : String) : IsAtom locale first (.imaginary p y spelling)
  | word (p : Nat) (name : String) : IsWord name → IsAtom locale first (wordAtom name p)

theorem takeSign_drop (u : Nat) (us : List Nat) (h : u = 45 ∨ u = 43) : (u :: us).drop (takeSign (u :: us)).2 = us := by
  rcases h with rfl | rfl <;> rfl

theorem unsigned_of_startsNumber (h : startsNumber locale us = true) : Unsigned us := by
  cases us with
  | nil => rfl
  | cons u us =>
    have hu : isDigitUnit u = true ∨ u = unitOf locale.decimal.char := by
      rcases Bool.or_eq_true _ _ ▸ h with h | h
      · exact .inl h
      · exact .inr (eq_of_beq (Bool.and_eq_true _ _ ▸ h).1)
    rcases hu with hu | rfl
    · have := isDigitUnit_iff.1 hu
      exact unsigned_cons (by omega) (by omega) us
    · rcases decimalUnit locale with hd | hd <;> exact unsigned_cons (by omega) (by omega) us

/-- A prefix of units without a sign has none. -/
theorem Unsigned.of_append (h : Unsigned (vs ++ rest)) : Unsigned vs := by
  cases vs with
  | nil => rfl
  | cons v vs => exact h

/-- Where a number is read, its digits start after its sign; a sign that may be that of the number stands first. -/
theorem startsNumber_signed {first : Bool} (h : (startsNumber locale (u :: us) ||
    (first && (u == unitOf '-' || u == unitOf '+') && startsNumber locale us)) = true) :
    startsNumber locale ((u :: us).drop (takeSign (u :: us)).2) = true ∧ (first = false → Unsigned (u :: us)) := by
  rcases Bool.or_eq_true _ _ ▸ h with hplain | hsigned
  · have hunsigned := unsigned_of_startsNumber hplain
    rw [takeSign_of_unsigned hunsigned]
    exact ⟨hplain, fun _ => hunsigned⟩
  · simp only [Bool.and_eq_true, Bool.or_eq_true, beq_iff_eq] at hsigned
    rw [takeSign_drop u us hsigned.1.2]
    exact ⟨hsigned.2, fun h => by simp [hsigned.1.1] at h⟩

/-- What a lexeme can be. -/
theorem read_cases (hi : locale.imaginary = 'i' ∨ locale.imaginary = 'j') (first : Bool) (p u : Nat) (us : List Nat) :
    (∃ n, read locale first p u us = (.space, n)) ∨
    (∃ e fault n, read locale first p u us = (.atom e (some fault), n)) ∨
    (∃ e n, IsAtom locale first e ∧ read locale first p u us = (.atom e none, n)) ∨
    (∃ name openAt n, IsWord name ∧ read locale first p u us = (.call name openAt, n)) ∨
    (∃ n, read locale first p u us = (.openArray, n)) ∨
    ∃ n, read locale first p u us = (.mark u, n) := by
  unfold read
  split
  · exact .inl ⟨_, rfl⟩
  split
  · simp only
    split
    · exact .inr (.inr (.inl ⟨_, _, .text p _, rfl⟩))
    · exact .inr (.inl ⟨_, _, _, rfl⟩)
  split
  · rename_i hstarts
    obtain ⟨hdrop, hfirst⟩ := startsNumber_signed hstarts
    simp only
    rcases number_cases hi hdrop p with ⟨vs, rest, x, hus, hnumber, hread⟩ | ⟨y, spelling, k, hread⟩
    · rw [hread]
      exact .inr (.inr (.inl ⟨_, _, .number p vs x hnumber fun h => (hus ▸ hfirst h).of_append, rfl⟩))
    · rw [hread]
      exact .inr (.inr (.inl ⟨_, _, .imaginary p y spelling, rfl⟩))
  split
  · exact .inr (.inr (.inr (.inr (.inl ⟨_, rfl⟩))))
  split
  · rename_i hstart
    rcases word_cases hstart p us with ⟨e, fault, n, h⟩ | ⟨b, n, h⟩ | ⟨name, n, hname, h | ⟨openAt, h⟩⟩
    · exact .inr (.inl ⟨e, fault, n, h⟩)
    · exact .inr (.inr (.inl ⟨_, n, .boolean p b, h⟩))
    · exact .inr (.inr (.inl ⟨_, n, .word p name hname, h⟩))
    · exact .inr (.inr (.inr (.inl ⟨name, openAt, n, hname, h⟩)))
  · exact .inr (.inr (.inr (.inr (.inr ⟨_, rfl⟩))))

/-! ### Reading a lexeme again -/

theorem startsNumber_of_ne (hdigit : isDigitUnit u = false) (hmark : u ≠ unitOf locale.decimal.char) (us : List Nat) :
    startsNumber locale (u :: us) = false := by
  simp [startsNumber, hdigit, hmark]

/-- Units that start no other lexeme are marks. -/
theorem read_mark {first : Bool} (hspace : isSpaceUnit u = false) (hquote : u ≠ 34) (hbrace : u ≠ 123)
    (hword : isWordStart u = false) (hnumber : startsNumber locale (u :: us) = false)
    (hsign : first = true → u = 45 ∨ u = 43 → startsNumber locale us = false) (p : Nat) :
    read locale first p u us = (.mark u, 0) := by
  have hsigned : (first && (u == unitOf '-' || u == unitOf '+') && startsNumber locale us) = false := by
    by_cases h : first = true ∧ (u = 45 ∨ u = 43)
    · simp [hsign h.1 h.2]
    · cases first with
      | false => rfl
      | true =>
        have hne : ¬(u = 45 ∨ u = 43) := fun hu => h ⟨rfl, hu⟩
        simp [unitOf]
        omega
  unfold read
  rw [hspace, hnumber, hsigned, hword]
  simp [unitOf, hquote, hbrace]

theorem read_brace (locale : Locale) (first : Bool) (us : List Nat) (p : Nat) :
    read locale first p 123 us = (.openArray, 0) := by
  have hdecimal := decimalUnit locale
  have hnumber : startsNumber locale (123 :: us) = false := startsNumber_of_ne rfl (by omega) us
  unfold read
  rw [hnumber]
  cases first <;> rfl

theorem read_text (locale : Locale) (first : Bool) (s : String) (hrest : Stops rest) (p : Nat) :
    read locale first p 34 (escaped s.toList ++ 34 :: rest) =
      (.atom (.literal p (.text s) none) none, (escaped s.toList).length + 1) := by
  have htext : Text.ofUnits (s.toList.flatMap Text.unitsOfChar) = s := Text.ofUnits_units s
  unfold read
  rw [show isSpaceUnit 34 = false from rfl, show (34 == unitOf '"') = true from rfl]
  simp only [Bool.false_eq_true, if_false, if_true, takeString_escaped s.toList hrest.quote, htext]

theorem read_word {first : Bool} (hu : isWordStart u = true) (p : Nat) (us : List Nat) :
    read locale first p u us = word p u us := by
  have hcases : (65 ≤ u ∧ u ≤ 90 ∨ 97 ≤ u ∧ u ≤ 122) ∨ 192 ≤ u ∧ u ≤ 312 ∨ u = 95 ∨ u = 36 ∨ u = 39 := by
    simpa [isWordStart, isLetterUnit, isAccentedUnit, unitOf, or_assoc] using hu
  have hdecimal := decimalUnit locale
  have hspace : isSpaceUnit u = false := by
    simp [isSpaceUnit]
    omega
  have hdigit : isDigitUnit u = false := by
    simp [isDigitUnit]
    omega
  have hnumber : startsNumber locale (u :: us) = false := startsNumber_of_ne hdigit (by omega) us
  have hsign : (u == unitOf '-' || u == unitOf '+') = false := by
    simp [unitOf]
    omega
  have hquote : (u == unitOf '"') = false := by
    simp [unitOf]
    omega
  have hbrace : (u == unitOf '\x7b') = false := by
    simp [unitOf]
    omega
  unfold read
  rw [hspace, hnumber, hsign, hquote, hbrace, hu]
  simp

theorem startsNumber_whole {whole fraction places : List Nat} (hwhole : DigitUnits whole)
    (hplaces : WritesPlaces locale fraction places) (hne : whole ++ places ≠ []) (rest : List Nat) :
    startsNumber locale (whole ++ (fraction ++ rest)) = true := by
  cases whole with
  | cons u whole => simp [startsNumber, hwhole u List.mem_cons_self]
  | nil =>
    cases hplaces with
    | none => exact absurd rfl hne
    | mark _ hps =>
      obtain ⟨v, places, rfl⟩ := List.exists_cons_of_ne_nil hne
      simp [startsNumber, hps v List.mem_cons_self]

/-- A number without a sign starts with a digit or with a mark before one. -/
theorem startsNumber_writes (hvs : Writes locale vs n) (hne : n.whole ++ n.places ≠ []) (hunsigned : Unsigned vs)
    (rest : List Nat) : startsNumber locale (vs ++ rest) = true := by
  obtain ⟨sign, fraction, exponent, rfl, hsign, hwhole, hplaces, -⟩ := hvs
  generalize n.negative = negative at hsign
  cases hsign with
  | none =>
    simp only [List.nil_append, List.append_assoc]
    exact startsNumber_whole hwhole hplaces hne (exponent ++ rest)
  | minus => cases hunsigned
  | plus => cases hunsigned

/-- Units of a number are read as a number, with a sign only where no operand stands before. -/
theorem read_writes (first : Bool) (hvs : Writes locale vs n) (hne : n.whole ++ n.places ≠ [])
    (hfirst : first = false → Unsigned vs) (rest : List Nat) (p : Nat) :
    ∃ u ws, vs = u :: ws ∧ read locale first p u (ws ++ rest) =
      (.atom (number locale p (vs ++ rest)).1 none, (number locale p (vs ++ rest)).2 - 1) := by
  have hread (u : Nat) (ws : List Nat) (hu : isDigitUnit u = true ∨ u = 46 ∨ u = 44 ∨ u = 45 ∨ u = 43)
      (hstarts : startsNumber locale (u :: (ws ++ rest)) = true ∨
        first = true ∧ (u = 45 ∨ u = 43) ∧ startsNumber locale (ws ++ rest) = true) :
      read locale first p u (ws ++ rest) =
        (.atom (number locale p (u :: (ws ++ rest))).1 none, (number locale p (u :: (ws ++ rest))).2 - 1) := by
    rw [isDigitUnit_iff] at hu
    have hspace : isSpaceUnit u = false := by
      simp [isSpaceUnit]
      omega
    have hquote : (u == unitOf '"') = false := by
      simp [unitOf]
      omega
    unfold read
    rw [hspace, hquote]
    simp only [Bool.false_eq_true, if_false]
    rw [if_pos]
    rcases hstarts with h | ⟨hf, rfl | rfl, h⟩
    · simp [h]
    · simp [hf, h, unitOf]
    · simp [hf, h, unitOf]
  obtain ⟨sign, fraction, exponent, rfl, hsign, hwhole, hplaces, hexponent, hlength⟩ := hvs
  have hstarts : startsNumber locale (n.whole ++ (fraction ++ exponent) ++ rest) = true := by
    simp only [List.append_assoc]
    exact startsNumber_whole hwhole hplaces hne (exponent ++ rest)
  have hsigned (hf : first = false → False) : first = true := by
    cases first
    · exact absurd rfl hf
    · rfl
  generalize n.negative = negative at hsign
  cases hsign with
  | none =>
    rw [List.nil_append]
    cases hvs : n.whole ++ (fraction ++ exponent) with
    | nil =>
      have hempty := startsNumber_whole hwhole hplaces hne exponent
      rw [hvs] at hempty
      cases hempty
    | cons u ws =>
      rw [hvs] at hstarts
      refine ⟨u, ws, rfl, hread u ws ?_ (.inl hstarts)⟩
      have hu : isDigitUnit u = true ∨ u = unitOf locale.decimal.char := by
        rcases Bool.or_eq_true _ _ ▸ hstarts with h | h
        · exact .inl h
        · exact .inr (eq_of_beq (Bool.and_eq_true _ _ ▸ h).1)
      rcases hu with h | rfl
      · exact .inl h
      · rcases decimalUnit locale with h | h
        · exact .inr (.inl h)
        · exact .inr (.inr (.inl h))
  | minus =>
    have hf := hsigned fun h => by cases hfirst h
    exact ⟨unitOf '-', _, rfl, hread _ _ (by simp [unitOf]) (.inr ⟨hf, .inl rfl, hstarts⟩)⟩
  | plus =>
    have hf := hsigned fun h => by cases hfirst h
    exact ⟨unitOf '+', _, rfl, hread _ _ (by simp [unitOf]) (.inr ⟨hf, .inr rfl, hstarts⟩)⟩

theorem Stops.ends (h : Stops rest) (n : Numeral) : Ends locale n rest := by
  have hword (u : Nat) (hu : u ∈ rest.head?) :
      isDigitUnit u = false ∧ isExponentMark u = false ∧ u ≠ 46 := by
    have hu := h.word u hu
    simp [isWordUnit, isLetterUnit, unitOf] at hu
    refine ⟨hu.1.1.1.1.1.2, ?_, by omega⟩
    simp [isExponentMark, unitOf]
    omega
  refine ⟨fun u hu => (hword u hu).1, ?_, fun u hu => (hword u hu).2.1, fun _ => h.sign⟩
  cases rest with
  | nil => rfl
  | cons u rest =>
    have hne := (hword u rfl).2.2
    cases hdecimal : locale.decimal with
    | period => exact startsFraction_of_ne (by rw [hdecimal]; exact hne) rest
    | comma =>
      by_cases hu : u = 44
      · have hnext := h.comma rest (by rw [hu]; rfl)
        cases rest with
        | nil => simp [startsFraction, hdecimal]
        | cons v rest => simp [startsFraction, hdecimal, hnext v rfl]
      · exact startsFraction_of_ne (by rw [hdecimal]; exact hu) rest

theorem Stops.imaginary (h : Stops rest) (hi : locale.imaginary = 'i' ∨ locale.imaginary = 'j') :
    ∀ u ∈ rest.head?, isImaginaryMark locale u = false := by
  intro u hu
  have hword := h.word u hu
  have hne : u ≠ unitOf locale.imaginary := by
    rintro rfl
    rcases hi with hi | hi <;> rw [hi] at hword <;> cases hword
  simp [isImaginaryMark, hne]

/-- A number is read again wherever it stands. -/
theorem read_number (first : Bool) (hi : locale.imaginary = 'i' ∨ locale.imaginary = 'j') (h : IsNumber locale us x)
    (hfirst : first = false → Unsigned us) (hrest : Stops rest) (p : Nat) :
    ∃ u vs, us = u :: vs ∧ read locale first p u (vs ++ rest) =
      (.atom (.literal p (.number x) (some (Text.ofUnits us))) none, vs.length) := by
  obtain ⟨n, vs, hvs, hne, ⟨rfl, rfl⟩ | ⟨rfl, rfl⟩⟩ := h
  · obtain ⟨u, ws, rfl, hread⟩ := read_writes first hvs hne hfirst rest p
    refine ⟨u, ws, rfl, hread.trans ?_⟩
    rw [number_plain hi hvs hne (hrest.ends n) hrest.percent (hrest.imaginary hi)]
    rfl
  · obtain ⟨u, ws, rfl, hread⟩ := read_writes first hvs hne (fun hf => (hfirst hf).of_append) (unitOf '%' :: rest) p
    refine ⟨u, ws ++ [unitOf '%'], rfl, ?_⟩
    rw [List.append_assoc]
    refine hread.trans ?_
    rw [number_percent hi hvs hne]
    simp

/-! ### The texts of numbers -/

open Number (Digits decimalText placesText ReadsBackAs)

theorem isDigit_iff {c : Char} : Number.isDigit c = true ↔ 48 ≤ c.toNat ∧ c.toNat ≤ 57 := by
  simp only [Number.isDigit, Char.le_def, UInt32.le_iff_toNat_le, Bool.and_eq_true, decide_eq_true_eq]
  exact Iff.rfl

theorem flatMap_digits {cs : List Char} (hcs : Digits cs) : cs.flatMap Text.unitsOfChar = cs.map Char.toNat := by
  induction cs with
  | nil => rfl
  | cons c cs ih =>
    have hc := isDigit_iff.1 (hcs c List.mem_cons_self)
    rw [List.flatMap_cons, Text.unitsOfChar_of_lt (by omega), List.map_cons, List.singleton_append,
      ih fun d hd => hcs d (List.mem_cons_of_mem c hd)]

theorem digitUnits_map {cs : List Char} (hcs : Digits cs) : DigitUnits (cs.map Char.toNat) := by
  intro u hu
  obtain ⟨c, hc, rfl⟩ := List.mem_map.1 hu
  exact isDigitUnit_iff.2 (isDigit_iff.1 (hcs c hc))

theorem digitChars_map {cs : List Char} (hcs : Digits cs) : digitChars (cs.map Char.toNat) = cs := by
  have hchar (c : Char) (hc : c ∈ cs) : (Text.charOfUnit ∘ Char.toNat) c = id c := by
    have hdigit := isDigitUnit_iff.1 (digitUnits_map hcs _ (List.mem_map_of_mem hc))
    exact Text.charOfUnit_toNat (by omega)
  rw [digitChars, List.map_map, List.map_congr_left hchar, List.map_id]

/-- The units of a decimal are the number with its digits. -/
theorem writes_decimalText (locale : Locale) (negative : Bool) {whole places : List Char} (hne : whole ≠ [])
    (hwhole : Digits whole) (hplaces : Digits places) :
    ∃ n, Writes locale ((decimalText locale.decimal.char negative whole places).flatMap Text.unitsOfChar) n ∧
      n.whole ++ n.places ≠ [] ∧ n.exponent = none ∧
      n.value = Number.ofDecimal negative (Number.digitsValue (whole ++ places)) (0 - places.length) := by
  have hfraction : WritesPlaces locale ((placesText locale.decimal.char places).flatMap Text.unitsOfChar)
      (places.map Char.toNat) := by
    unfold placesText
    split
    · rename_i h
      rw [List.isEmpty_iff.1 h]
      exact .none
    · rename_i h
      have hmark : Text.unitsOfChar locale.decimal.char = [unitOf locale.decimal.char] := by
        cases locale.decimal <;> rfl
      rw [List.flatMap_cons, flatMap_digits hplaces, hmark]
      exact .mark _ (digitUnits_map hplaces) fun _ => by simpa using h
  have hsign : WritesSign ((if negative then ['-'] else []).flatMap Text.unitsOfChar) negative := by
    cases negative
    · exact .none
    · exact .minus
  refine ⟨⟨negative, whole.map Char.toNat, places.map Char.toNat, none, _⟩, ⟨_, _, [], ?_, hsign, digitUnits_map hwhole,
    hfraction, .none, rfl⟩, by simp [hne], rfl, ?_⟩
  · simp [decimalText, flatMap_digits hwhole]
  · rw [Numeral.value, ← List.map_append, digitChars_map (hwhole.append hplaces), List.length_map]
    rfl

theorem unsigned_decimalText (mark : Char) {whole : List Char} (places : List Char) (hne : whole ≠ [])
    (hwhole : Digits whole) : Unsigned ((decimalText mark false whole places).flatMap Text.unitsOfChar) := by
  simp only [decimalText, Bool.false_eq_true, if_false, List.nil_append, List.flatMap_append, flatMap_digits hwhole]
  exact unsigned_of_digits (digitUnits_map hwhole) (by simpa using hne) _

variable {same : Float → Float → Prop}

/-- The text of a number is read as what the number reads back as. -/
theorem writes_renderNumber (locale : Locale) {x : Float} (h : ReadsBackAs same x) (hx : x.isFinite = true) :
    ∃ n, Writes locale (Text.units (Expression.renderNumber locale x)) n ∧ n.whole ++ n.places ≠ [] ∧
      n.exponent = none ∧ same n.value x ∧
      (¬x < 0 → Unsigned (Text.units (Expression.renderNumber locale x))) := by
  obtain ⟨whole, places, hne, hwhole, hplaces, htext, hvalue⟩ := Expression.renderNumber_eq locale h hx
  obtain ⟨n, hn, hnonempty, hexponent, hn'⟩ := writes_decimalText locale (decide (x < 0)) hne hwhole hplaces
  rw [← htext] at hn
  refine ⟨n, hn, hnonempty, hexponent, hn' ▸ hvalue, fun hpositive => ?_⟩
  change Unsigned ((Expression.renderNumber locale x).toList.flatMap Text.unitsOfChar)
  rw [htext, decide_eq_false hpositive]
  exact unsigned_decimalText _ places hne hwhole

/-- The text of a complex number is a number, a sign and an imaginary number. -/
theorem units_renderComplex (hi : locale.imaginary = 'i' ∨ locale.imaginary = 'j') {z : Complex}
    (hreal : ReadsBackAs same z.real) (hreal' : z.real.isFinite = true) (himaginary : ReadsBackAs same z.imaginary)
    (himaginary' : z.imaginary.isFinite = true) :
    ∃ n m vs ws u, Text.units (Expression.renderComplex locale z) = vs ++ u :: (ws ++ [unitOf locale.imaginary]) ∧
      (Writes locale vs n ∧ n.whole ++ n.places ≠ [] ∧ n.exponent = none ∧ same n.value z.real ∧
        (¬z.real < 0 → Unsigned vs)) ∧
      (Writes locale ws m ∧ m.whole ++ m.places ≠ [] ∧ m.exponent = none ∧ Unsigned ws) ∧
      (u = unitOf '+' ∧ same m.value z.imaginary ∨ u = unitOf '-' ∧ same (-m.value) z.imaginary) := by
  obtain ⟨n, hn, hne, hexponent, hvalue, hunsigned⟩ := writes_renderNumber locale hreal hreal'
  have hunit : Text.units locale.imaginary.toString = [unitOf locale.imaginary] := by
    rcases hi with h | h <;> rw [h] <;> rfl
  have htext : Text.units (Expression.renderComplex locale z) =
      Text.units (Expression.renderNumber locale z.real) ++
        (Text.units (if 0 ≤ z.imaginary then "+" else "") ++
          Text.units (Expression.renderNumber locale z.imaginary)) ++ [unitOf locale.imaginary] := by
    simp only [Expression.renderComplex, Text.units_append, hunit, List.append_assoc]
  by_cases hnegative : z.imaginary < 0
  · obtain ⟨whole, places, hne', hwhole, hplaces, hdecimal, hvalue'⟩ :=
      Expression.renderNumber_eq locale himaginary himaginary'
    obtain ⟨m, hm, hnonempty, hexponent', hm'⟩ := writes_decimalText locale false hne' hwhole hplaces
    have hle : ¬0 ≤ z.imaginary := by simpa [Number.le_iff_of_isFinite himaginary'] using hnegative
    have hunits : Text.units (Expression.renderNumber locale z.imaginary) =
        unitOf '-' :: (decimalText locale.decimal.char false whole places).flatMap Text.unitsOfChar := by
      change (Expression.renderNumber locale z.imaginary).toList.flatMap Text.unitsOfChar = _
      rw [hdecimal, decide_eq_true hnegative]
      rfl
    rw [decide_eq_true hnegative] at hvalue'
    refine ⟨n, m, _, _, unitOf '-', ?_, ⟨hn, hne, hexponent, hvalue, hunsigned⟩,
      ⟨hm, hnonempty, hexponent', unsigned_decimalText _ places hne' hwhole⟩, .inr ⟨rfl, by rw [hm']; exact hvalue'⟩⟩
    rw [htext, hunits]
    simp [hle]
  · obtain ⟨m, hm, hnonempty, hexponent', hm', hunsigned'⟩ := writes_renderNumber locale himaginary himaginary'
    have hle : 0 ≤ z.imaginary := (Number.le_iff_of_isFinite himaginary').2 hnegative
    refine ⟨n, m, _, _, unitOf '+', ?_, ⟨hn, hne, hexponent, hvalue, hunsigned⟩,
      ⟨hm, hnonempty, hexponent', hunsigned' hnegative⟩, .inl ⟨rfl, hm'⟩⟩
    rw [htext, if_pos hle]
    simp
    rfl

end Spreadsheet.Formula.Lexeme
