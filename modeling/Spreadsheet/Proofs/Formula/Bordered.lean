import Spreadsheet.Proofs.Formula.Enclosed

/-!
What texts of units start and end with. Neither end is blank, and no text starts with a sign of equality, so the
text of an expression is read as it stands. A text that starts with no digit and no mark can follow a sign.
-/

namespace Spreadsheet.Formula

open Lexeme (IsNumberUnit IsNumber IsWord Spans startsNumber)

variable {locale : Locale} {us vs rest : List Nat} {rows columns : Int} {u v : Nat} {s : String} {a b : Reference}

/-! ### Units that are not blank -/

/-- The unit is a character that is not blank. -/
def IsSolid (u : Nat) : Prop := 32 < u ∧ u < 0x1680 ∧ u ≠ 0x85 ∧ u ≠ 0xA0

/-- The unit is not blank and belongs to no operator that has other units in front. -/
def IsLead (u : Nat) : Prop := IsSolid u ∧ u ≠ 61 ∧ u ≠ 62

theorem not_blank_of_solid {c : Char} (h : IsSolid c.toNat) : Text.isBlank c = false := by
  unfold IsSolid at h
  simp only [Text.isBlank, Bool.or_eq_false_iff, Bool.and_eq_false_iff, decide_eq_false_iff_not, beq_eq_false_iff_ne]
  omega

theorem isLead_of_wordStart (h : isWordStart u = true) : IsLead u := by
  simp [isWordStart, isLetterUnit, isAccentedUnit, unitOf] at h
  unfold IsLead IsSolid
  omega

theorem isSolid_of_wordUnit (h : isWordUnit u = true) : IsSolid u := by
  simp [isWordUnit, isLetterUnit, isAccentedUnit, isDigitUnit, unitOf] at h
  unfold IsSolid
  omega

theorem isLead_of_numberUnit (h : IsNumberUnit u) : IsLead u := by
  unfold IsNumberUnit at h
  unfold IsLead IsSolid
  omega

/-- A text that starts and ends with a unit that is not blank. -/
structure Bordered (us : List Nat) : Prop where
  first : ∃ u ∈ us.head?, IsLead u
  last : ∃ v ∈ us.getLast?, IsSolid v

/-- Between two such texts anything may stand. -/
theorem Bordered.append (h : Bordered us) (ws : List Nat) (h' : Bordered vs) : Bordered (us ++ (ws ++ vs)) where
  first := by
    obtain ⟨u, hu, hlead⟩ := h.first
    exact ⟨u, List.mem_head?_append_of_mem_head? hu, hlead⟩
  last := by
    obtain ⟨v, hv, hsolid⟩ := h'.last
    exact ⟨v, List.mem_getLast?_append_of_mem_getLast? (List.mem_getLast?_append_of_mem_getLast? hv), hsolid⟩

theorem bordered_between (hu : IsLead u) (hv : IsSolid v) (ws : List Nat) : Bordered (u :: (ws ++ [v])) where
  first := ⟨u, rfl, hu⟩
  last := ⟨v, by rw [← List.cons_append, List.getLast?_concat]; rfl, hv⟩

theorem bordered_of_forall (hne : us ≠ []) (h : ∀ u ∈ us, IsLead u) : Bordered us where
  first := ⟨us.head hne, List.head?_eq_some_head hne, h _ (List.head_mem hne)⟩
  last := ⟨us.getLast hne, List.getLast?_eq_some_getLast hne, (h _ (List.getLast_mem hne)).1⟩

/-! ### Texts that are read as they stand -/

theorem toNat_of_head {c : Char} {cs : List Char} (hu : u ∈ ((c :: cs).flatMap Text.unitsOfChar).head?)
    (hlt : u < 0x1680) : c.toNat = u := by
  rw [List.flatMap_cons] at hu
  by_cases hc : c.toNat < 0x10000
  · rw [Text.unitsOfChar_of_lt hc] at hu
    exact Option.some.inj hu
  · rw [Text.unitsOfChar_of_le (by omega)] at hu
    have := Option.some.inj hu
    omega

theorem toNat_of_getLast {c : Char} {cs : List Char} (hu : u ∈ ((cs ++ [c]).flatMap Text.unitsOfChar).getLast?)
    (hlt : u < 0x1680) : c.toNat = u := by
  rw [List.flatMap_append, List.flatMap_singleton] at hu
  by_cases hc : c.toNat < 0x10000
  · rw [Text.unitsOfChar_of_lt hc, List.getLast?_concat] at hu
    exact Option.some.inj hu
  · rw [Text.unitsOfChar_of_le (by omega)] at hu
    have hlow : 0xDC00 + (c.toNat - 0x10000) % 0x400 = u := by simpa using hu
    omega

/-- A text that starts and ends with no blank, and not with a sign of equality. -/
structure Framed (s : String) : Prop where
  first : ∃ c cs, s.toList = c :: cs ∧ Text.isBlank c = false ∧ c ≠ '='
  last : ∃ cs c, s.toList = cs ++ [c] ∧ Text.isBlank c = false

theorem framed_of_bordered (h : Bordered (Text.units s)) : Framed s := by
  obtain ⟨u, hu, hlead⟩ := h.first
  obtain ⟨v, hv, hsolid⟩ := h.last
  unfold Text.units at hu hv
  have hne : s.toList ≠ [] := by
    intro hnil
    rw [hnil] at hu
    cases hu
  obtain ⟨c, cs, hfirst⟩ := List.exists_cons_of_ne_nil hne
  obtain ⟨ds, d, hlast⟩ := List.eq_nil_or_concat s.toList |>.resolve_left hne
  rw [List.concat_eq_append] at hlast
  rw [hfirst] at hu
  rw [hlast] at hv
  have hc := toNat_of_head hu hlead.1.2.1
  have hd := toNat_of_getLast hv hsolid.2.1
  refine ⟨⟨c, cs, hfirst, not_blank_of_solid (hc ▸ hlead.1), ?_⟩, ds, d, hlast, not_blank_of_solid (hd ▸ hsolid)⟩
  rintro rfl
  exact hlead.2.1 hc.symm

theorem Framed.trimChars_eq (h : Framed s) : Text.trimChars s.toList = s.toList := by
  obtain ⟨c, cs, hfirst, hc, -⟩ := h.first
  obtain ⟨ds, d, hlast, hd⟩ := h.last
  exact Text.trimChars_of_not_blank hc hd hfirst hlast

/-- Nothing is left out of such a text. -/
theorem Framed.body_eq (h : Framed s) : body s = s := by
  obtain ⟨c, cs, hfirst, -, hequals⟩ := h.first
  refine String.toList_injective ((toList_body_of_ne s fun rest hrest => ?_).trans h.trimChars_eq)
  rw [h.trimChars_eq, hfirst] at hrest
  exact hequals (List.cons.inj hrest).1

/-! ### Words -/

/-- A word ends with a unit that words have, or with a quote. -/
theorem isSolid_of_spans {quoted : Bool} (h : Spans quoted us false) (hne : us ≠ []) :
    ∃ v ∈ us.getLast?, IsSolid v := by
  induction us generalizing quoted with
  | nil => exact absurd rfl hne
  | cons u us ih =>
    obtain ⟨hword, hrest⟩ := Lexeme.spans_cons.1 h
    by_cases hus : us = []
    · subst hus
      refine ⟨u, rfl, ?_⟩
      by_cases hu : isWordUnit u = true
      · exact isSolid_of_wordUnit hu
      · -- the quote that closes
        have hquoted : quoted = true := by simpa [hu] using hword
        have hclosed := Lexeme.spans_nil.1 hrest
        have hquote : u = 39 := by simpa [hquoted, unitOf] using hclosed
        rw [hquote]
        simp [IsSolid]
    · obtain ⟨v, hv, hsolid⟩ := ih hrest hus
      refine ⟨v, ?_, hsolid⟩
      rw [List.getLast?_cons_of_ne_nil hus]
      exact hv


theorem bordered_word {name : String} (h : IsWord name) : Bordered (Text.units name) := by
  obtain ⟨u, us, hunits, hstart, hspans⟩ := h.spans
  have hlead := isLead_of_wordStart hstart
  rw [hunits]
  refine ⟨⟨u, rfl, hlead⟩, ?_⟩
  by_cases hus : us = []
  · exact ⟨u, by rw [hus]; rfl, hlead.1⟩
  · obtain ⟨v, hv, hsolid⟩ := isSolid_of_spans hspans hus
    exact ⟨v, by rwa [List.getLast?_cons_of_ne_nil hus], hsolid⟩

/-- The label of a row by itself is a number. -/
theorem bordered_bareRow (h : Mention.IsBareRow a) : Bordered (Text.units a.spelling) := by
  obtain ⟨-, -, -, -, -, hdigits, hne⟩ := Mention.isNumber_bareRow {} h
  refine bordered_of_forall hne fun u hu => ?_
  have hdigit := Lexeme.isDigitUnit_iff.1 (hdigits u hu)
  exact isLead_of_numberUnit (.inr (.inl (by omega)))

theorem bordered_axis (h : a.IsRow ∨ a.IsColumn) (hsheet : a.IsKept) : Bordered (Text.units a.spelling) := by
  by_cases hbare : Mention.IsBareRow a
  · exact bordered_bareRow hbare
  · exact bordered_word (Mention.isWord_axis h hbare hsheet)

theorem bordered_label (h : a.IsCell ∨ a.IsRow ∨ a.IsColumn) (hsheet : a.IsKept) :
    Bordered (Text.units a.spelling) := by
  rcases h with hcell | haxis
  · exact bordered_word (Mention.isWord_cell hcell hsheet)
  · exact bordered_axis haxis hsheet

/-! ### Numbers -/

theorem bordered_number {x : Float} (h : IsNumber locale us x) : Bordered us := by
  have hne : us ≠ [] := by
    obtain ⟨n, vs, hvs, hne, h⟩ := h
    obtain ⟨u, ws, rfl, -⟩ := Lexeme.read_writes true hvs hne nofun [] 0
    rcases h with ⟨rfl, -⟩ | ⟨rfl, -⟩
    · simp
    · simp
  exact bordered_of_forall hne fun u hu => isLead_of_numberUnit (h.isNumberUnit u hu)

/-! ### Texts that can follow a sign -/

/-- Units that start no number: a word, a text, a parenthesis or an array starts with them, or a sign. -/
def IsPlain (u : Nat) : Prop := isDigitUnit u = false ∧ u ≠ 44 ∧ u ≠ 46

theorem startsNumber_of_plain (h : ∃ u ∈ us.head?, IsPlain u) (rest : List Nat) :
    startsNumber locale (us ++ rest) = false := by
  obtain ⟨u, hu, hdigit, hcomma, hperiod⟩ := h
  obtain ⟨vs, rfl⟩ := List.head?_eq_some_iff.1 hu
  have hdecimal := Lexeme.decimalUnit locale
  exact Lexeme.startsNumber_of_ne hdigit (by omega) _

theorem isPlain_of_wordStart (h : isWordStart u = true) : IsPlain u := by
  simp [isWordStart, isLetterUnit, isAccentedUnit, unitOf] at h
  simp [IsPlain, isDigitUnit]
  omega

theorem plain_word {name : String} (h : IsWord name) (rest : List Nat) :
    ∃ u ∈ (Text.units name ++ rest).head?, IsPlain u := by
  obtain ⟨u, us, hunits, hstart, -⟩ := h.spans
  exact ⟨u, by rw [hunits]; rfl, isPlain_of_wordStart hstart⟩

end Spreadsheet.Formula
