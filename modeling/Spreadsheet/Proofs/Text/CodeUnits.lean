import Spreadsheet.Text.CodeUnits

/-!
Code units and back. A text is found again from its units, and units below the surrogates are found again
from the text they encode.
-/

namespace Spreadsheet.Text

@[simp] theorem units_append (s t : String) : units (s ++ t) = units s ++ units t := by
  simp [units]

@[simp] theorem units_empty : units "" = [] := rfl

theorem units_ofList (cs : List Char) : units (String.ofList cs) = cs.flatMap unitsOfChar := by
  simp [units]

/-! ### Characters -/

theorem toNat_ofNat {n : Nat} (h : n < 0xD800) : (Char.ofNat n).toNat = n := by
  rw [Char.ofNat, dif_pos (Or.inl h)]
  rfl

/-- No character lies among the surrogates. -/
theorem not_surrogate (c : Char) : c.toNat < 0xD800 ∨ 0xE000 ≤ c.toNat := by
  rcases c.valid with h | h
  · exact .inl h
  · exact .inr h.1

theorem unitsOfChar_of_lt {c : Char} (h : c.toNat < 0x10000) : unitsOfChar c = [c.toNat] :=
  if_pos h

theorem unitsOfChar_of_le {c : Char} (h : 0x10000 ≤ c.toNat) :
    unitsOfChar c = [0xD800 + (c.toNat - 0x10000) / 0x400, 0xDC00 + (c.toNat - 0x10000) % 0x400] :=
  if_neg (by omega)

theorem charOfUnit_toNat {c : Char} (h : c.toNat < 0x10000) : charOfUnit c.toNat = c := by
  have hgap := not_surrogate c
  have hsurrogate : (isHighSurrogate c.toNat || isLowSurrogate c.toNat) = false := by
    simp only [isHighSurrogate, isLowSurrogate, Bool.or_eq_false_iff, Bool.and_eq_false_iff, decide_eq_false_iff_not]
    omega
  rw [charOfUnit, hsurrogate]
  exact Char.ofNat_toNat c

theorem charOfUnit_of_lt {u : Nat} (h : u < 0xD800) : charOfUnit u = Char.ofNat u := by
  have hsurrogate : (isHighSurrogate u || isLowSurrogate u) = false := by
    simp only [isHighSurrogate, isLowSurrogate, Bool.or_eq_false_iff, Bool.and_eq_false_iff, decide_eq_false_iff_not]
    omega
  rw [charOfUnit, hsurrogate]
  rfl

theorem unitsOfChar_charOfUnit {u : Nat} (h : u < 0xD800) : unitsOfChar (charOfUnit u) = [u] := by
  rw [charOfUnit_of_lt h, unitsOfChar_of_lt (by rw [toNat_ofNat h]; omega), toNat_ofNat h]

/-! ### Sequences -/

theorem charsOfUnits_cons {u : Nat} (h : isHighSurrogate u = false) (us : List Nat) :
    charsOfUnits (u :: us) = charOfUnit u :: charsOfUnits us := by
  cases us with
  | nil => rfl
  | cons v us => simp [charsOfUnits, h]

theorem isHighSurrogate_of_lt {u : Nat} (h : u < 0xD800) : isHighSurrogate u = false := by
  simp only [isHighSurrogate, Bool.and_eq_false_iff, decide_eq_false_iff_not]
  omega

theorem charsOfUnits_unitsOfChar (c : Char) (us : List Nat) :
    charsOfUnits (unitsOfChar c ++ us) = c :: charsOfUnits us := by
  have hgap := not_surrogate c
  by_cases hc : c.toNat < 0x10000
  · have hhigh : isHighSurrogate c.toNat = false := by
      simp only [isHighSurrogate, Bool.and_eq_false_iff, decide_eq_false_iff_not]
      omega
    rw [unitsOfChar_of_lt hc, List.singleton_append, charsOfUnits_cons hhigh, charOfUnit_toNat hc]
  · have hlast : c.toNat < 0x110000 := by
      rcases c.valid with h | h
      · exact Nat.lt_trans h (by decide)
      · exact h.2
    have hpair : (isHighSurrogate (0xD800 + (c.toNat - 0x10000) / 0x400) &&
        isLowSurrogate (0xDC00 + (c.toNat - 0x10000) % 0x400)) = true := by
      simp only [isHighSurrogate, isLowSurrogate, Bool.and_eq_true, decide_eq_true_eq]
      omega
    have hnumber : 0x10000 + (0xD800 + (c.toNat - 0x10000) / 0x400 - 0xD800) * 0x400 +
        (0xDC00 + (c.toNat - 0x10000) % 0x400 - 0xDC00) = c.toNat := by
      omega
    rw [unitsOfChar_of_le (by omega), List.cons_append, List.singleton_append, charsOfUnits, if_pos hpair, hnumber,
      Char.ofNat_toNat]

theorem charsOfUnits_flatMap (cs : List Char) : charsOfUnits (cs.flatMap unitsOfChar) = cs := by
  induction cs with
  | nil => rfl
  | cons c cs ih => rw [List.flatMap_cons, charsOfUnits_unitsOfChar, ih]

/-- A text is found again from its units. -/
@[simp] theorem ofUnits_units (s : String) : ofUnits (units s) = s := by
  rw [ofUnits, units, charsOfUnits_flatMap, String.ofList_toList]

/-- Units below the surrogates are characters of their own. -/
theorem charsOfUnits_eq_map {us : List Nat} (h : ∀ u ∈ us, u < 0xD800) : charsOfUnits us = us.map charOfUnit := by
  induction us with
  | nil => rfl
  | cons u us ih =>
    rw [charsOfUnits_cons (isHighSurrogate_of_lt (h u List.mem_cons_self)),
      ih fun v hv => h v (List.mem_cons_of_mem u hv), List.map_cons]

theorem units_ofUnits {us : List Nat} (h : ∀ u ∈ us, u < 0xD800) : units (ofUnits us) = us := by
  rw [ofUnits, units_ofList, charsOfUnits_eq_map h]
  induction us with
  | nil => rfl
  | cons u us ih =>
    rw [List.map_cons, List.flatMap_cons, unitsOfChar_charOfUnit (h u List.mem_cons_self), List.singleton_append,
      ih fun v hv => h v (List.mem_cons_of_mem u hv)]

end Spreadsheet.Text
