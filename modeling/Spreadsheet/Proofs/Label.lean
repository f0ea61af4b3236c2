import Mathlib
import Spreadsheet.Reference
import Spreadsheet.Proofs.Number.Written

/-!
Labels of rows and columns. The letters of a column and the digits of a row are read as that column and that
row, and what is read from letters or digits lies on the sheet.
-/

namespace Spreadsheet

/-! ### Columns -/

namespace Column

/-- The characters `A` to `Z`. -/
def Capitals (cs : List Char) : Prop := ∀ c ∈ cs, 65 ≤ c.toNat ∧ c.toNat ≤ 90

theorem toNat_letter {d : Nat} (h : d < 26) : (letter d).toNat = 65 + d := by
  rw [letter, Char.ofNat, dif_pos (Or.inl (by omega))]
  rfl

theorem toUpper_of_lt {c : Char} (h : c.toNat < 97) : c.toUpper = c := by
  have hlow : ¬ 'a'.val ≤ c.val := by
    rw [UInt32.le_iff_toNat_le]
    change ¬97 ≤ c.toNat
    omega
  rw [Char.toUpper, dif_neg fun hc => hlow hc.1]

theorem isLetter_iff {c : Char} :
    isLetter c = true ↔ 65 ≤ c.toNat ∧ c.toNat ≤ 90 ∨ 97 ≤ c.toNat ∧ c.toNat ≤ 122 := by
  simp only [isLetter, Char.le_def, UInt32.le_iff_toNat_le, Bool.or_eq_true, Bool.and_eq_true, decide_eq_true_eq]
  exact Iff.rfl

theorem capitals_letters (c : Nat) : Capitals (letters c) := by
  fun_induction letters c with
  | case1 c h =>
    intro d hd
    obtain rfl := List.mem_singleton.1 hd
    rw [toNat_letter h]
    omega
  | case2 c h ih =>
    intro d hd
    rcases List.mem_append.1 hd with hd | hd
    · exact ih d hd
    · obtain rfl := List.mem_singleton.1 hd
      rw [toNat_letter (by omega)]
      omega

theorem letters_ne_nil (c : Nat) : letters c ≠ [] := by
  rw [letters]
  split <;> simp

theorem digit_letter {d : Nat} (h : d < 26) : digit (letter d) = d := by
  have hnat := toNat_letter h
  rw [digit, toUpper_of_lt (by omega), hnat]
  omega

/-- The letters of a column are its numeral. -/
theorem numeral_letters (c : Nat) : numeral (letters c) = c + 1 := by
  fun_induction letters c with
  | case1 c h => simp [numeral, digit_letter h]
  | case2 c h ih =>
    rw [numeral, List.foldl_append, List.foldl_cons, List.foldl_nil, digit_letter (by omega)]
    rw [numeral] at ih
    rw [ih]
    omega

theorem length_letters {c : Nat} (h : c ≤ last) : (letters c).length ≤ maxLetters := by
  have h : c ≤ 18277 := h
  change _ ≤ 3
  rw [letters]
  split
  · simp
  · rw [letters]
    split
    · simp
    · rw [letters, if_pos (by omega)]
      simp

theorem ofLetters?_letters {c : Nat} (h : c ≤ last) : ofLetters? (letters c) = some c := by
  have hall : (letters c).all isLetter = true :=
    List.all_eq_true.2 fun d hd => isLetter_iff.2 (.inl (capitals_letters c d hd))
  have hempty : (letters c).isEmpty = false := by simpa using letters_ne_nil c
  rw [ofLetters?, if_neg, numeral_letters]
  · rfl
  · simp [hall, hempty, length_letters h]

theorem digit_lt {c : Char} (h : isLetter c = true) : digit c < 26 := by
  rcases isLetter_iff.1 h with h | h
  · rw [digit, toUpper_of_lt (by omega)]
    omega
  · have hlow : 'a'.val ≤ c.val ∧ c.val ≤ 'z'.val := by
      simp only [UInt32.le_iff_toNat_le]
      exact h
    have hupper : c.toUpper.toNat = (c.val + ('A'.val - 'a'.val)).toNat := by
      rw [Char.toUpper, dif_pos hlow]
      rfl
    have hnat : (c.val + ('A'.val - 'a'.val)).toNat = c.toNat - 32 := by
      rw [UInt32.toNat_add]
      change (c.toNat + 4294967264) % 4294967296 = _
      omega
    rw [digit, hupper, hnat]
    omega

/-- Three letters name no column after the last one. -/
theorem le_last_of_ofLetters? {cs : List Char} {c : Nat} (h : ofLetters? cs = some c) : c ≤ last := by
  unfold ofLetters? at h
  split at h
  · cases h
  · rename_i hcs
    simp only [Bool.or_eq_true, not_or, decide_eq_true_eq, Bool.not_eq_true', Bool.not_eq_false] at hcs
    obtain ⟨⟨-, hlength⟩, hall⟩ := hcs
    have hlength : cs.length ≤ 3 := by
      change ¬3 < cs.length at hlength
      omega
    have hdigit (d : Char) (hd : d ∈ cs) : digit d < 26 := digit_lt (List.all_eq_true.1 hall d hd)
    have hbound : numeral cs ≤ 18278 := by
      match cs with
      | [] => simp [numeral]
      | [d] =>
        have h₁ := hdigit d (by simp)
        simp only [numeral, List.foldl_cons, List.foldl_nil]
        omega
      | [d, d'] =>
        have h₁ := hdigit d (by simp)
        have h₂ := hdigit d' (by simp)
        simp only [numeral, List.foldl_cons, List.foldl_nil]
        omega
      | [d, d', d''] =>
        have h₁ := hdigit d (by simp)
        have h₂ := hdigit d' (by simp)
        have h₃ := hdigit d'' (by simp)
        simp only [numeral, List.foldl_cons, List.foldl_nil]
        omega
      | _ :: _ :: _ :: _ :: _ =>
        simp only [List.length_cons] at hlength
        omega
    have hlast : last = 18277 := rfl
    have hc := Option.some.inj h
    omega

end Column

/-! ### Rows -/

namespace Row

open Number

theorem digits_name (r : Nat) : Digits (name r).toList := by
  rw [name, String.toList_ofList]
  exact digits_toDigits _

theorem name_ne_nil (r : Nat) : (name r).toList ≠ [] := by
  rw [name, String.toList_ofList]
  exact Nat.toDigits_ne_nil

theorem digitsValue_name (r : Nat) : digitsValue (name r).toList = r + 1 := by
  rw [name, String.toList_ofList, digitsValue_toDigits]

end Row

end Spreadsheet
