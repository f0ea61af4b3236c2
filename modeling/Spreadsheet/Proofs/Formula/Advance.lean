import Mathlib.Logic.Relation
import Spreadsheet.Proofs.Formula.Invariant
import Spreadsheet.Proofs.Formula.Lexeme

/-!
How the reader goes through a formula. Every lexeme takes at least one unit and no more than are left, so the
cursor goes forward with each of them and comes to stand exactly at the end.
-/

namespace Spreadsheet.Formula

variable {locale : Locale} {source us : List Nat} {r r' : Reader} {i j u : Nat}

namespace Lexeme

/-! ### Numbers -/

theorem exists_fraction (locale : Locale) (us : List Nat) : ∃ fraction rest, us = fraction ++ rest ∧
    fraction.length = if startsFraction locale us then 1 + (placesAt locale us).length else 0 := by
  cases hstarts : startsFraction locale us with
  | false => exact ⟨[], us, rfl, rfl⟩
  | true =>
    obtain ⟨rest, rfl, -⟩ := exists_of_startsFraction hstarts
    have hsplit : rest = takeDigits locale rest ++ rest.dropWhile _ := List.takeWhile_append_dropWhile.symm
    generalize rest.dropWhile _ = last at hsplit
    refine ⟨unitOf locale.decimal.char :: takeDigits locale rest, last, by rw [List.cons_append, ← hsplit], ?_⟩
    rw [placesAt, if_pos hstarts, if_pos rfl, List.length_cons, List.tail_cons]
    exact Nat.add_comm _ 1

/-- A number is its sign, its digits on both sides of the mark, and perhaps an exponent. -/
theorem exists_parts (locale : Locale) (us : List Nat) :
    ∃ sign fraction rest, us = sign ++ (takeDigits locale (us.drop (takeSign us).2) ++ (fraction ++ rest)) ∧
      sign.length = (takeSign us).2 ∧ (startsFraction locale (fraction ++ rest) = true → fraction ≠ []) ∧
      ∃ n, takeNumeral locale us = withExponent locale n rest ∧ n.exponent = none ∧
        n.length = sign.length + (takeDigits locale (us.drop (takeSign us).2)).length + fraction.length := by
  obtain ⟨sign, us₀, hus, -, hsign⟩ := writesSign_takeSign us
  have hdrop : us.drop (takeSign us).2 = us₀ := by rw [← hsign, hus, List.drop_left]
  rw [hdrop]
  have hwhole : us₀ = takeDigits locale us₀ ++ us₀.dropWhile _ := List.takeWhile_append_dropWhile.symm
  generalize us₀.dropWhile _ = us₁ at hwhole
  obtain ⟨fraction, rest, hus₁, hfraction⟩ := exists_fraction locale us₁
  generalize hdigits : takeDigits locale us₀ = whole at hwhole
  subst hus₁ hwhole hus
  refine ⟨sign, fraction, rest, rfl, hsign, fun hstarts => ?_, _,
    takeNumeral_eq (Prod.ext rfl hsign.symm) hdigits hfraction, rfl, ?_⟩
  · rw [if_pos hstarts] at hfraction
    exact List.ne_nil_of_length_pos (by omega)
  · simp only [List.length_append]
    omega

theorem length_withExponent (locale : Locale) (n : Numeral) (us : List Nat) :
    n.length ≤ (withExponent locale n us).length ∧
      (withExponent locale n us).length ≤ n.length + us.length := by
  unfold withExponent
  split
  · rename_i u rest
    split
    · obtain ⟨sign, rest', hrest, -, hsign⟩ := writesSign_takeSign rest
      have hlength : rest.length = sign.length + rest'.length := by rw [hrest, List.length_append]
      have hdigits : (takeDigits locale (rest.drop (takeSign rest).2)).length ≤
          (rest.drop (takeSign rest).2).length := (List.takeWhile_sublist _).length_le
      simp only [List.length_drop, List.length_cons] at hdigits ⊢
      omega
    · exact ⟨Nat.le_refl _, Nat.le_add_right _ _⟩
  · exact ⟨Nat.le_refl _, Nat.le_add_right _ _⟩

theorem length_takeNumeral_le (locale : Locale) (us : List Nat) : (takeNumeral locale us).length ≤ us.length := by
  obtain ⟨sign, fraction, rest, hus, -, -, n, hn, -, hlength⟩ := exists_parts locale us
  have hbound := (length_withExponent locale n rest).2
  have hcount := congrArg List.length hus
  simp only [List.length_append] at hcount
  rw [hn]
  omega

/-- Whether a number can be read off the front: it starts there, perhaps behind a sign. -/
def OpensNumber (locale : Locale) (us : List Nat) : Prop := startsNumber locale (us.drop (takeSign us).2) = true

theorem startsFraction_of_mark {us : List Nat} (h : (us.head?.map isDigitUnit).getD false = true) :
    startsFraction locale (unitOf locale.decimal.char :: us) = true := by
  unfold startsFraction
  cases locale.decimal <;> simp [h]

/-- A number without digits starts with the imaginary unit, which is a digit then. -/
theorem isImaginaryMark_of_empty (h : startsNumber locale us = true) (hwhole : takeDigits locale us = [])
    (hfraction : startsFraction locale us = false) :
    ∃ u rest, us = u :: rest ∧ isImaginaryMark locale u = true ∧ isExponentMark u = false := by
  cases us with
  | nil => cases h
  | cons u rest =>
    by_cases hdigit : isDigitUnit u = true
    · refine ⟨u, rest, rfl, ?_⟩
      have hunit : u = unitOf locale.imaginary := by
        by_contra hne
        simp [takeDigits, hdigit, hne] at hwhole
      have hbounds := isDigitUnit_iff.1 hdigit
      have hdecimal := decimalUnit locale
      have hmark : isExponentMark u = false := by
        rw [← Bool.not_eq_true, isExponentMark_iff]
        omega
      have hplus : u ≠ unitOf '+' := by
        change u ≠ 43
        omega
      have hminus : u ≠ unitOf '-' := by
        change u ≠ 45
        omega
      have hpoint : u ≠ unitOf locale.decimal.char := by omega
      simp [isImaginaryMark, hunit.symm, hmark, hplus, hminus, hpoint]
    · have hpoint : u = unitOf locale.decimal.char ∧ (rest.head?.map isDigitUnit).getD false = true := by
        simpa [startsNumber, hdigit] using h
      rw [hpoint.1, startsFraction_of_mark hpoint.2] at hfraction
      cases hfraction

/-- A number takes a unit at least, even where the imaginary unit is a digit. -/
theorem length_number_pos (h : OpensNumber locale us) (p : Nat) : 0 < (number locale p us).2 := by
  unfold number
  simp only
  split
  · exact Nat.succ_pos _
  split
  · exact Nat.succ_pos _
  rename_i himaginary
  obtain ⟨sign, fraction, rest, hus, hsign, hfraction, n, hn, hexponent, hlength⟩ := exists_parts locale us
  refine Nat.pos_of_ne_zero fun hzero => himaginary ?_
  change (takeNumeral locale us).length = 0 at hzero
  have hbound := (length_withExponent locale n rest).1
  rw [hn] at hzero ⊢
  have hnosign : (takeSign us).2 = 0 := by omega
  have hwhole : takeDigits locale us = [] := by
    rw [hnosign, List.drop_zero] at hlength
    exact List.eq_nil_of_length_eq_zero (by omega)
  have hempty : fraction = [] := List.eq_nil_of_length_eq_zero (by omega)
  obtain rfl : rest = us := by
    rw [hnosign, List.drop_zero, hwhole, hempty, List.eq_nil_of_length_eq_zero (hsign.trans hnosign)] at hus
    exact hus.symm
  have hdotless : startsFraction locale rest = false := by
    rw [← Bool.not_eq_true]
    intro hstarts
    exact hfraction (by rwa [hempty]) hempty
  rw [OpensNumber, hnosign, List.drop_zero] at h
  obtain ⟨u, us, rfl, hmark, hplain⟩ := isImaginaryMark_of_empty h hwhole hdotless
  have hkept : withExponent locale n (u :: us) = n := by simp [withExponent, hplain]
  rw [hkept] at hzero ⊢
  simp [hzero, hmark, hexponent]

theorem length_number_le (locale : Locale) (p : Nat) (us : List Nat) : (number locale p us).2 ≤ us.length := by
  have hbound := length_takeNumeral_le locale us
  have hsuffix : (us.drop (takeNumeral locale us).length).head? ≠ none →
      (takeNumeral locale us).length < us.length := by
    intro hne
    rw [Ne, List.head?_eq_none_iff, List.drop_eq_nil_iff] at hne
    omega
  unfold number
  simp only
  split
  · rename_i hpercent
    exact hsuffix (by simp [eq_of_beq hpercent])
  · split
    · rename_i himaginary
      refine hsuffix fun hnone => ?_
      simp [hnone] at himaginary
    · exact hbound

/-! ### Texts, words and operators -/

theorem length_takeString_le (us : List Nat) : (takeString us).2.1 ≤ us.length := by
  fun_induction takeString us with
  | case1 => exact Nat.le_refl 0
  | case2 rest taken n closed htake ih =>
    rw [htake] at ih
    exact Nat.add_le_add_right ih 2
  | case3 rest => exact Nat.succ_pos _
  | case4 u rest _ _ taken n closed htake ih =>
    rw [htake] at ih
    exact Nat.add_le_add_right ih 1

theorem wordLength_le (quoted : Bool) (us : List Nat) : (wordLength quoted us).1 ≤ us.length := by
  induction us generalizing quoted with
  | nil => exact Nat.le_refl 0
  | cons u rest ih =>
    unfold wordLength
    split
    · exact Nat.add_le_add_right (ih _) 1
    · exact Nat.zero_le _

/-- A call goes as far as its parenthesis. -/
theorem length_word_le (p u : Nat) (us : List Nat) : (word p u us).2 ≤ us.length ∧
    ∀ name openAt, (word p u us).1 = .call name openAt → openAt = p + (word p u us).2 := by
  have hword := wordLength_le (u == unitOf '\x27') us
  unfold word
  simp only
  split
  · exact ⟨hword, by simp⟩
  split
  · exact ⟨hword, by simp⟩
  split
  · exact ⟨hword, by simp⟩
  split
  · rename_i hopen
    have hne : us.drop ((wordLength (u == unitOf '\x27') us).1 +
        ((us.drop (wordLength (u == unitOf '\x27') us).1).takeWhile isSpaceUnit).length) ≠ [] := by
      intro hnil
      rw [← List.drop_drop] at hnil
      simp [hnil] at hopen
    rw [Ne, List.drop_eq_nil_iff] at hne
    refine ⟨by omega, fun name openAt h => ?_⟩
    cases h
    omega
  · exact ⟨hword, by simp⟩

end Lexeme

theorem length_takeOperator {symbol : String} {n : Nat} (h : takeOperator us = some (symbol, n)) :
    0 < n ∧ n ≤ us.length := by
  have hne : ∀ s ∈ Operator.longestFirst, 0 < (Text.units s).length := by decide
  unfold takeOperator at h
  obtain ⟨s, hfind, heq⟩ := Option.map_eq_some_iff.1 h
  obtain ⟨rfl, rfl⟩ := Prod.mk.inj heq
  have hprefix : Text.units s <+: us := by simpa using List.find?_some hfind
  exact ⟨hne s (List.mem_of_find?_eq_some hfind), hprefix.length_le⟩

namespace Lexeme

/-- A number is read only where one opens. -/
theorem opensNumber_of_read {first : Bool} (h : (startsNumber locale (u :: us) ||
    (first && (u == unitOf '-' || u == unitOf '+') && startsNumber locale us)) = true) :
    OpensNumber locale (u :: us) := by
  rcases Bool.or_eq_true _ _ ▸ h with hstarts | hsigned
  · have hunsigned : (takeSign (u :: us)).2 = 0 := unsigned_of_startsNumber hstarts
    rwa [OpensNumber, hunsigned]
  · simp only [Bool.and_eq_true, Bool.or_eq_true, beq_iff_eq] at hsigned
    rw [OpensNumber, takeSign_drop u us hsigned.1.2]
    exact hsigned.2

/-- A lexeme takes no more units than there are. -/
theorem length_read_le (locale : Locale) (first : Bool) (p u : Nat) (us : List Nat) :
    (read locale first p u us).2 ≤ us.length := by
  unfold read
  split
  · exact Nat.zero_le _
  split
  · exact length_takeString_le us
  split
  · have hle := length_number_le locale p (u :: us)
    rw [List.length_cons] at hle
    change (number locale p (u :: us)).2 - 1 ≤ us.length
    omega
  split
  · exact Nat.zero_le _
  split
  · exact (length_word_le p u us).1
  · exact Nat.zero_le _

end Lexeme

/-! ### The cursor -/

namespace Reader

theorem length_otherMark_le (r : Reader) (i u : Nat) (us : List Nat) : (r.otherMark i u us).2 ≤ us.length := by
  unfold otherMark
  split
  · exact Nat.zero_le _
  · split
    · rename_i symbol n htake
      have hle := (length_takeOperator htake).2
      rw [List.length_cons] at hle
      change n - 1 ≤ us.length
      omega
    · exact Nat.zero_le _

theorem length_mark_le (locale : Locale) (source : List Nat) (r : Reader) (i u : Nat) (us : List Nat) :
    (r.mark locale source i u us).2 ≤ us.length := by
  unfold mark
  split
  · exact Nat.zero_le _
  · split
    · exact Nat.zero_le _
    · exact length_otherMark_le r i u us
  · split
    · exact Nat.zero_le _
    · split
      · exact Nat.zero_le _
      · exact length_otherMark_le r i u us
  · exact length_otherMark_le r i u us

theorem length_take_le (locale : Locale) (source : List Nat) (r : Reader) (i u : Nat) (us : List Nat) :
    (r.take locale source i u us).2 ≤ us.length := by
  have hread := Lexeme.length_read_le locale r.top.stream.isEmpty i u us
  unfold take
  split <;> rename_i h <;> rw [h] at hread
  · exact hread
  · exact hread
  · exact hread
  · exact hread
  · exact hread
  · exact length_mark_le locale source r i _ us

/-- One turn of a reader, with the cursor before and after it: it takes the lexeme at the cursor, and the cursor
goes behind that. -/
inductive Turn (locale : Locale) (source : List Nat) : Nat × Reader → Nat × Reader → Prop
  | lexeme {i u : Nat} {us : List Nat} (r : Reader) (ahead : source.drop i = u :: us) :
      Turn locale source (i, r) (i + 1 + (r.take locale source i u us).2, (r.take locale source i u us).1)

/-- The cursor goes forward with each turn, and never beyond the end. -/
theorem Turn.advances (h : Turn locale source (i, r) (j, r')) : i < j ∧ j ≤ source.length := by
  cases h with
  | @lexeme i u us r ahead =>
    have hle := length_take_le locale source r i u us
    have hlength := congrArg List.length ahead
    rw [List.length_drop, List.length_cons] at hlength
    omega

/-- Taking all lexemes from a cursor on leads to the end. -/
theorem turns_takeAll (hus : source.drop i = us) (hi : i ≤ source.length) :
    Relation.ReflTransGen (Turn locale source) (i, r) (source.length, r.takeAll locale source i us) := by
  fun_induction takeAll locale source r i us with
  | case1 r i =>
    have hlength : source.length ≤ i := List.drop_eq_nil_iff.1 hus
    rw [Nat.le_antisymm hi hlength]
  | case2 r i u us r' n htake ih =>
    have hturn : Turn locale source (i, r) (i + 1 + n, r') := by
      have hlexeme : Turn locale source _ _ := .lexeme r hus
      rwa [htake] at hlexeme
    refine .head hturn (ih ?_ hturn.advances.2)
    rw [Nat.add_assoc, ← List.drop_drop, hus]
    simp [Nat.add_comm 1 n]

end Reader

end Spreadsheet.Formula
