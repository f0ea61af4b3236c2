import Spreadsheet.Formula.Lexeme
import Spreadsheet.Proofs.Number.Written
import Spreadsheet.Proofs.Text.CodeUnits

/-!
Numbers in formulas. A number is a sign, digits with a decimal mark and an exponent, and perhaps a percent
sign. The same units are read as the same number wherever they stand, as long as nothing follows that would
go on with them.
-/

namespace Spreadsheet.Formula.Lexeme

open Float.Model.UnpackedFloat (Sign)

variable {locale : Locale} {us vs rest : List Nat} {n : Numeral} {x : Float}

/-! ### The parts of a number -/

/-- All units are digits. -/
def DigitUnits (us : List Nat) : Prop := ∀ u ∈ us, isDigitUnit u = true

/-- A sign that may be left out. -/
inductive WritesSign : List Nat → Bool → Prop
  | none : WritesSign [] false
  | minus : WritesSign [unitOf '-'] true
  | plus : WritesSign [unitOf '+'] false

/-- The digits after a decimal mark. A comma needs a digit after it. -/
inductive WritesPlaces (locale : Locale) : List Nat → List Nat → Prop
  | none : WritesPlaces locale [] []
  | mark (ps : List Nat) : DigitUnits ps → (locale.decimal = .comma → ps ≠ []) →
      WritesPlaces locale (unitOf locale.decimal.char :: ps) ps

/-- An exponent that may be left out. -/
inductive WritesExponent : List Nat → Option Int → Prop
  | none : WritesExponent [] none
  | mark (u : Nat) (s ds : List Nat) (minus : Bool) : isExponentMark u = true → WritesSign s minus → DigitUnits ds →
      WritesExponent (u :: (s ++ ds)) (some (Number.Exact.signed minus (Number.digitsValue (digitChars ds))))

/-- Units that are a number, part by part. -/
def Writes (locale : Locale) (us : List Nat) (n : Numeral) : Prop :=
  ∃ sign fraction exponent, us = sign ++ (n.whole ++ (fraction ++ exponent)) ∧ WritesSign sign n.negative ∧
    DigitUnits n.whole ∧ WritesPlaces locale fraction n.places ∧ WritesExponent exponent n.exponent ∧
    n.length = us.length

/-- A number as it stands in a formula, perhaps with a percent sign. -/
def IsNumber (locale : Locale) (us : List Nat) (x : Float) : Prop :=
  ∃ n vs, Writes locale vs n ∧ n.whole ++ n.places ≠ [] ∧
    (us = vs ∧ x = n.value ∨ us = vs ++ [unitOf '%'] ∧ x = n.value / 100)

theorem Writes.length_eq (h : Writes locale us n) : n.length = us.length := by
  obtain ⟨_, _, _, _, _, _, _, _, hlength⟩ := h
  exact hlength

/-- Units that start with no sign. -/
def Unsigned (us : List Nat) : Prop := (takeSign us).2 = 0

theorem takeSign_of_unsigned (h : Unsigned us) : takeSign us = (false, 0) := by
  unfold Unsigned at h
  unfold takeSign at h ⊢
  split
  · split
    · rename_i hu
      simp [hu] at h
    · split
      · rename_i hu hv
        simp [hu, hv] at h
      · rfl
  · rfl

theorem unsigned_cons {u : Nat} (hminus : u ≠ 45) (hplus : u ≠ 43) (us : List Nat) : Unsigned (u :: us) := by
  have h : (u == unitOf '-') = false ∧ (u == unitOf '+') = false := by
    constructor <;> simpa [unitOf]
  simp [Unsigned, takeSign, h]

/-! ### Digits -/

theorem isDigitUnit_iff {u : Nat} : isDigitUnit u = true ↔ 48 ≤ u ∧ u ≤ 57 := by
  simp [isDigitUnit]

theorem unsigned_of_digits (h : DigitUnits us) (hne : us ≠ []) (rest : List Nat) : Unsigned (us ++ rest) := by
  obtain ⟨u, us, rfl⟩ := List.exists_cons_of_ne_nil hne
  have hu := isDigitUnit_iff.1 (h u List.mem_cons_self)
  exact unsigned_cons (by omega) (by omega) _

/-- The imaginary unit is one of the two letters for it, so it is no digit. -/
theorem takeDigits_eq (hi : locale.imaginary = 'i' ∨ locale.imaginary = 'j') (us : List Nat) :
    takeDigits locale us = us.takeWhile isDigitUnit := by
  unfold takeDigits
  congr 1
  funext u
  by_cases hu : isDigitUnit u = true
  · have hdigit := isDigitUnit_iff.1 hu
    have hne : u ≠ unitOf locale.imaginary := by
      rcases hi with h | h <;> simp [h, unitOf] <;> omega
    simp [hu, hne]
  · simp [hu]

theorem digits_takeDigits (hi : locale.imaginary = 'i' ∨ locale.imaginary = 'j') (us : List Nat) :
    DigitUnits (takeDigits locale us) ∧ ∃ rest, us = takeDigits locale us ++ rest := by
  rw [takeDigits_eq hi]
  exact ⟨List.all_eq_true.1 List.all_takeWhile, us.dropWhile isDigitUnit, List.takeWhile_append_dropWhile.symm⟩

theorem takeDigits_append (hi : locale.imaginary = 'i' ∨ locale.imaginary = 'j') (hus : DigitUnits us)
    (hrest : ∀ u ∈ rest.head?, isDigitUnit u = false) : takeDigits locale (us ++ rest) = us := by
  rw [takeDigits_eq hi, List.takeWhile_append_of_pos hus]
  cases rest with
  | nil => exact List.append_nil us
  | cons u rest =>
    rw [List.takeWhile_cons_of_neg (by simp [hrest u rfl]), List.append_nil]

theorem decimalUnit (locale : Locale) : unitOf locale.decimal.char = 46 ∨ unitOf locale.decimal.char = 44 := by
  cases locale.decimal
  · exact .inl rfl
  · exact .inr rfl

/-! ### Taking a number -/

theorem writesSign_takeSign (us : List Nat) :
    ∃ sign rest, us = sign ++ rest ∧ WritesSign sign (takeSign us).1 ∧ sign.length = (takeSign us).2 := by
  unfold takeSign
  split
  · rename_i u rest
    split
    · rename_i h
      exact ⟨[unitOf '-'], rest, by rw [eq_of_beq h]; rfl, .minus, rfl⟩
    · split
      · rename_i h
        exact ⟨[unitOf '+'], rest, by rw [eq_of_beq h]; rfl, .plus, rfl⟩
      · exact ⟨[], _, rfl, .none, rfl⟩
  · exact ⟨[], _, rfl, .none, rfl⟩

theorem exists_of_startsFraction (h : startsFraction locale us = true) :
    ∃ rest, us = unitOf locale.decimal.char :: rest ∧
      (locale.decimal = .comma → ∃ v ∈ rest.head?, isDigitUnit v = true) := by
  unfold startsFraction at h
  split at h
  · rename_i u rest
    rw [Bool.and_eq_true] at h
    refine ⟨rest, by rw [eq_of_beq h.1], fun hcomma => ?_⟩
    rw [hcomma] at h
    cases hhead : rest.head? with
    | none => simp [hhead] at h
    | some v => exact ⟨v, rfl, by simpa [hhead] using h.2⟩
  · cases h

/-- The digits after a decimal mark at the front. -/
def placesAt (locale : Locale) (us : List Nat) : List Nat :=
  if startsFraction locale us then takeDigits locale us.tail else []

/-- A number with the exponent at the front of the units that follow it. -/
def withExponent (locale : Locale) (n : Numeral) : List Nat → Numeral
  | u :: rest =>
    if isExponentMark u then
      let (minus, k) := takeSign rest
      let digits := takeDigits locale (rest.drop k)
      { n with
        exponent := some (Number.Exact.signed minus (Number.digitsValue (digitChars digits)))
        length := n.length + 1 + k + digits.length }
    else n
  | [] => n

/-- A number is taken part by part. -/
theorem takeNumeral_eq {sign whole fraction : List Nat} {negative : Bool}
    (hsign : takeSign (sign ++ (whole ++ (fraction ++ rest))) = (negative, sign.length))
    (hwhole : takeDigits locale (whole ++ (fraction ++ rest)) = whole)
    (hlength : fraction.length =
      if startsFraction locale (fraction ++ rest) then 1 + (placesAt locale (fraction ++ rest)).length else 0) :
    takeNumeral locale (sign ++ (whole ++ (fraction ++ rest))) =
      withExponent locale
        ⟨negative, whole, placesAt locale (fraction ++ rest), none, (sign ++ (whole ++ fraction)).length⟩ rest := by
  have hdrop : (sign ++ (whole ++ (fraction ++ rest))).drop (sign.length + whole.length + fraction.length) = rest := by
    simp [← List.drop_drop]
  have hplaces : (if startsFraction locale (fraction ++ rest) then takeDigits locale (fraction ++ rest).tail else []) =
      placesAt locale (fraction ++ rest) := rfl
  unfold takeNumeral
  simp only [hsign, List.drop_left, hwhole, hplaces, ← hlength, hdrop]
  cases rest with
  | nil => simp [withExponent, Nat.add_assoc]
  | cons u rest =>
    simp only [withExponent]
    split <;> simp [Nat.add_assoc]

/-- The units of the fraction that is taken at the front. -/
theorem writesPlaces_placesAt (hi : locale.imaginary = 'i' ∨ locale.imaginary = 'j') (us : List Nat) :
    ∃ fraction rest, us = fraction ++ rest ∧ WritesPlaces locale fraction (placesAt locale us) ∧
      fraction.length = if startsFraction locale us then 1 + (placesAt locale us).length else 0 := by
  unfold placesAt
  cases hstarts : startsFraction locale us with
  | false => exact ⟨[], us, rfl, .none, rfl⟩
  | true =>
    obtain ⟨rest, rfl, hcomma⟩ := exists_of_startsFraction hstarts
    obtain ⟨hdigits, tail, htail⟩ := digits_takeDigits hi rest
    refine ⟨unitOf locale.decimal.char :: takeDigits locale rest, tail, by rw [List.cons_append, ← htail],
      .mark _ hdigits fun h => ?_, ?_⟩
    · obtain ⟨v, hv, hdigit⟩ := hcomma h
      obtain ⟨rest', rfl⟩ := List.head?_eq_some_iff.1 hv
      rw [takeDigits_eq hi, List.takeWhile_cons_of_pos hdigit]
      exact List.cons_ne_nil _ _
    · simp [Nat.add_comm]

/-- Taking an exponent. -/
theorem writes_withExponent (hi : locale.imaginary = 'i' ∨ locale.imaginary = 'j')
    (hvs : Writes locale vs n) (hn : n.exponent = none) (us : List Nat) :
    ∃ exponent rest, us = exponent ++ rest ∧ Writes locale (vs ++ exponent) (withExponent locale n us) := by
  have hplain : ∃ exponent rest, us = exponent ++ rest ∧ Writes locale (vs ++ exponent) n :=
    ⟨[], us, rfl, (List.append_nil vs).symm ▸ hvs⟩
  unfold withExponent
  split
  · rename_i u rest
    split
    · rename_i hu
      obtain ⟨s, rest', hrest, hs, hlength⟩ := writesSign_takeSign rest
      obtain ⟨hdigits, rest'', hrest'⟩ := digits_takeDigits hi rest'
      obtain ⟨sign, fraction, exponent, rfl, hsign, hwhole, hplaces, hexponent, hcount⟩ := hvs
      have hdrop : rest.drop (takeSign rest).2 = rest' := by rw [← hlength, hrest, List.drop_left]
      obtain rfl : exponent = [] := by
        rw [hn] at hexponent
        cases hexponent
        rfl
      refine ⟨u :: (s ++ takeDigits locale rest'), rest'', ?_, ?_⟩
      · rw [hrest, List.cons_append, List.append_assoc, ← hrest']
      · simp only [hdrop]
        refine ⟨sign, fraction, u :: (s ++ takeDigits locale rest'), by simp, hsign, hwhole, hplaces,
          .mark u s _ _ hu hs hdigits, ?_⟩
        simp [hcount, hlength]
        omega
    · exact hplain
  · exact hplain

/-- The units that are taken as a number are that number. -/
theorem writes_takeNumeral (hi : locale.imaginary = 'i' ∨ locale.imaginary = 'j') (us : List Nat) :
    ∃ vs rest, us = vs ++ rest ∧ Writes locale vs (takeNumeral locale us) := by
  obtain ⟨sign, us₀, hus, hsign, hlength⟩ := writesSign_takeSign us
  obtain ⟨hwhole, us₁, hus₀⟩ := digits_takeDigits hi us₀
  obtain ⟨fraction, us₂, hus₁, hplaces, hfraction⟩ := writesPlaces_placesAt hi us₁
  generalize hdigits : takeDigits locale us₀ = whole at hwhole hus₀
  subst hus₁ hus₀ hus
  rw [takeNumeral_eq (Prod.ext rfl hlength.symm) hdigits hfraction]
  have hplain : Writes locale (sign ++ (whole ++ fraction))
      ⟨_, whole, placesAt locale (fraction ++ us₂), none, (sign ++ (whole ++ fraction)).length⟩ :=
    ⟨sign, fraction, [], by simp, hsign, hwhole, hplaces, .none, rfl⟩
  obtain ⟨exponent, rest, hus₂, hwrites⟩ := writes_withExponent hi hplain rfl us₂
  exact ⟨_, rest, by simp [hus₂], hwrites⟩

/-! ### Taking a number again -/

/-- Units that do not go on with a number before them. -/
structure Ends (locale : Locale) (n : Numeral) (rest : List Nat) : Prop where
  digit : ∀ u ∈ rest.head?, isDigitUnit u = false
  fraction : startsFraction locale rest = false
  exponent : ∀ u ∈ rest.head?, isExponentMark u = false
  sign : n.exponent.isSome = true → Unsigned rest

theorem isExponentMark_iff {u : Nat} : isExponentMark u = true ↔ u = 101 ∨ u = 69 := by
  simp [isExponentMark, unitOf]

theorem startsFraction_of_ne {u : Nat} (h : u ≠ unitOf locale.decimal.char) (us : List Nat) :
    startsFraction locale (u :: us) = false := by
  simp [startsFraction, h]

theorem takeSign_writesSign {sign : List Nat} {negative : Bool} (h : WritesSign sign negative)
    (hus : Unsigned us) : takeSign (sign ++ us) = (negative, sign.length) := by
  cases h with
  | none => exact takeSign_of_unsigned hus
  | minus => rfl
  | plus => rfl

theorem Ends.digit_exponent (h : Ends locale n rest) {exponent : List Nat} {e : Option Int}
    (he : WritesExponent exponent e) :
    ∀ u ∈ (exponent ++ rest).head?, isDigitUnit u = false := by
  cases he with
  | none => exact h.digit
  | mark u s ds minus hu =>
    rintro v ⟨⟩
    rcases isExponentMark_iff.1 hu with rfl | rfl <;> rfl

theorem Ends.fraction_exponent (h : Ends locale n rest) {exponent : List Nat} {e : Option Int}
    (he : WritesExponent exponent e) : startsFraction locale (exponent ++ rest) = false := by
  cases he with
  | none => exact h.fraction
  | mark u s ds minus hu =>
    refine startsFraction_of_ne ?_ _
    rcases isExponentMark_iff.1 hu with rfl | rfl <;> rcases decimalUnit locale with h | h <;> rw [h] <;> decide

/-- The fraction of a number is found again. -/
theorem placesAt_writesPlaces (hi : locale.imaginary = 'i' ∨ locale.imaginary = 'j') {fraction places : List Nat}
    (hplaces : WritesPlaces locale fraction places) (hdigit : ∀ u ∈ rest.head?, isDigitUnit u = false)
    (hfraction : startsFraction locale rest = false) :
    placesAt locale (fraction ++ rest) = places ∧
      fraction.length = if startsFraction locale (fraction ++ rest) then 1 + places.length else 0 := by
  cases hplaces with
  | none => simp [placesAt, hfraction]
  | mark _ hps hcomma =>
    have hstarts : startsFraction locale (unitOf locale.decimal.char :: (places ++ rest)) = true := by
      unfold startsFraction
      cases hdecimal : locale.decimal with
      | period => simp
      | comma =>
        obtain ⟨p, ps, rfl⟩ := List.exists_cons_of_ne_nil (hcomma hdecimal)
        simp [hps p List.mem_cons_self]
    rw [List.cons_append, placesAt, hstarts]
    exact ⟨takeDigits_append hi hps hdigit, by simp [Nat.add_comm]⟩

/-- The exponent of a number is found again. -/
theorem withExponent_writesExponent (hi : locale.imaginary = 'i' ∨ locale.imaginary = 'j') {exponent : List Nat}
    (he : WritesExponent exponent n.exponent) (h : Ends locale n rest) (k : Nat)
    (hk : n.length = k + exponent.length) :
    withExponent locale { n with exponent := none, length := k } (exponent ++ rest) = n := by
  obtain ⟨negative, whole, places, e, length⟩ := n
  simp only at he hk
  cases he with
  | none =>
    obtain rfl : length = k := hk
    cases rest with
    | nil => rfl
    | cons u rest => simp [withExponent, h.exponent u rfl]
  | mark u s ds minus hu hs hds =>
    have hunsigned : Unsigned (ds ++ rest) := by
      by_cases hne : ds = []
      · rw [hne, List.nil_append]
        exact h.sign rfl
      · exact unsigned_of_digits hds hne rest
    simp only [List.cons_append, List.append_assoc, withExponent, hu, if_true, takeSign_writesSign hs hunsigned,
      List.drop_left, takeDigits_append hi hds h.digit]
    simp [hk]
    omega

/-- A number that has a digit starts with no other sign than its own. -/
theorem unsigned_whole {whole fraction places : List Nat} (hwhole : DigitUnits whole)
    (hplaces : WritesPlaces locale fraction places) (hne : whole ++ places ≠ []) (rest : List Nat) :
    Unsigned (whole ++ (fraction ++ rest)) := by
  by_cases hempty : whole = []
  · cases hplaces with
    | none => exact absurd (by simp [hempty]) hne
    | mark =>
      rw [hempty, List.nil_append, List.cons_append]
      rcases decimalUnit locale with hd | hd <;> exact unsigned_cons (by omega) (by omega) _
  · exact unsigned_of_digits hwhole hempty _

theorem digit_fraction {fraction places : List Nat} (hplaces : WritesPlaces locale fraction places)
    (hdigit : ∀ u ∈ rest.head?, isDigitUnit u = false) : ∀ u ∈ (fraction ++ rest).head?, isDigitUnit u = false := by
  cases hplaces with
  | none => exact hdigit
  | mark =>
    rintro v ⟨⟩
    rcases decimalUnit locale with hd | hd <;> rw [hd] <;> rfl

/-- A number is taken again wherever its units stand. -/
theorem takeNumeral_writes (hi : locale.imaginary = 'i' ∨ locale.imaginary = 'j') (hvs : Writes locale vs n)
    (hne : n.whole ++ n.places ≠ []) (h : Ends locale n rest) : takeNumeral locale (vs ++ rest) = n := by
  obtain ⟨sign, fraction, exponent, rfl, hsign, hwhole, hplaces, hexponent, hlength⟩ := hvs
  have hdigit := h.digit_exponent hexponent
  obtain ⟨hplacesAt, hfraction⟩ := placesAt_writesPlaces hi hplaces hdigit (h.fraction_exponent hexponent)
  have htake := takeNumeral_eq (takeSign_writesSign hsign (unsigned_whole hwhole hplaces hne (exponent ++ rest)))
    (takeDigits_append hi hwhole (digit_fraction hplaces hdigit)) (by rw [hplacesAt]; exact hfraction)
  rw [hplacesAt] at htake
  simp only [List.append_assoc]
  refine htake.trans (withExponent_writesExponent hi hexponent h _ ?_)
  simp [hlength, Nat.add_assoc]

/-! ### Numbers with their suffix -/

theorem number_plain (hi : locale.imaginary = 'i' ∨ locale.imaginary = 'j') (hvs : Writes locale vs n)
    (hne : n.whole ++ n.places ≠ []) (h : Ends locale n rest) (hpercent : rest.head? ≠ some (unitOf '%'))
    (himaginary : ∀ u ∈ rest.head?, isImaginaryMark locale u = false) (p : Nat) :
    number locale p (vs ++ rest) = (.literal p (.number n.value) (some (Text.ofUnits vs)), vs.length) := by
  have hlength := hvs.length_eq
  have hany : rest.head?.any (isImaginaryMark locale) = false := by
    cases hhead : rest.head? with
    | none => rfl
    | some u => exact himaginary u hhead
  unfold number
  simp only [takeNumeral_writes hi hvs hne h, hlength, List.drop_left, hany, List.take_left]
  rw [if_neg (by simpa using hpercent)]
  rfl

theorem number_percent (hi : locale.imaginary = 'i' ∨ locale.imaginary = 'j') (hvs : Writes locale vs n)
    (hne : n.whole ++ n.places ≠ []) (rest : List Nat) (p : Nat) :
    number locale p (vs ++ unitOf '%' :: rest) =
      (.literal p (.number (n.value / 100)) (some (Text.ofUnits (vs ++ [unitOf '%']))), vs.length + 1) := by
  have hlength := hvs.length_eq
  have hends : Ends locale n (unitOf '%' :: rest) := by
    refine ⟨by rintro u ⟨⟩; rfl, startsFraction_of_ne ?_ _, by rintro u ⟨⟩; rfl,
      fun _ => unsigned_cons (by decide) (by decide) _⟩
    rcases decimalUnit locale with h | h <;> rw [h] <;> decide
  have htake : (vs ++ unitOf '%' :: rest).take (vs.length + 1) = vs ++ [unitOf '%'] := by
    rw [List.take_length_add_append]
    rfl
  unfold number
  simp only [takeNumeral_writes hi hvs hne hends, hlength, List.drop_left, List.head?_cons, htake]
  rw [if_pos (by simp)]

theorem number_imaginary (hi : locale.imaginary = 'i' ∨ locale.imaginary = 'j') (hvs : Writes locale vs n)
    (hne : n.whole ++ n.places ≠ []) (hexponent : n.exponent = none) (rest : List Nat) (p : Nat) :
    number locale p (vs ++ unitOf locale.imaginary :: rest) =
      (.imaginary p n.value (Text.ofUnits (vs ++ [unitOf locale.imaginary])), vs.length + 1) := by
  have hlength := hvs.length_eq
  have hunit : unitOf locale.imaginary = 105 ∨ unitOf locale.imaginary = 106 := by
    rcases hi with h | h <;> rw [h]
    · exact .inl rfl
    · exact .inr rfl
  have hdecimal := decimalUnit locale
  have hends : Ends locale n (unitOf locale.imaginary :: rest) := by
    refine ⟨?_, startsFraction_of_ne (by omega) _, ?_, by simp [hexponent]⟩
    · rintro u ⟨⟩
      rcases hunit with h | h <;> rw [h] <;> rfl
    · rintro u ⟨⟩
      rcases hunit with h | h <;> rw [h] <;> rfl
  have hmark : isImaginaryMark locale (unitOf locale.imaginary) = true := by
    rcases hunit with h | h <;> rcases hdecimal with h' | h' <;> simp [isImaginaryMark, h, h'] <;> decide
  have htake : (vs ++ unitOf locale.imaginary :: rest).take (vs.length + 1) = vs ++ [unitOf locale.imaginary] := by
    rw [List.take_length_add_append]
    rfl
  unfold number
  simp only [takeNumeral_writes hi hvs hne hends, hlength, List.drop_left, List.head?_cons, htake]
  rw [if_neg (by rcases hunit with h | h <;> rw [h] <;> decide), if_pos (by simp [hmark, hexponent])]

/-! ### What a number is -/

theorem whole_takeNumeral (us : List Nat) :
    (takeNumeral locale us).whole = takeDigits locale (us.drop (takeSign us).2) := by
  unfold takeNumeral
  simp only
  split
  · split <;> rfl
  · rfl

theorem places_takeNumeral (us : List Nat) : (takeNumeral locale us).places =
    placesAt locale ((us.drop (takeSign us).2).drop (takeDigits locale (us.drop (takeSign us).2)).length) := by
  unfold takeNumeral placesAt
  simp only
  split
  · split <;> rfl
  · rfl

/-- Where a number starts there is a digit to take. -/
theorem digits_of_startsNumber (hi : locale.imaginary = 'i' ∨ locale.imaginary = 'j')
    (h : startsNumber locale (us.drop (takeSign us).2) = true) :
    (takeNumeral locale us).whole ++ (takeNumeral locale us).places ≠ [] := by
  rw [whole_takeNumeral, places_takeNumeral]
  generalize us.drop (takeSign us).2 = us at h
  rw [takeDigits_eq hi]
  cases us with
  | nil => cases h
  | cons u rest =>
    by_cases hu : isDigitUnit u = true
    · simp [hu]
    · have hmark : u = unitOf locale.decimal.char ∧ (rest.head?.map isDigitUnit).getD false = true := by
        simpa [startsNumber, hu] using h
      obtain ⟨rfl, hdigit⟩ := hmark
      obtain ⟨v, rest, rfl⟩ : ∃ v vs, rest = v :: vs := by
        cases rest with
        | nil => cases hdigit
        | cons v vs => exact ⟨v, vs, rfl⟩
      have hv : isDigitUnit v = true := hdigit
      have hstarts : startsFraction locale (unitOf locale.decimal.char :: v :: rest) = true := by
        unfold startsFraction
        cases locale.decimal <;> simp [hv]
      rw [List.takeWhile_cons_of_neg hu]
      simp [placesAt, hstarts, takeDigits_eq hi, hv]

/-- Reading a number gives a number with its spelling, or an imaginary number. -/
theorem number_cases (hi : locale.imaginary = 'i' ∨ locale.imaginary = 'j')
    (h : startsNumber locale (us.drop (takeSign us).2) = true) (p : Nat) :
    (∃ vs rest x, us = vs ++ rest ∧ IsNumber locale vs x ∧
      number locale p us = (.literal p (.number x) (some (Text.ofUnits vs)), vs.length)) ∨
    ∃ y spelling k, number locale p us = (.imaginary p y spelling, k) := by
  obtain ⟨vs, rest, hus, hvs⟩ := writes_takeNumeral hi us
  have hne := digits_of_startsNumber hi h
  have hlength := hvs.length_eq
  have hdrop : us.drop vs.length = rest := by rw [hus, List.drop_left]
  unfold number
  simp only [hlength, hdrop]
  split
  · rename_i hpercent
    obtain ⟨rest', rfl⟩ := List.head?_eq_some_iff.1 (eq_of_beq hpercent)
    have htake : us.take (vs.length + 1) = vs ++ [unitOf '%'] := by
      rw [hus, List.take_length_add_append]
      rfl
    refine .inl ⟨vs ++ [unitOf '%'], rest', _, by simp [hus], ⟨_, vs, hvs, hne, .inr ⟨rfl, rfl⟩⟩, ?_⟩
    simp [htake]
  · split
    · exact .inr ⟨_, _, _, rfl⟩
    · have htake : us.take vs.length = vs := by rw [hus, List.take_left]
      exact .inl ⟨vs, rest, _, hus, ⟨_, vs, hvs, hne, .inl ⟨rfl, rfl⟩⟩, by rw [htake]⟩

/-- The units that numbers have: digits, signs, marks and the `e` of an exponent, and the percent sign. -/
def IsNumberUnit (u : Nat) : Prop := u = 37 ∨ 43 ≤ u ∧ u ≤ 57 ∨ u = 69 ∨ u = 101

theorem Writes.isNumberUnit (h : Writes locale us n) : ∀ u ∈ us, IsNumberUnit u := by
  have hdigits {ds : List Nat} (hds : DigitUnits ds) (u : Nat) (hu : u ∈ ds) : IsNumberUnit u := by
    have := isDigitUnit_iff.1 (hds u hu)
    exact .inr (.inl (by omega))
  have hsign {s : List Nat} {b : Bool} (hs : WritesSign s b) (u : Nat) (hu : u ∈ s) : IsNumberUnit u := by
    refine .inr (.inl ?_)
    cases hs <;> simp [unitOf] at hu <;> omega
  obtain ⟨sign, fraction, exponent, rfl, hs, hwhole, hplaces, hexponent, -⟩ := h
  generalize n.exponent = e at hexponent
  generalize n.places = places at hplaces
  intro u hu
  simp only [List.mem_append] at hu
  rcases hu with hu | hu | hu | hu
  · exact hsign hs u hu
  · exact hdigits hwhole u hu
  · cases hplaces with
    | none => cases hu
    | mark _ hps =>
      rcases List.mem_cons.1 hu with rfl | hu
      · refine .inr (.inl ?_)
        rcases decimalUnit locale with h | h <;> omega
      · exact hdigits hps u hu
  · cases hexponent with
    | none => cases hu
    | mark v s ds minus hv hs hds =>
      rcases List.mem_cons.1 hu with rfl | hu
      · exact .inr (.inr ((isExponentMark_iff.1 hv).symm))
      · rcases List.mem_append.1 hu with hu | hu
        · exact hsign hs u hu
        · exact hdigits hds u hu

theorem IsNumber.isNumberUnit (h : IsNumber locale us x) : ∀ u ∈ us, IsNumberUnit u := by
  obtain ⟨n, vs, hvs, -, ⟨rfl, -⟩ | ⟨rfl, -⟩⟩ := h
  · exact hvs.isNumberUnit
  · intro u hu
    rcases List.mem_append.1 hu with hu | hu
    · exact hvs.isNumberUnit u hu
    · exact .inl (List.mem_singleton.1 hu)

/-- The spelling of a number has the units of the number. -/
theorem IsNumber.units_ofUnits (h : IsNumber locale us x) : Text.units (Text.ofUnits us) = us := by
  refine Text.units_ofUnits fun u hu => ?_
  have := h.isNumberUnit u hu
  unfold IsNumberUnit at this
  omega

theorem sign?_value (n : Numeral) : Number.sign? n.value = some (Number.Exact.sign n.negative) :=
  Number.sign?_ofDecimal _ _ _

/-- A number in a formula is a number. -/
theorem IsNumber.beq_self (h : IsNumber locale us x) : (x == x) = true := by
  refine Number.beq_self ?_
  obtain ⟨n, -, -, -, ⟨-, rfl⟩ | ⟨-, rfl⟩⟩ := h
  · simp [sign?_value]
  · simp [Number.sign?_percent, sign?_value]

theorem Writes.negative_eq (h : Writes locale us n) (hus : Unsigned us) : n.negative = false := by
  obtain ⟨sign, fraction, exponent, rfl, hsign, -⟩ := h
  generalize n.negative = negative at hsign
  cases hsign with
  | none => rfl
  | plus => rfl
  | minus => cases hus

/-- A number without a sign is not negative. -/
theorem IsNumber.sign?_eq (h : IsNumber locale us x) (hus : Unsigned us) : Number.sign? x = some .positive := by
  have hsign {n : Numeral} {vs : List Nat} (hvs : Writes locale vs n) (hvs' : Unsigned vs) :
      Number.sign? n.value = some .positive := by
    rw [sign?_value, hvs.negative_eq hvs']
    rfl
  obtain ⟨n, vs, hvs, hne, ⟨rfl, rfl⟩ | ⟨rfl, rfl⟩⟩ := h
  · exact hsign hvs hus
  · rw [Number.sign?_percent]
    refine hsign hvs ?_
    cases vs with
    | nil => rfl
    | cons v vs => exact hus

end Spreadsheet.Formula.Lexeme
