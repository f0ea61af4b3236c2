import Spreadsheet.Expression.Render
import Spreadsheet.Proofs.Number.Read

/-!
Texts of finite numbers. Such a text is digits, perhaps with a point and more digits, perhaps after a minus,
and reading it is reading those digits.
-/

namespace Spreadsheet

namespace Number

open Float.Model (UnpackedFloat)
open Float.Model.UnpackedFloat

/-- Whether reading the text of a number gives the number again. -/
def ReadsBack (x : Float) : Prop := ∃ y, readDecimal (format x).toList = some y ∧ (y == x) = true

instance (x : Float) : Decidable (ReadsBack x) :=
  decidable_of_iff ((readDecimal (format x).toList).any (· == x) = true) (Option.any_eq_true (· == x) _)

/-- Whether reading the text of a number gives a number that may stand for it. -/
def ReadsBackAs (same : Float → Float → Prop) (x : Float) : Prop :=
  ∃ y, readDecimal (format x).toList = some y ∧ same y x

/-- All characters are digits. -/
def Digits (cs : List Char) : Prop := ∀ c ∈ cs, isDigit c = true

/-- The digits after a mark, and the mark if there are any. -/
def placesText (mark : Char) (places : List Char) : List Char :=
  if places.isEmpty then [] else mark :: places

/-- The text of a decimal without exponent. -/
def decimalText (mark : Char) (negative : Bool) (whole places : List Char) : List Char :=
  (if negative then ['-'] else []) ++ (whole ++ placesText mark places)

/-! ### Digits -/

theorem Digits.append {cs ds : List Char} (hc : Digits cs) (hd : Digits ds) : Digits (cs ++ ds) := by
  intro c hmem
  rcases List.mem_append.1 hmem with h | h
  · exact hc c h
  · exact hd c h

theorem digits_zeros (n : Nat) : Digits (List.replicate n '0') := by
  intro c hc
  rw [List.eq_of_mem_replicate hc]
  rfl

theorem digits_toDigits (n : Nat) : Digits (Nat.toDigits 10 n) := by
  intro c hc
  have h := Nat.isDigit_of_mem_toDigits (by omega) (by omega) hc
  simpa [Char.isDigit, isDigit, Char.le_def] using h

theorem digitsValue_toDigits (n : Nat) : digitsValue (Nat.toDigits 10 n) = n :=
  Nat.ofDigitChars_toDigits (by omega) (by omega)

theorem digitsValue_zeros (cs : List Char) (n : Nat) :
    digitsValue (cs ++ List.replicate n '0') = digitsValue cs * 10 ^ n :=
  (Nat.ofDigitChars_append 0).trans ((Nat.ofDigitChars_replicate_zero ..).trans (Nat.mul_comm _ _))

theorem zeros_digitsValue (n : Nat) (cs : List Char) : digitsValue (List.replicate n '0' ++ cs) = digitsValue cs := by
  refine (Nat.ofDigitChars_append 0).trans ?_
  rw [Nat.ofDigitChars_replicate_zero, Nat.mul_zero]
  rfl

/-- Without the zeros at its end a list only lacks zeros. -/
theorem dropZeros_eq (cs : List Char) :
    ∃ k, cs = (cs.reverse.dropWhile (· == '0')).reverse ++ List.replicate k '0' := by
  refine ⟨(cs.reverse.takeWhile (· == '0')).length, ?_⟩
  have hzeros : cs.reverse.takeWhile (· == '0') = List.replicate (cs.reverse.takeWhile (· == '0')).length '0' :=
    List.eq_replicate_iff.2 ⟨rfl, fun c hc => by simpa using List.mem_takeWhile_imp hc⟩
  rw [← List.reverse_replicate, ← hzeros, ← List.reverse_append, List.takeWhile_append_dropWhile, List.reverse_reverse]

theorem takeWhile_digits {cs rest : List Char} (hcs : Digits cs) (hrest : ∀ c ∈ rest.head?, isDigit c = false) :
    (cs ++ rest).takeWhile isDigit = cs ∧ (cs ++ rest).dropWhile isDigit = rest := by
  rw [List.takeWhile_append_of_pos hcs, List.dropWhile_append_of_pos hcs]
  cases rest with
  | nil => exact ⟨List.append_nil cs, rfl⟩
  | cons c rest =>
    have hc : ¬isDigit c = true := by simp [hrest c rfl]
    rw [List.takeWhile_cons_of_neg hc, List.dropWhile_cons_of_neg hc]
    exact ⟨List.append_nil cs, rfl⟩

/-! ### The shape of the text -/

/-- With a point in front of its last digits a list of digits keeps a digit before it. The zeros at the end are dropped,
and the value only changes with the number of the places. -/
theorem digitsValue_split {ds places : List Char} {n : Nat} (hds : Digits ds) (hlength : n < ds.length)
    (hplaces : ((ds.drop (ds.length - n)).reverse.dropWhile (· == '0')).reverse = places) :
    ds.take (ds.length - n) ≠ [] ∧ Digits (ds.take (ds.length - n)) ∧ Digits places ∧
      digitsValue (ds.take (ds.length - n) ++ places) * 10 ^ n = digitsValue ds * 10 ^ places.length := by
  obtain ⟨k, hk⟩ := dropZeros_eq (ds.drop (ds.length - n))
  rw [hplaces] at hk
  have hcount : places.length + k = n := by
    have := congrArg List.length hk
    rw [List.length_append, List.length_replicate, List.length_drop] at this
    omega
  refine ⟨?_, fun d hd => hds d (List.mem_of_mem_take hd), fun d hd => ?_, ?_⟩
  · rw [Ne, List.take_eq_nil_iff]
    rintro (h | rfl)
    · omega
    · simp at hlength
  · refine hds d (List.mem_of_mem_drop (i := ds.length - n) ?_)
    rw [hk]
    exact List.mem_append_left _ hd
  · have hvalue : digitsValue (ds.take (ds.length - n) ++ places) * 10 ^ k = digitsValue ds := by
      rw [← digitsValue_zeros, List.append_assoc, ← hk, List.take_append_drop]
    have hpow : 10 ^ n = 10 ^ k * 10 ^ places.length := by rw [← hcount, Nat.add_comm, Nat.pow_add]
    rw [hpow, ← Nat.mul_assoc, hvalue]

/-- Positional notation has a digit before the point, and digits after it unless there is no point. All digits together
have the value of the decimal once the places are counted. -/
theorem positional_eq (c : Nat) (p : Int) : ∃ whole places, whole ≠ [] ∧ Digits whole ∧ Digits places ∧
    (positional c p).toList = whole ++ placesText '.' places ∧
    digitsValue (whole ++ places) * 10 ^ (-p).toNat = c * 10 ^ (p.toNat + places.length) := by
  have hdigits := digits_toDigits c
  unfold positional
  split
  · refine ⟨_, [], ?_, hdigits.append (digits_zeros p.toNat), fun _ h => absurd h List.not_mem_nil, ?_, ?_⟩
    · simp [Nat.toDigits_ne_nil]
    · simp [placesText]
    · rw [List.append_nil, digitsValue_zeros, digitsValue_toDigits, show (-p).toNat = 0 by omega]
      simp
  · generalize hpadded : List.replicate ((-p).toNat + 1 - (Nat.toDigits 10 c).length) '0' ++ Nat.toDigits 10 c = padded
    have hlength : (-p).toNat < padded.length := by
      rw [← hpadded, List.length_append, List.length_replicate]
      omega
    generalize hplaces : ((padded.drop (padded.length - (-p).toNat)).reverse.dropWhile (· == '0')).reverse = places
    obtain ⟨hne, hwhole, hplaces', hvalue⟩ :=
      digitsValue_split (hpadded ▸ (digits_zeros _).append hdigits) hlength hplaces
    refine ⟨_, places, hne, hwhole, hplaces', ?_, ?_⟩
    · simp only [hpadded, hplaces, String.toList_ofList, placesText]
      split <;> simp
    · rw [hvalue, ← hpadded, zeros_digitsValue, digitsValue_toDigits, show p.toNat = 0 by omega, Nat.zero_add]

/-- What is finite is read as such. -/
theorem finite_of_isFinite {x : Float} (hx : x.isFinite = true) :
    ∃ negative m e, Exact.ofFloat x = .finite negative m e ∧ ((x < 0) ↔ negative = true ∧ m ≠ 0) := by
  have hlt : (x < 0) ↔ UnpackedFloat.lt x.toModel.unpack (.zero .positive) = true := decide_eq_true_iff
  change x.toModel.unpack.isFinite = true at hx
  rw [hlt, Exact.ofFloat]
  cases hu : x.toModel.unpack with
  | notANumber => simp [hu, UnpackedFloat.isFinite] at hx
  | infinity s => simp [hu, UnpackedFloat.isFinite] at hx
  | zero s => exact ⟨_, _, _, rfl, by cases s <;> simp [UnpackedFloat.lt, UnpackedFloat.compare]⟩
  | finite s m e hm =>
    refine ⟨_, _, _, rfl, ?_⟩
    cases s <;> simp [UnpackedFloat.lt, UnpackedFloat.compare, Exact.isNegative, Nat.ne_of_gt hm]

/-- A finite number is below zero or not. -/
theorem le_iff_of_isFinite {x : Float} (hx : x.isFinite = true) : 0 ≤ x ↔ ¬x < 0 := by
  have hle : (0 ≤ x) ↔ UnpackedFloat.le (.zero .positive) x.toModel.unpack = true := decide_eq_true_iff
  have hlt : (x < 0) ↔ UnpackedFloat.lt x.toModel.unpack (.zero .positive) = true := decide_eq_true_iff
  change x.toModel.unpack.isFinite = true at hx
  rw [hle, hlt]
  cases hu : x.toModel.unpack with
  | notANumber => simp [hu, UnpackedFloat.isFinite] at hx
  | infinity s => simp [hu, UnpackedFloat.isFinite] at hx
  | zero s => cases s <;> simp [UnpackedFloat.le, UnpackedFloat.lt, UnpackedFloat.compare]
  | finite s m e hm => cases s <;> simp [UnpackedFloat.le, UnpackedFloat.lt, UnpackedFloat.compare]

theorem not_lt_of_positive {x : Float} (hx : sign? x = some .positive) : ¬x < 0 := by
  have hlt : (x < 0) ↔ UnpackedFloat.lt x.toModel.unpack (.zero .positive) = true := decide_eq_true_iff
  unfold sign? at hx
  rw [hlt]
  cases hu : x.toModel.unpack with
  | notANumber => simp [UnpackedFloat.lt, UnpackedFloat.compare]
  | infinity s =>
    rw [hu] at hx
    obtain rfl : s = .positive := Option.some.inj hx
    simp [UnpackedFloat.lt, UnpackedFloat.compare]
  | zero s => cases s <;> simp [UnpackedFloat.lt, UnpackedFloat.compare]
  | finite s m e hm =>
    rw [hu] at hx
    obtain rfl : s = .positive := Option.some.inj hx
    simp [UnpackedFloat.lt, UnpackedFloat.compare]

/-- The text of a finite number is a decimal. Unless the number is zero the digits are the shortest ones. -/
theorem format_eq {x : Float} (hx : x.isFinite = true) : ∃ whole places, whole ≠ [] ∧ Digits whole ∧ Digits places ∧
    (format x).toList = decimalText '.' (decide (x < 0)) whole places ∧
    ∀ negative m e, Exact.ofFloat x = .finite negative m e → m ≠ 0 →
      digitsValue (whole ++ places) * 10 ^ (-(Shortest.digits m e).2).toNat =
        (Shortest.digits m e).1 * 10 ^ ((Shortest.digits m e).2.toNat + places.length) := by
  obtain ⟨negative, m, e, hexact, hnegative⟩ := finite_of_isFinite hx
  obtain ⟨whole, places, hne, hwhole, hplaces, htext, hvalue⟩ :=
    positional_eq (Shortest.digits m e).1 (Shortest.digits m e).2
  by_cases hm : m = 0
  · refine ⟨['0'], [], by simp, digits_zeros 1, fun _ h => absurd h List.not_mem_nil, ?_, ?_⟩
    · have hsign : decide (x < 0) = false := by simp [hnegative, hm]
      rw [hsign, format, hexact]
      simp [hm, decimalText, placesText]
    · intro _ m' _ hexact' hm'
      cases hexact.symm.trans hexact'
      exact absurd hm hm'
  · refine ⟨whole, places, hne, hwhole, hplaces, ?_, ?_⟩
    · have hsign : decide (x < 0) = negative := by simp [hnegative, hm]
      rw [hsign, format, hexact]
      simp only [hm, if_false, toText, hexact, decimalText]
      cases negative with
      | false => exact htext
      | true =>
        simp only [if_true]
        rw [String.toList_append, htext]
        rfl
    · intro _ m' e' hexact' _
      cases hexact.symm.trans hexact'
      exact hvalue

/-! ### Reading -/

theorem takeSign_digit {c : Char} (hc : isDigit c = true) (cs : List Char) : takeSign (c :: cs) = (false, c :: cs) := by
  unfold takeSign
  split
  · rename_i heq
    cases heq
    cases hc
  · rename_i heq
    cases heq
    cases hc
  · rfl

theorem takeSign_decimalText (negative : Bool) {whole : List Char} (places : List Char) (hne : whole ≠ [])
    (hwhole : Digits whole) :
    takeSign (decimalText '.' negative whole places) = (negative, whole ++ placesText '.' places) := by
  obtain ⟨c, cs, rfl⟩ := List.exists_cons_of_ne_nil hne
  cases negative with
  | false => exact takeSign_digit (hwhole c List.mem_cons_self) _
  | true => rfl

theorem readDecimal_decimalText (negative : Bool) {whole places : List Char} (hne : whole ≠ []) (hwhole : Digits whole)
    (hplaces : Digits places) : readDecimal (decimalText '.' negative whole places) =
      some (ofDecimal negative (digitsValue (whole ++ places)) (0 - places.length)) := by
  have hhead : ∀ c ∈ (placesText '.' places).head?, isDigit c = false := by
    unfold placesText
    split
    · simp
    · intro c hc
      obtain rfl : '.' = c := by simpa using hc
      rfl
  obtain ⟨htake, hdrop⟩ := takeWhile_digits hwhole hhead
  have hempty : whole.isEmpty = false := by simpa using hne
  unfold readDecimal
  simp only [takeSign_decimalText negative places hne hwhole, htake, hdrop, hempty, Bool.false_and]
  cases places with
  | nil => rfl
  | cons d places =>
    have hend : ∀ c ∈ ([] : List Char).head?, isDigit c = false := by simp
    obtain ⟨htake', hdrop'⟩ := takeWhile_digits hplaces hend
    rw [List.append_nil] at htake' hdrop'
    simp only [placesText, List.isEmpty_cons, Bool.false_eq_true, if_false, htake', hdrop']
    rfl

variable {same : Float → Float → Prop}

/-- What a number reads back as is the value of the digits of its text. -/
theorem ReadsBackAs.decimal {x : Float} (h : ReadsBackAs same x) (hx : x.isFinite = true) :
    ∃ whole places, whole ≠ [] ∧ Digits whole ∧ Digits places ∧
      (format x).toList = decimalText '.' (decide (x < 0)) whole places ∧
      same (ofDecimal (decide (x < 0)) (digitsValue (whole ++ places)) (0 - places.length)) x := by
  obtain ⟨whole, places, hne, hwhole, hplaces, htext, -⟩ := format_eq hx
  obtain ⟨y, hread, hy⟩ := h
  rw [htext, readDecimal_decimalText _ hne hwhole hplaces] at hread
  refine ⟨whole, places, hne, hwhole, hplaces, htext, ?_⟩
  rw [Option.some.inj hread]
  exact hy

end Number

namespace Expression

open Number

/-! ### Other decimal marks -/

@[simp] theorem substitute_self (c : Char) (s : String) : substitute c c s = s := by
  have hmap : (fun d => if d == c then c else d) = (id : Char → Char) := by
    funext d
    simp only [beq_iff_eq, id]
    split
    · rename_i h
      exact h.symm
    · rfl
  rw [substitute, hmap, List.map_id, String.ofList_toList]

theorem map_digits {cs : List Char} (hcs : Digits cs) :
    cs.map (fun c => if c == '.' then ',' else c) = cs := by
  have hid (c : Char) (hc : c ∈ cs) : (if c == '.' then ',' else c) = id c := by
    have hne : c ≠ '.' := by
      rintro rfl
      cases hcs _ hc
    simp [hne]
  rw [List.map_congr_left hid, List.map_id]

theorem map_placesText {places : List Char} (hplaces : Digits places) :
    (placesText '.' places).map (fun c => if c == '.' then ',' else c) = placesText ',' places := by
  cases places with
  | nil => rfl
  | cons d places =>
    change ',' :: (d :: places).map _ = _
    rw [map_digits hplaces]
    rfl

/-- The text of a number with the decimal mark of a locale. -/
theorem renderNumber_eq (locale : Locale) {same : Float → Float → Prop} {x : Float} (h : ReadsBackAs same x)
    (hx : x.isFinite = true) : ∃ whole places, whole ≠ [] ∧ Digits whole ∧ Digits places ∧
      (renderNumber locale x).toList = decimalText locale.decimal.char (decide (x < 0)) whole places ∧
      same (ofDecimal (decide (x < 0)) (digitsValue (whole ++ places)) (0 - places.length)) x := by
  obtain ⟨whole, places, hne, hwhole, hplaces, htext, hvalue⟩ := h.decimal hx
  refine ⟨whole, places, hne, hwhole, hplaces, ?_, hvalue⟩
  unfold renderNumber
  cases locale.decimal with
  | period => exact htext
  | comma =>
    simp only [substitute, String.toList_ofList, htext, decimalText, List.map_append, map_digits hwhole,
      map_placesText hplaces]
    cases decide (x < 0) <;> rfl

end Expression

end Spreadsheet
