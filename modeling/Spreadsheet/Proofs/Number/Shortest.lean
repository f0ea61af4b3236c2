import Spreadsheet.Proofs.Number.Nearest
import Spreadsheet.Proofs.Number.Written

/-!
Numbers that are written and read again. With seventeen digits the grid is finer than the interval of any float, so the
search for the shortest digits ends with digits in the interval, which round to the number. So the text of a finite
number is read as the number itself; only the sign of a zero is not written.
-/

namespace Spreadsheet.Number.Shortest

variable {i : Interval} {m c n num den : ℕ} {e p : ℤ} {v : ℚ}

theorem zpow_mul_toNat {b : ℚ} (hb : b ≠ 0) (k : ℤ) : b ^ k * b ^ (-k).toNat = b ^ k.toNat := by
  rw [← zpow_natCast, ← zpow_natCast, ← zpow_add₀ hb]
  congr 1
  omega

/-! ### Intervals -/

namespace Interval

/-- The lower end of the interval. -/
def least (i : Interval) : ℚ := i.low / i.denominator

/-- The number that the interval belongs to. -/
def number (i : Interval) : ℚ := i.value / i.denominator

/-- The upper end of the interval. -/
def greatest (i : Interval) : ℚ := i.high / i.denominator

/-- The value lies in the interval. -/
def Holds (i : Interval) (v : ℚ) : Prop :=
  if i.inclusive then i.least ≤ v ∧ v ≤ i.greatest else i.least < v ∧ v < i.greatest

theorem contains_iff (hden : 0 < i.denominator) (c : ℕ) (p : ℤ) : i.contains c p = true ↔ i.Holds (c * 10 ^ p) := by
  have hden' : (0 : ℚ) < i.denominator := by exact_mod_cast hden
  have hscale : (0 : ℚ) < 10 ^ (-p).toNat := by positivity
  have hvalue : (c * 10 ^ p * i.denominator * 10 ^ (-p).toNat : ℚ) = (c * tenTo p * i.denominator : ℕ) := by
    have hten := zpow_mul_toNat (b := 10) (by norm_num) p
    push_cast [tenTo, Nat.pow_eq]
    rw [← hten]
    ring
  have hle (k : ℕ) : (k : ℚ) / i.denominator ≤ c * 10 ^ p ↔ k * tenTo (-p) ≤ c * tenTo p * i.denominator := by
    rw [div_le_iff₀ hden', ← mul_le_mul_iff_left₀ hscale, hvalue]
    exact_mod_cast Iff.rfl
  have hge (k : ℕ) : c * 10 ^ p ≤ (k : ℚ) / i.denominator ↔ c * tenTo p * i.denominator ≤ k * tenTo (-p) := by
    rw [le_div_iff₀ hden', ← mul_le_mul_iff_left₀ hscale, hvalue]
    exact_mod_cast Iff.rfl
  unfold contains Holds least greatest
  split
  · rw [Bool.and_eq_true, decide_eq_true_eq, decide_eq_true_eq, hle, hge]
  · rw [Bool.and_eq_true, decide_eq_true_eq, decide_eq_true_eq, ← not_le, ← not_le, ← not_le, ← not_le, hle, hge]

theorem denominator_pos (m : ℕ) (e : ℤ) : 0 < (of m e).denominator := by
  simp [of, Nat.shiftLeft_eq]

/-- A numerator that is given in quarters of the last bit. -/
theorem div_denominator (m k : ℕ) (e : ℤ) :
    (k * 2 ^ (e - 2).toNat : ℕ) / ((of m e).denominator : ℚ) = k * 2 ^ (e - 2) := by
  have hden : ((of m e).denominator : ℚ) = 2 ^ (-(e - 2)).toNat := by
    simp [of, Nat.shiftLeft_eq, neg_sub]
  rw [hden, div_eq_iff (by positivity), mul_assoc, zpow_mul_toNat two_ne_zero]
  push_cast
  rfl

theorem least_of (hm : 0 < m) : (of m e).least = (4 * m - quartersBelow m e) * 2 ^ (e - 2) := by
  have hlow : (of m e).low = (4 * m - quartersBelow m e) * 2 ^ (e - 2).toNat := by
    simp [of, quartersBelow, Nat.shiftLeft_eq]
  have hquarters := quartersBelow_cases m e
  rw [least, hlow, div_denominator, Nat.cast_sub (by omega)]
  push_cast
  rfl

theorem number_of : (of m e).number = 4 * m * 2 ^ (e - 2) := by
  have hvalue : (of m e).value = 4 * m * 2 ^ (e - 2).toNat := by simp [of, Nat.shiftLeft_eq]
  rw [number, hvalue, div_denominator]
  push_cast
  rfl

theorem greatest_of : (of m e).greatest = (4 * m + 2) * 2 ^ (e - 2) := by
  have hhigh : (of m e).high = (4 * m + 2) * 2 ^ (e - 2).toNat := by simp [of, Nat.shiftLeft_eq]
  rw [greatest, hhigh, div_denominator]
  push_cast
  rfl

/-- The interval of a float holds what rounds to the float. -/
theorem holds_of (hm : 0 < m) : (of m e).Holds v ↔ RoundsTo m e v := by
  have hinclusive : (of m e).inclusive = true ↔ m % 2 = 0 := by simp [of]
  unfold Holds RoundsTo
  simp only [hinclusive, least_of hm, greatest_of]

/-! ### The search -/

theorem contains_onGrid (h : i.onGrid p = some c) : i.contains c p = true := by
  unfold onGrid at h
  simp only at h
  split at h
  · rename_i hboth
    rw [Bool.and_eq_true] at hboth
    cases h
    split
    · exact hboth.1
    · exact hboth.2
  · split at h
    · rename_i hbelow
      cases h
      exact hbelow
    · split at h
      · rename_i habove
        cases h
        exact habove
      · cases h

theorem onGrid_eq_none (h : i.onGrid p = none) (hc : c = i.value * tenTo (-p) / (i.denominator * tenTo p)) :
    i.contains c p = false ∧ i.contains (c + 1) p = false := by
  unfold onGrid at h
  simp only [← hc] at h
  split at h
  · cases h
  · split at h
    · cases h
    · rename_i hbelow
      split at h
      · cases h
      · rename_i habove
        exact ⟨by simpa using hbelow, by simpa using habove⟩

/-- The multiples of a step around the number. -/
theorem exists_multiple (hden : 0 < i.denominator) (p : ℤ) :
    ∃ c, c = i.value * tenTo (-p) / (i.denominator * tenTo p) ∧ (c * 10 ^ p : ℚ) ≤ i.number ∧
      i.number < (c + 1 : ℕ) * 10 ^ p := by
  have hpos : 0 < i.denominator * tenTo p := Nat.mul_pos hden (Nat.pow_pos (by omega))
  have hden' : (0 : ℚ) < i.denominator := by exact_mod_cast hden
  have hscale : (0 : ℚ) < 10 ^ (-p).toNat * i.denominator := by positivity
  have hnumber : i.number * (10 ^ (-p).toNat * i.denominator) = (i.value * tenTo (-p) : ℕ) := by
    push_cast [tenTo, Nat.pow_eq, number]
    field_simp
  have hmultiple (k : ℕ) : (k : ℚ) * 10 ^ p * (10 ^ (-p).toNat * i.denominator) =
      (k * (i.denominator * tenTo p) : ℕ) := by
    push_cast [tenTo, Nat.pow_eq]
    rw [← zpow_mul_toNat (b := 10) (by norm_num) p]
    ring
  refine ⟨_, rfl, ?_, ?_⟩
  · rw [← mul_le_mul_iff_left₀ hscale, hnumber, hmultiple]
    exact_mod_cast Nat.div_mul_le_self _ _
  · rw [← mul_lt_mul_iff_left₀ hscale, hnumber, hmultiple, Nat.add_one_mul]
    exact_mod_cast Nat.lt_div_mul_add hpos

/-- A grid that is finer than the interval has a hit. -/
theorem isSome_onGrid (hden : 0 < i.denominator) (hlow : i.least < i.number) (hhigh : i.number < i.greatest)
    (hstep : (10 : ℚ) ^ p < i.greatest - i.least) : (i.onGrid p).isSome = true := by
  obtain ⟨c, hc, hbelow, habove⟩ := exists_multiple hden p
  have hinside {v : ℚ} (hv : ¬i.Holds v) : v ≤ i.least ∨ i.greatest ≤ v := by
    by_contra hcontra
    rw [not_or, not_le, not_le] at hcontra
    refine hv ?_
    unfold Holds
    split
    · exact ⟨hcontra.1.le, hcontra.2.le⟩
    · exact hcontra
  rw [Option.isSome_iff_ne_none]
  intro hnone
  obtain ⟨hfirst, hlast⟩ := onGrid_eq_none hnone hc
  rw [Bool.eq_false_iff, Ne, contains_iff hden] at hfirst hlast
  -- neither multiple lies in the interval, so the interval lies between them
  have hleast := (hinside hfirst).resolve_right (by linarith)
  have hgreatest := (hinside hlast).resolve_left (by linarith)
  rw [Nat.cast_succ, add_one_mul] at hgreatest
  linarith

theorem contains_search {n : ℕ} (h : ∃ k < n, (i.onGrid (p - k)).isSome = true) :
    i.contains (i.search n p).1 (i.search n p).2 = true := by
  induction n generalizing p with
  | zero =>
    obtain ⟨k, hk, -⟩ := h
    omega
  | succ n ih =>
    rw [search]
    cases hgrid : i.onGrid p with
    | some c => exact contains_onGrid hgrid
    | none =>
      obtain ⟨k, hk, hsome⟩ := h
      cases k with
      | zero => simp [hgrid] at hsome
      | succ k =>
        refine ih ⟨k, by omega, ?_⟩
        rwa [show p - 1 - (k : ℤ) = p - (k + 1 : ℕ) by omega]

end Interval

theorem leadingExponent_le (hnum : 0 < num) (hden : 0 < den) :
    (10 : ℚ) ^ leadingExponent num den ≤ num / den := by
  have hden' : (0 : ℚ) < den := by exact_mod_cast hden
  have hnum' : (0 : ℚ) < num := by exact_mod_cast hnum
  unfold leadingExponent
  split
  · rename_i hle
    obtain ⟨hpos, hlow, -⟩ := digitCount_bounds (c := num / den) (Nat.div_pos hle hden)
    rw [show (digitCount (num / den) : ℤ) - 1 = ((digitCount (num / den) - 1 : ℕ) : ℤ) by omega, zpow_natCast,
      le_div_iff₀ hden']
    exact_mod_cast (Nat.le_div_iff_mul_le hden).1 hlow
  · rename_i hlt
    obtain ⟨-, -, hhigh⟩ := digitCount_bounds (c := den / num) (Nat.div_pos (by omega) hnum)
    rw [zpow_neg, zpow_natCast, inv_le_iff_one_le_mul₀ (by positivity), ← mul_div_right_comm, le_div_iff₀ hden',
      one_mul]
    have := (Nat.div_lt_iff_lt_mul hnum).1 hhigh
    rw [mul_comm] at this
    exact_mod_cast this.le

/-- The digits that are found round to the number. -/
theorem roundsTo_digits (hm : Canonical m e) : RoundsTo m e ((digits m e).1 * 10 ^ (digits m e).2) := by
  have hden := Interval.denominator_pos m e
  have hpow : (0 : ℚ) < 2 ^ (e - 2) := by positivity
  have hmpos : (0 : ℚ) < m := by exact_mod_cast hm.pos
  have hnumber : 0 < (Interval.of m e).value := by
    have : (0 : ℚ) < (Interval.of m e).number := by rw [Interval.number_of]; positivity
    refine Nat.pos_of_ne_zero fun hzero => ?_
    simp [Interval.number, hzero] at this
  rw [← Interval.holds_of hm.pos, ← Interval.contains_iff hden]
  refine Interval.contains_search ⟨16, by omega, Interval.isSome_onGrid hden ?_ ?_ ?_⟩
  · rw [Interval.least_of hm.pos, Interval.number_of]
    have : (0 : ℚ) < quartersBelow m e := by
      rcases quartersBelow_cases m e with ⟨h, -⟩ | h <;> rw [h] <;> norm_num
    exact mul_lt_mul_of_pos_right (by linarith) hpow
  · rw [Interval.number_of, Interval.greatest_of]
    exact mul_lt_mul_of_pos_right (by linarith) hpow
  · -- seventeen digits are finer than the last bit
    have hlead := leadingExponent_le hnumber hden
    change _ ≤ (Interval.of m e).number at hlead
    rw [Interval.number_of] at hlead
    have hsmall : (4 * m : ℚ) < (2 + quartersBelow m e) * 10 ^ 16 := by
      have hlt : (m : ℚ) < 9007199254740992 := by exact_mod_cast hm.lt
      rcases quartersBelow_cases m e with ⟨h, hm'⟩ | h
      · rw [h, hm']
        norm_num
      · rw [h]
        norm_num
        linarith
    rw [Interval.least_of hm.pos, Interval.greatest_of, zpow_sub₀ (by norm_num), div_lt_iff₀ (by positivity)]
    calc (10 : ℚ) ^ leadingExponent (Interval.of m e).value (Interval.of m e).denominator
        ≤ 4 * m * 2 ^ (e - 2) := hlead
      _ < (2 + quartersBelow m e) * 10 ^ 16 * 2 ^ (e - 2) := mul_lt_mul_of_pos_right hsmall hpow
      _ = ((4 * m + 2) * 2 ^ (e - 2) - (4 * m - quartersBelow m e) * 2 ^ (e - 2)) * 10 ^ ((16 : ℕ) : ℤ) := by
        rw [zpow_natCast]
        ring

end Spreadsheet.Number.Shortest

/-! ### Numbers and their texts -/

namespace Spreadsheet.Number

open Float.Model (UnpackedFloat)

variable {x : Float}

/-- Whether the number is finite and no zero with a sign, so that its text says everything about it. -/
def isWritable (x : Float) : Bool :=
  match Exact.ofFloat x with
  | .finite negative m _ => !(negative && m == 0)
  | _ => false

/-- A writable number is zero, or it is finite and has a mantissa. -/
theorem isWritable_iff : isWritable x = true ↔
    x.toModel.unpack = .zero .positive ∨ ∃ s m e, ∃ hm : 0 < m, x.toModel.unpack = .finite s m e hm := by
  unfold isWritable Exact.ofFloat
  cases x.toModel.unpack with
  | notANumber => simp
  | infinity s => simp
  | zero s => cases s <;> simp [Exact.isNegative]
  | finite s m e hm => simp [Nat.ne_of_gt hm, hm]

theorem isFinite_of_isWritable (hx : isWritable x = true) : x.isFinite = true := by
  change x.toModel.unpack.isFinite = true
  obtain h | ⟨s, m, e, hm, h⟩ := isWritable_iff.1 hx <;> rw [h] <;> rfl

/-- The digits of a text that counts its places have the value of the decimal with the point. -/
theorem decimal_value {a c places : ℕ} {p : ℤ} (h : a * 10 ^ (-p).toNat = c * 10 ^ (p.toNat + places)) :
    (a : ℚ) * 10 ^ (0 - (places : ℤ)) = c * 10 ^ p := by
  have hpos : (0 : ℚ) < 10 ^ (-p).toNat := by positivity
  have hvalue : (a : ℚ) * 10 ^ (-p).toNat = c * (10 ^ p.toNat * 10 ^ places) := by
    rw [← pow_add]
    exact_mod_cast h
  rw [zero_sub, zpow_neg, zpow_natCast, ← div_eq_mul_inv, div_eq_iff (by positivity), ← mul_left_inj' hpos.ne', hvalue,
    ← Shortest.zpow_mul_toNat (b := 10) (by norm_num) p]
  ring

/-- The text of a writable number is read as the number. -/
theorem readDecimal_format (hx : isWritable x = true) : readDecimal (format x).toList = some x := by
  have hfinite := isFinite_of_isWritable hx
  obtain hzero | ⟨s, m, e, hm, hunpack⟩ := isWritable_iff.1 hx
  · obtain rfl : x = 0 := eq_of_unpack hzero
    rfl
  · have hexact : Exact.ofFloat x = .finite (Exact.isNegative s) m e := by rw [Exact.ofFloat, hunpack]
    obtain ⟨whole, places, hne, hwhole, hplaces, htext, hdigits⟩ := format_eq hfinite
    have hsign : decide (x < 0) = Exact.isNegative s := by
      obtain ⟨negative, m', e', hexact', hlt⟩ := finite_of_isFinite hfinite
      cases hexact.symm.trans hexact'
      simp [hlt, Nat.ne_of_gt hm]
    rw [htext, readDecimal_decimalText _ hne hwhole hplaces, hsign]
    refine congrArg some (ofDecimal_eq hunpack ?_)
    rw [decimal_value (hdigits _ m e hexact (Nat.ne_of_gt hm))]
    exact Shortest.roundsTo_digits (canonical_of_unpack hunpack)

theorem readsBackAs_of_isWritable (hx : isWritable x = true) : ReadsBackAs (fun y x => y = x) x :=
  ⟨x, readDecimal_format hx, rfl⟩

/-- The text of a finite number is read as a number that equals it, as zeros do whatever their signs. -/
theorem readsBack_of_isFinite (hx : x.isFinite = true) : ReadsBack x := by
  by_cases hwritable : isWritable x = true
  · refine ⟨x, readDecimal_format hwritable, beq_self ?_⟩
    obtain h | ⟨s, m, e, hm, h⟩ := isWritable_iff.1 hwritable <;> simp [sign?, h, signOf]
  · have hzero : x.toModel.unpack = .zero .negative := by
      change x.toModel.unpack.isFinite = true at hx
      rw [isWritable_iff] at hwritable
      cases hu : x.toModel.unpack with
      | notANumber => simp [hu, UnpackedFloat.isFinite] at hx
      | infinity s => simp [hu, UnpackedFloat.isFinite] at hx
      | zero s => cases s <;> simp [hu] at hwritable ⊢
      | finite s m e hm => exact absurd (.inr ⟨s, m, e, hm, hu⟩) hwritable
    obtain rfl : x = -0 := eq_of_unpack hzero
    exact ⟨0, rfl, rfl⟩

end Spreadsheet.Number
