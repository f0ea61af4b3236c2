import Mathlib
import Spreadsheet.Proofs.Number.Natural

/-!
Rounding to the nearest float. A mantissa with its two residual bits stands for the exact value it was cut from, so
rounding it gives the float whose interval the value lies in.
-/

namespace Spreadsheet.Number

open Float.Model (UnpackedFloat Format totalExponent)
open Float.Model.UnpackedFloat

variable {x v : ℚ} {m M n : ℕ} {e E : ℤ} {em : ExtendedMantissa}

/-! ### Residual bits -/

/-- The value that the mantissa was cut from, in units of its last bit. -/
def Represents (em : ExtendedMantissa) (x : ℚ) : Prop :=
  match em.roundBit, em.stickyBit with
  | false, false => x = em.mantissa
  | false, true => em.mantissa < x ∧ x < em.mantissa + 1 / 2
  | true, false => x = em.mantissa + 1 / 2
  | true, true => em.mantissa + 1 / 2 < x ∧ x < em.mantissa + 1

theorem represents_exact (m : ℕ) : Represents (.ofMantissaAndAccuracy m .exact) m := rfl

theorem Represents.bounds (h : Represents em x) : em.mantissa ≤ x ∧ x < em.mantissa + 1 := by
  obtain ⟨m, round, sticky⟩ := em
  cases round <;> cases sticky <;> simp only [Represents] at h
  · exact ⟨h.ge, by linarith⟩
  · exact ⟨h.1.le, by linarith⟩
  · exact ⟨by linarith, by linarith⟩
  · exact ⟨by linarith, h.2⟩

theorem Represents.shiftRightOne (h : Represents em x) : Represents em.shiftRightOne (x / 2) := by
  obtain ⟨m, round, sticky⟩ := em
  obtain ⟨q, r, hr, rfl⟩ : ∃ q r, r < 2 ∧ m = 2 * q + r := ⟨m / 2, m % 2, by omega, by omega⟩
  have hhalf : (2 * q + r) / 2 = q := by omega
  have hbit : (2 * q + r) % 2 = r := by omega
  simp only [Represents, ExtendedMantissa.shiftRightOne, hhalf, hbit] at h ⊢
  obtain rfl | rfl : r = 0 ∨ r = 1 := by omega
  all_goals
    cases round <;> cases sticky <;> push_cast at h <;>
      simp only [Nat.reduceBNe, Bool.or_false, Bool.or_true] <;>
      first
        | (constructor <;> linarith)
        | linarith

theorem Represents.shiftRight (h : Represents em x) (j : ℕ) : Represents (em >>> j) (x / 2 ^ j) := by
  change Represents (Nat.repeat ExtendedMantissa.shiftRightOne j em) _
  induction j with
  | zero => simpa [Nat.repeat] using h
  | succ j ih =>
    rw [pow_succ, ← div_div]
    exact ih.shiftRightOne

/-- Rounding gives the natural number that is at most a half away; a half only goes to an even one. -/
theorem Represents.roundedMantissa_eq (h : Represents em x) (hlow : (n : ℚ) - 1 / 2 ≤ x) (hhigh : x ≤ n + 1 / 2)
    (hties : x = n - 1 / 2 ∨ x = n + 1 / 2 → n % 2 = 0) : em.roundedMantissa = n := by
  obtain ⟨m, round, sticky⟩ := em
  have hcast {a b : ℕ} : (a : ℚ) < b + 1 → a ≤ b := fun hab => by
    have : a < b + 1 := by exact_mod_cast hab
    omega
  cases round <;> cases sticky <;> simp only [Represents] at h
  · change m = n
    exact le_antisymm (hcast (by linarith)) (hcast (by linarith))
  · change m = n
    exact le_antisymm (hcast (by linarith)) (hcast (by linarith))
  · -- half way between two mantissas
    have hm : m ≤ n := hcast (by linarith)
    have hn : n ≤ m + 1 := hcast (by push_cast; linarith)
    change m + m % 2 = n
    rcases hm.eq_or_lt with rfl | hlt
    · have := hties (.inr h)
      omega
    · obtain rfl : n = m + 1 := by omega
      have := hties (.inl (by push_cast; linarith))
      omega
  · change m + 1 = n
    exact le_antisymm (hcast (by push_cast; linarith)) (hcast (by push_cast; linarith))

/-! ### The interval of a float -/

/-- How far below a float its interval starts, in quarters of its last bit: the float below a power of two is closer. -/
def quartersBelow (m : ℕ) (e : ℤ) : ℕ := if m = 2 ^ 52 ∧ -1074 < e then 1 else 2

theorem quartersBelow_cases (m : ℕ) (e : ℤ) : quartersBelow m e = 1 ∧ m = 2 ^ 52 ∨ quartersBelow m e = 2 := by
  unfold quartersBelow
  split
  · rename_i h
    exact .inl ⟨rfl, h.1⟩
  · exact .inr rfl

theorem quartersBelow_le (m : ℕ) (e : ℤ) : (quartersBelow m e : ℚ) ≤ 2 := by
  rcases quartersBelow_cases m e with ⟨h, -⟩ | h <;> rw [h] <;> norm_num

/-- The value lies between the midpoints around `m · 2 ^ e`; the midpoints themselves belong to an even mantissa. -/
def RoundsTo (m : ℕ) (e : ℤ) (v : ℚ) : Prop :=
  if m % 2 = 0 then ((4 * m : ℚ) - quartersBelow m e) * 2 ^ (e - 2) ≤ v ∧ v ≤ (4 * m + 2) * 2 ^ (e - 2)
  else ((4 * m : ℚ) - quartersBelow m e) * 2 ^ (e - 2) < v ∧ v < (4 * m + 2) * 2 ^ (e - 2)

/-- The mantissa fits, and it is full unless the exponent is the least one. -/
structure Canonical (m : ℕ) (e : ℤ) : Prop where
  pos : 0 < m
  lt : m < 2 ^ 53
  least : -1074 ≤ e
  full : e = -1074 ∨ 2 ^ 52 ≤ m

theorem Canonical.log2_le (h : Canonical m e) : m.log2 ≤ 52 := by
  have := (Nat.log2_lt (Nat.ne_of_gt h.pos)).2 h.lt
  omega

/-- A canonical mantissa stands at the exponent that rounding aims at. -/
theorem Canonical.targetExponent_eq (h : Canonical m e) :
    Format.binary64.targetExponent (totalExponent m e) = e := by
  have hlog := h.log2_le
  rw [targetExponent_binary64, totalExponent]
  rcases h.full with rfl | hfull
  · omega
  · have := (Nat.le_log2 (Nat.ne_of_gt h.pos)).2 hfull
    have := h.least
    omega

/-- Where a value stands that rounds to `m · 2 ^ e`, in units of the last bit. -/
theorem RoundsTo.bounds (h : RoundsTo m e (v * 2 ^ e)) : (m : ℚ) - quartersBelow m e / 4 ≤ v ∧ v ≤ m + 1 / 2 ∧
    (v = m - quartersBelow m e / 4 ∨ v = m + 1 / 2 → m % 2 = 0) := by
  have hpow : (0 : ℚ) < 2 ^ e := by positivity
  have hquarter (q : ℚ) : q * 2 ^ (e - 2) = q / 4 * 2 ^ e := by
    rw [zpow_sub₀ two_ne_zero]
    norm_num
    ring
  unfold RoundsTo at h
  simp only [hquarter, mul_le_mul_iff_left₀ hpow, mul_lt_mul_iff_left₀ hpow] at h
  split at h
  · rename_i heven
    exact ⟨by linarith, by linarith, fun _ => heven⟩
  · refine ⟨by linarith, by linarith, ?_⟩
    rintro (rfl | rfl)
    · linarith
    · linarith

/-- What rounds to a float is at least half of the last bit and has no more bits than a mantissa. -/
theorem RoundsTo.limits (h : RoundsTo m e v) (hm : Canonical m e) : (2 : ℚ) ^ (e - 1) ≤ v ∧ v < 2 ^ (53 + e) := by
  have hpow : (0 : ℚ) < 2 ^ e := by positivity
  obtain ⟨w, rfl⟩ : ∃ w : ℚ, v = w * 2 ^ e := ⟨v / 2 ^ e, (div_mul_cancel₀ _ hpow.ne').symm⟩
  obtain ⟨hbelow, habove, -⟩ := h.bounds
  have hquarters := quartersBelow_le m e
  have hmpos : (1 : ℚ) ≤ m := by exact_mod_cast hm.pos
  have hmlt : (m : ℚ) + 1 ≤ 2 ^ (53 : ℤ) := by exact_mod_cast hm.lt
  constructor
  · rw [zpow_sub₀ two_ne_zero, zpow_one, div_eq_inv_mul]
    exact mul_le_mul_of_nonneg_right (by linarith) hpow.le
  · rw [zpow_add₀ two_ne_zero]
    exact mul_lt_mul_of_pos_right (by linarith) hpow

/-- A float that values below the least full mantissa round to is a power of two. -/
theorem RoundsTo.power_of_lt (h : RoundsTo m e v) (hfull : 2 ^ 52 ≤ m) (hv : v < 2 ^ (52 + e)) :
    m = 2 ^ 52 ∧ (2 : ℚ) ^ (51 + e) ≤ v := by
  have hpow : (0 : ℚ) < 2 ^ e := by positivity
  obtain ⟨w, rfl⟩ : ∃ w : ℚ, v = w * 2 ^ e := ⟨v / 2 ^ e, (div_mul_cancel₀ _ hpow.ne').symm⟩
  obtain ⟨hbelow, -, -⟩ := h.bounds
  have hquarters := quartersBelow_le m e
  have hfull' : (2 : ℚ) ^ 52 ≤ m := by exact_mod_cast hfull
  have hsmall : w < 2 ^ 52 := by
    rw [zpow_add₀ two_ne_zero] at hv
    exact_mod_cast lt_of_mul_lt_mul_right hv hpow.le
  constructor
  · refine le_antisymm ?_ hfull
    have : (m : ℚ) < 2 ^ 52 + 1 := by linarith
    exact_mod_cast Nat.lt_succ_iff.1 (by exact_mod_cast this)
  · have hhalf : (2 : ℚ) ^ (51 : ℤ) ≤ w := by
      have : (2 : ℚ) ^ 52 = 2 ^ (51 : ℤ) * 2 := by norm_num
      have : (2 : ℚ) ≤ 2 ^ (51 : ℤ) := by norm_num
      linarith
    rw [zpow_add₀ two_ne_zero]
    exact mul_le_mul_of_nonneg_right hhalf hpow.le

/-- The powers of two around a value whose whole part is known. -/
theorem log2_bounds (hM : 0 < M) (hlow : M ≤ x) (hhigh : x < M + 1) (E : ℤ) :
    (2 : ℚ) ^ (M.log2 + E) ≤ x * 2 ^ E ∧ x * 2 ^ E < 2 ^ (M.log2 + 1 + E) := by
  have hpow : (0 : ℚ) < 2 ^ E := by positivity
  have hle : (2 : ℚ) ^ M.log2 ≤ M := by exact_mod_cast Nat.log2_self_le (Nat.ne_of_gt hM)
  have hlt : (M : ℚ) + 1 ≤ 2 ^ (M.log2 + 1) := by exact_mod_cast Nat.lt_log2_self
  constructor
  · rw [zpow_add₀ two_ne_zero, zpow_natCast]
    exact mul_le_mul_of_nonneg_right (hle.trans hlow) hpow.le
  · rw [zpow_add₀ two_ne_zero, ← Nat.cast_succ, zpow_natCast]
    exact mul_lt_mul_of_pos_right (hhigh.trans_le hlt) hpow

/-- The exponent that rounding a value aims at is that of the float it rounds to, or the one before it if the value lies
below a power of two. -/
theorem targetExponent_cases (hm : Canonical m e) (hlow : M ≤ x) (hhigh : x < M + 1) (hfull : E ≤ -1074 ∨ 2 ^ 52 ≤ M)
    (h : RoundsTo m e (x * 2 ^ E)) : E ≤ Format.binary64.targetExponent (totalExponent M E) ∧
      (Format.binary64.targetExponent (totalExponent M E) = e ∨
        Format.binary64.targetExponent (totalExponent M E) = e - 1 ∧ m = 2 ^ 52 ∧ -1074 < e ∧
          x * 2 ^ E < 2 ^ (52 + e)) := by
  have hlt {a b : ℤ} (hab : (2 : ℚ) ^ a < 2 ^ b) : a < b := (zpow_lt_zpow_iff_right₀ one_lt_two).1 hab
  obtain ⟨hleast, hover⟩ := h.limits hm
  have he := hm.least
  rw [targetExponent_binary64, totalExponent]
  obtain rfl | hM := Nat.eq_zero_or_pos M
  · -- less than one unit of the least exponent
    have hsmall : x * 2 ^ E < 2 ^ E := mul_lt_of_lt_one_left (by positivity) (by simpa using hhigh)
    have := hlt (hleast.trans_lt hsmall)
    simp only [Nat.log2_zero]
    omega
  · obtain ⟨hfloor, hceiling⟩ := log2_bounds hM hlow hhigh E
    have htop := hlt (hfloor.trans_lt hover)
    have hE : E ≤ max (M.log2 + 1 + E - 53) (-1074) := by
      rcases hfull with h | h
      · omega
      · have := (Nat.le_log2 (Nat.ne_of_gt hM)).2 h
        omega
    refine ⟨hE, ?_⟩
    rcases hm.full with rfl | hfull'
    · omega
    · by_cases hbinade : (2 : ℚ) ^ (52 + e) ≤ x * 2 ^ E
      · have := hlt (hbinade.trans_lt hceiling)
        omega
      · rw [not_le] at hbinade
        obtain ⟨hpower, hhalf⟩ := h.power_of_lt hfull' hbinade
        have := hlt (hhalf.trans_lt hceiling)
        have := hlt (hfloor.trans_lt hbinade)
        by_cases hsub : e = -1074
        · omega
        · exact .inr ⟨by omega, hpower, by omega, hbinade⟩

/-! ### Rounding -/

variable {acc : Accuracy}

theorem mantissa_ofMantissaAndAccuracy (M : ℕ) (acc : Accuracy) :
    (ExtendedMantissa.ofMantissaAndAccuracy M acc).mantissa = M := by
  unfold ExtendedMantissa.ofMantissaAndAccuracy
  split <;> rfl

theorem shiftToTargetExponent_eq {j : ℕ}
    (hj : Format.binary64.targetExponent (totalExponent M E) = E + j) :
    shiftToTargetExponent .binary64 M E acc = (ExtendedMantissa.ofMantissaAndAccuracy M acc >>> j, E + j) := by
  have hamount : (E + j - E).toNat = j := by omega
  simp only [shiftToTargetExponent, shiftToExponent, hj, hamount]

/-- A canonical mantissa is not shifted. -/
theorem Canonical.shift_eq (h : Canonical m e) :
    shiftToTargetExponent .binary64 m e .exact = (⟨m, false, false⟩, e) := by
  have hj : Format.binary64.targetExponent (totalExponent m e) = e + (0 : ℕ) := by
    rw [h.targetExponent_eq]
    omega
  rw [shiftToTargetExponent_eq hj]
  exact Prod.ext rfl (by simp)

/-- A mantissa at the exponent of the float is rounded to that of the float. -/
theorem Represents.roundedMantissa_of_roundsTo (h : Represents em x) (hx : RoundsTo m e (x * 2 ^ e)) :
    em.roundedMantissa = m := by
  obtain ⟨hbelow, habove, hties⟩ := hx.bounds
  have hquarters := quartersBelow_le m e
  refine h.roundedMantissa_eq (by linarith) habove fun htie => hties ?_
  rcases htie with htie | htie
  · exact .inl (le_antisymm (by linarith) hbelow)
  · exact .inr htie

/-- Below a power of two a mantissa with one bit more is rounded up to that power. -/
theorem Represents.roundedMantissa_of_lt (h : Represents em x) (he : -1074 < e)
    (hx : RoundsTo (2 ^ 52) e (x * 2 ^ (e - 1))) (hlt : x * 2 ^ (e - 1) < 2 ^ (52 + e)) :
    em.roundedMantissa = 2 ^ 53 := by
  have hhalf : x * 2 ^ (e - 1) = x / 2 * 2 ^ e := by
    rw [zpow_sub₀ two_ne_zero, zpow_one]
    ring
  have hquarter : (quartersBelow (2 ^ 52) e : ℚ) = 1 := by simp [quartersBelow, he]
  rw [hhalf] at hx hlt
  obtain ⟨hbelow, -, -⟩ := hx.bounds
  rw [zpow_add₀ two_ne_zero] at hlt
  have habove := lt_of_mul_lt_mul_right hlt (by positivity)
  rw [hquarter] at hbelow
  push_cast at hbelow
  refine h.roundedMantissa_eq ?_ ?_ fun _ => by norm_num
  · push_cast
    linarith
  · push_cast
    norm_num at habove ⊢
    linarith

/-- Rounding takes a value to the float whose interval it lies in. -/
theorem roundWithAccuracy_eq (hm : Canonical m e) (hrep : Represents (.ofMantissaAndAccuracy M acc) x)
    (hfull : E ≤ -1074 ∨ 2 ^ 52 ≤ M) (h : RoundsTo m e (x * 2 ^ E)) (s : Sign) :
    roundWithAccuracy .binary64 s M E acc = .finite s m e hm.pos := by
  obtain ⟨hlow, hhigh⟩ := hrep.bounds
  rw [mantissa_ofMantissaAndAccuracy] at hlow hhigh
  obtain ⟨hE, hT⟩ := targetExponent_cases hm hlow hhigh hfull h
  obtain ⟨j, hj⟩ : ∃ j : ℕ, Format.binary64.targetExponent (totalExponent M E) = E + j :=
    ⟨(Format.binary64.targetExponent (totalExponent M E) - E).toNat, by omega⟩
  have hscaled := hrep.shiftRight j
  have hunits : x * 2 ^ E = x / 2 ^ j * 2 ^ (E + j) := by
    rw [zpow_add₀ two_ne_zero, zpow_natCast]
    field_simp
  rw [hj] at hT
  rw [hunits] at h hT
  -- the second shift only drops the last bit of a mantissa that has become too long
  suffices hfinal : ∃ n, (ExtendedMantissa.ofMantissaAndAccuracy M acc >>> j).roundedMantissa = n ∧
      shiftToTargetExponent .binary64 n (E + j) .exact = (⟨m, false, false⟩, e) by
    obtain ⟨n, hn, hshift⟩ := hfinal
    rw [roundWithAccuracy]
    simp only [shiftToTargetExponent_eq hj, hn, hshift]
    exact dif_neg hm.pos.ne'
  rcases hT with hT | ⟨hT, rfl, he, hbinade⟩
  · rw [hT] at h
    exact ⟨m, hscaled.roundedMantissa_of_roundsTo h, hT ▸ hm.shift_eq⟩
  · rw [hT] at h hbinade ⊢
    exact ⟨2 ^ 53, hscaled.roundedMantissa_of_lt he h hbinade,
      shiftToTargetExponent_exact (m := 2 ^ 52) (Nat.log2_two_pow) (by positivity) hm.least 1⟩

end Spreadsheet.Number
