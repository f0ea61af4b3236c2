import Spreadsheet.Proofs.Number.Negative
import Spreadsheet.Proofs.Number.Rounding

/-!
Decimals are read as the nearest float. Products, quotients and powers of ten are rounded once, from their exact values,
so a decimal in the interval of a float is read as that float.
-/

namespace Spreadsheet.Number

open Float.Model (UnpackedFloat Format totalExponent)
open Float.Model.UnpackedFloat

variable {x y : Float} {m m₁ m₂ c k : ℕ} {e e₁ e₂ p : ℤ} {s s₁ s₂ : Sign}

/-! ### Floats -/

theorem exponent_of_unpack {hm : 0 < m} (h : x.toModel.unpack = .finite s m e hm) : -1074 ≤ e ∧ e ≤ 971 := by
  change unpack .binary64 x.toModel.toBits.toBitVec = _ at h
  rw [unpack] at h
  simp only at h
  split at h
  · split at h <;> cases h
  · rename_i hones
    split at h
    · rename_i hzero
      split at h
      · cases h
      · cases h
        rw [hzero, exponentBias_eq]
        exact ⟨by decide, by decide⟩
    · rename_i hzero
      injection h with _ _ hexponent
      generalize @unpackExponent .binary64 x.toModel.toBits.toBitVec = bits at hones hzero hexponent
      have hlt : bits.toNat < 2 ^ 11 := bits.isLt
      have hne : bits.toNat ≠ 2047 := fun h => hones (BitVec.eq_of_toNat_eq (by simpa using h))
      have hne' : bits.toNat ≠ 0 := fun h => hzero (BitVec.eq_of_toNat_eq (by simpa using h))
      rw [exponentBias_eq] at hexponent
      change (bits.toNat : ℤ) - (1023 + (52 : ℕ)) = e at hexponent
      omega

theorem canonical_of_unpack {hm : 0 < m} (h : x.toModel.unpack = .finite s m e hm) : Canonical m e := by
  obtain ⟨hleast, -⟩ := exponent_of_unpack h
  rcases log2_of_unpack h with hlog | ⟨hlt, he⟩
  · exact ⟨hm, lt_two_pow hlog hm, hleast, .inr (two_pow_le hlog hm)⟩
  · exact ⟨hm, by omega, hleast, .inl he⟩

theorem ofModel_pack {u : UnpackedFloat} (h : x.toModel.unpack = u) : Float.ofModel (.pack u) = x :=
  h ▸ eq_of_unpack (unpack_pack_unpack x)

/-! ### Products and quotients -/

/-- A product of long mantissas is rounded once. -/
theorem mul_eq (hm : Canonical m e) {h₁ : 0 < m₁} {h₂ : 0 < m₂} (hfull : 2 ^ 52 ≤ m₁ * m₂)
    (h : RoundsTo m e (m₁ * 2 ^ e₁ * (m₂ * 2 ^ e₂))) :
    UnpackedFloat.mul .binary64 (.finite s₁ m₁ e₁ h₁) (.finite s₂ m₂ e₂ h₂) = .finite (s₁ * s₂) m e hm.pos := by
  refine roundWithAccuracy_eq hm (represents_exact _) (.inr hfull) ?_ _
  rwa [zpow_add₀ two_ne_zero, Nat.cast_mul, mul_mul_mul_comm]

/-- A quotient and what is known of the rest of the division. -/
theorem represents_fraction (n : ℕ) {d : ℕ} (hd : 0 < d) :
    Represents (.ofMantissaAndAccuracy (n / d) (accuracyOfFraction (n % d) d)) ((n : ℚ) / d) := by
  have hd' : (0 : ℚ) < d := by exact_mod_cast hd
  have hsplit : (n : ℚ) / d = (n / d : ℕ) + (n % d : ℕ) / (d : ℚ) := by
    rw [eq_comm, ← mul_div_cancel_left₀ ((n / d : ℕ) : ℚ) hd'.ne', ← add_div]
    congr 1
    exact_mod_cast Nat.div_add_mod n d
  have hlt : n % d < d := Nat.mod_lt n hd
  generalize n / d = q at hsplit ⊢
  generalize n % d = r at hsplit hlt ⊢
  rw [hsplit]
  unfold accuracyOfFraction
  split
  · rename_i hr
    simp [hr, Represents, ExtendedMantissa.ofMantissaAndAccuracy]
  · rename_i hr
    have hr' : (0 : ℚ) < r := by exact_mod_cast Nat.pos_of_ne_zero hr
    have hlt' : (r : ℚ) < d := by exact_mod_cast hlt
    cases hcompare : compare (2 * r) d with
    | lt =>
      have hhalf : (2 * r : ℚ) < d := by exact_mod_cast Nat.compare_eq_lt.1 hcompare
      refine ⟨lt_add_of_pos_right _ (by positivity), add_lt_add_right ?_ _⟩
      rw [div_lt_iff₀ hd']
      linarith
    | eq =>
      have hhalf : (2 * r : ℚ) = d := by exact_mod_cast Nat.compare_eq_eq.1 hcompare
      refine congrArg _ ?_
      rw [div_eq_iff hd'.ne']
      linarith
    | gt =>
      have hhalf : (d : ℚ) < 2 * r := by exact_mod_cast Nat.compare_eq_gt.1 hcompare
      refine ⟨add_lt_add_right ?_ _, add_lt_add_right ((div_lt_one hd').2 hlt') _⟩
      rw [lt_div_iff₀ hd']
      linarith

/-- A quotient is taken of a mantissa that is long enough for all bits of a float. -/
theorem quotient_full {j : ℕ} (h₁ : 0 < m₁) (h₂ : 0 < m₂)
    (hE : min (e₁ - e₂) (Format.binary64.targetExponent (totalExponent m₁ e₁ - totalExponent m₂ e₂)) = p)
    (hj : e₁ - e₂ = p + j) : p ≤ -1074 ∨ 2 ^ 52 ≤ m₁ * 2 ^ j / m₂ := by
  rw [targetExponent_binary64, totalExponent, totalExponent] at hE
  by_cases hp : p ≤ -1074
  · exact .inl hp
  · right
    rw [Nat.le_div_iff_mul_le h₂]
    calc 2 ^ 52 * m₂ ≤ 2 ^ 52 * 2 ^ (m₂.log2 + 1) := Nat.mul_le_mul_left _ Nat.lt_log2_self.le
      _ ≤ 2 ^ (m₁.log2 + j) := by
        rw [← Nat.pow_add]
        exact Nat.pow_le_pow_right (by omega) (by omega)
      _ = 2 ^ m₁.log2 * 2 ^ j := Nat.pow_add _ _ _
      _ ≤ m₁ * 2 ^ j := Nat.mul_le_mul_right _ (Nat.log2_self_le h₁.ne')

/-- A quotient is rounded once. -/
theorem div_eq (hm : Canonical m e) {h₁ : 0 < m₁} {h₂ : 0 < m₂} (h : RoundsTo m e (m₁ * 2 ^ e₁ / (m₂ * 2 ^ e₂))) :
    UnpackedFloat.div .binary64 (.finite s₁ m₁ e₁ h₁) (.finite s₂ m₂ e₂ h₂) = .finite (s₁ / s₂) m e hm.pos := by
  generalize htarget : min (e₁ - e₂) (Format.binary64.targetExponent (totalExponent m₁ e₁ - totalExponent m₂ e₂)) = E
  obtain ⟨j, hj⟩ : ∃ j : ℕ, e₁ - e₂ = E + j := ⟨(e₁ - e₂ - E).toNat, by omega⟩
  have hamount : (e₁ - e₂ - E).toNat = j := by omega
  have hcore : divCore .binary64 m₁ e₁ m₂ e₂ =
      (m₁ * 2 ^ j / m₂, E, accuracyOfFraction (m₁ * 2 ^ j % m₂) m₂) := by
    simp only [divCore, htarget, hamount, Nat.shiftLeft_eq]
  have hvalue : (m₁ * 2 ^ e₁ / (m₂ * 2 ^ e₂) : ℚ) = (m₁ * 2 ^ j : ℕ) / m₂ * 2 ^ E := by
    rw [mul_div_mul_comm, ← zpow_sub₀ two_ne_zero, hj, zpow_add₀ two_ne_zero, zpow_natCast]
    push_cast
    ring
  rw [UnpackedFloat.div]
  simp only [hcore]
  exact roundWithAccuracy_eq hm (represents_fraction _ h₂) (quotient_full h₁ h₂ htarget hj) (hvalue ▸ h) _

/-! ### Decimals -/

/-- A power of ten with a full mantissa. -/
def isPowerOfTen (k : ℕ) : UnpackedFloat → Bool
  | .finite .positive M E _ => 2 ^ 52 ≤ M && M * 2 ^ E.toNat == 10 ^ k * 2 ^ (-E).toNat
  | _ => false

theorem isPowerOfTen_table : ∀ k : Fin 23, isPowerOfTen k
    ((getElem Float.exactlyRepresentablePowersOfTen k.val
      (by simp [Float.exactlyRepresentablePowersOfTen])).toModel.unpack) = true := by
  decide

theorem exists_of_isPowerOfTen {u : UnpackedFloat} (h : isPowerOfTen k u = true) :
    ∃ M E, ∃ hM : 0 < M, u = .finite .positive M E hM ∧ 2 ^ 52 ≤ M ∧ (M : ℚ) * 2 ^ E = 10 ^ k := by
  unfold isPowerOfTen at h
  split at h
  · rename_i M E hM
    simp only [Bool.and_eq_true, decide_eq_true_eq, beq_iff_eq] at h
    refine ⟨M, E, hM, rfl, h.1, ?_⟩
    have hvalue : (M : ℚ) * 2 ^ E.toNat = 10 ^ k * 2 ^ (-E).toNat := by exact_mod_cast h.2
    have hsplit : (2 : ℚ) ^ E = 2 ^ E.toNat / 2 ^ (-E).toNat := by
      rw [← zpow_natCast, ← zpow_natCast, ← zpow_sub₀ two_ne_zero]
      congr 1
      omega
    rw [hsplit, mul_div_assoc', hvalue, mul_div_cancel_right₀ _ (by positivity)]
  · cases h

/-- A decimal with few digits and a small exponent is a product or a quotient of two exact floats. -/
theorem ofScientific_few (hm : Canonical m e) (hc : 0 < c) (hlt : c < 2 ^ 53) (hk : k ≤ 22) (negative : Bool)
    (h : RoundsTo m e (c * 10 ^ (if negative then -k else k : ℤ))) :
    Float.ofScientific c negative k = .ofModel (.pack (.finite .positive m e hm.pos)) := by
  obtain ⟨M, E, hM, hunpack, hfull, hvalue⟩ := exists_of_isPowerOfTen (isPowerOfTen_table ⟨k, by omega⟩)
  have hdigits : (c * 2 ^ shiftOf c : ℕ) * (2 : ℚ) ^ (-(shiftOf c : ℤ)) = c := by
    push_cast
    rw [zpow_neg, zpow_natCast, mul_assoc, mul_inv_cancel₀ (by positivity), mul_one]
  unfold Float.ofScientific
  rw [dif_pos ⟨hlt, hk⟩, toFloat_toUInt64 hc hlt]
  cases negative with
  | true =>
    change Float.ofModel (.pack (UnpackedFloat.div .binary64 (floatOfNat c).toModel.unpack
      (getElem Float.exactlyRepresentablePowersOfTen k _).toModel.unpack)) = _
    rw [hunpack, unpack_floatOfNat hc hlt, normalNat, div_eq hm]
    · rfl
    · rw [hdigits, hvalue]
      simpa [div_eq_mul_inv] using h
  | false =>
    change Float.ofModel (.pack (UnpackedFloat.mul .binary64 (floatOfNat c).toModel.unpack
      (getElem Float.exactlyRepresentablePowersOfTen k _).toModel.unpack)) = _
    rw [hunpack, unpack_floatOfNat hc hlt, normalNat, mul_eq hm]
    · rfl
    · exact hfull.trans (Nat.le_mul_of_pos_left _ (shifted_pos hc))
    · rw [hdigits, hvalue]
      simpa using h

/-- A decimal whose exponent is not out of all bounds is rounded once. -/
theorem ofScientific_unpacked (hm : Canonical m e) (hc : 0 < c) (hlow : -(2048 + c.log2 : ℤ) ≤ p) (hhigh : p ≤ 2048)
    (h : RoundsTo m e (c * 10 ^ p)) :
    UnpackedFloat.ofScientific .binary64 c p = .finite .positive m e hm.pos := by
  unfold UnpackedFloat.ofScientific
  rw [dif_neg hc.ne', if_neg (by simpa using hhigh), if_neg (by simpa using hlow)]
  split
  · rename_i hp
    obtain ⟨k, rfl⟩ := Int.eq_ofNat_of_zero_le hp
    have hbits : Format.binary64.mantissaBits = 53 := rfl
    simp only [hbits]
    rw [mul_eq hm]
    · rfl
    · calc 2 ^ 52 ≤ c <<< 53 := by
            rw [Nat.shiftLeft_eq]
            exact (Nat.pow_le_pow_right (by omega) (by omega)).trans (Nat.le_mul_of_pos_left _ hc)
        _ ≤ c <<< 53 * 10 ^ k := Nat.le_mul_of_pos_right _ (by positivity)
    · have hdigits : (c <<< 53 : ℕ) * (2 : ℚ) ^ (-(53 : ℕ) : ℤ) = c := by
        rw [Nat.shiftLeft_eq, zpow_neg, zpow_natCast, Nat.cast_mul, Nat.cast_pow, Nat.cast_ofNat, mul_assoc,
          mul_inv_cancel₀ (by positivity), mul_one]
      rw [hdigits]
      simpa using h
  · rename_i hp
    obtain ⟨k, rfl⟩ : ∃ k : ℕ, p = -(k : ℤ) := ⟨(-p).toNat, by omega⟩
    rw [div_eq hm]
    · rfl
    · simpa [div_eq_mul_inv] using h

theorem ofScientific_eq (hm : Canonical m e) (hc : 0 < c) (negative : Bool)
    (hlow : -(2048 + c.log2 : ℤ) ≤ (if negative then -k else k : ℤ)) (hhigh : (if negative then -k else k : ℤ) ≤ 2048)
    (h : RoundsTo m e (c * 10 ^ (if negative then -k else k : ℤ))) :
    Float.ofScientific c negative k = .ofModel (.pack (.finite .positive m e hm.pos)) := by
  by_cases hfew : c < 2 ^ 53 ∧ k ≤ 22
  · exact ofScientific_few hm hc hfew.1 hfew.2 negative h
  · have hexponent : (if negative then Int.negOfNat k else Int.ofNat k) = (if negative then -k else k : ℤ) := by
      cases negative
      · rfl
      · exact Int.negOfNat_eq
    unfold Float.ofScientific
    rw [dif_neg hfew]
    simp only [hexponent]
    exact congrArg (fun u => Float.ofModel (.pack u)) (ofScientific_unpacked hm hc hlow hhigh h)

/-- A positive number lies between the powers of ten that its digits are counted by. -/
theorem digitCount_bounds (hc : 0 < c) : 0 < Shortest.digitCount c ∧ 10 ^ (Shortest.digitCount c - 1) ≤ c ∧
    c < 10 ^ Shortest.digitCount c := by
  have hpos : 0 < Shortest.digitCount c := Nat.length_toDigits_pos
  refine ⟨hpos, ?_, (Nat.length_toDigits_le_iff (by omega) hpos).1 le_rfl⟩
  obtain hone | hmore := Nat.eq_zero_or_pos (Shortest.digitCount c - 1)
  · rw [hone]
    exact hc
  · refine not_lt.1 fun hlt => ?_
    have : Shortest.digitCount c ≤ Shortest.digitCount c - 1 :=
      (Nat.length_toDigits_le_iff (by omega) hmore).2 hlt
    omega

/-- A number has no more decimal digits than bits. -/
theorem digitCount_le (hc : 0 < c) : Shortest.digitCount c ≤ c.log2 + 1 := by
  have hle : 2 ^ (Shortest.digitCount c - 1) ≤ c :=
    (Nat.pow_le_pow_left (by omega) _).trans (digitCount_bounds hc).2.1
  have := (Nat.le_log2 hc.ne').2 hle
  omega

/-- The value of a decimal lies between powers of ten. -/
theorem decimal_bounds (hc : 0 < c) (p : ℤ) : (10 : ℚ) ^ (p + Shortest.digitCount c - 1) ≤ c * 10 ^ p ∧
    c * 10 ^ p < (10 : ℚ) ^ (p + Shortest.digitCount c) := by
  obtain ⟨hpos, hlow, hhigh⟩ := digitCount_bounds hc
  have hpow : (0 : ℚ) < 10 ^ p := by positivity
  constructor
  · rw [add_sub_assoc, add_comm, zpow_add₀ (by norm_num), show (Shortest.digitCount c : ℤ) - 1 =
      ((Shortest.digitCount c - 1 : ℕ) : ℤ) by omega, zpow_natCast]
    exact mul_le_mul_of_nonneg_right (by exact_mod_cast hlow) hpow.le
  · rw [add_comm, zpow_add₀ (by norm_num), zpow_natCast]
    exact mul_lt_mul_of_pos_right (by exact_mod_cast hhigh) hpow

variable {v : ℚ}

/-- What rounds to a float is far from being too great or too small. -/
theorem RoundsTo.range (h : RoundsTo m e v) (hm : Canonical m e) (he : e ≤ 971) :
    (10 : ℚ) ^ (-400 : ℤ) < v ∧ v < 10 ^ (400 : ℤ) := by
  obtain ⟨hlow, hhigh⟩ := h.limits hm
  have hleast := hm.least
  have hpowers : (2 : ℚ) ^ (1200 : ℤ) < 10 ^ (400 : ℤ) := by
    have h : (2 : ℚ) ^ (3 : ℤ) < 10 := by norm_num
    calc (2 : ℚ) ^ (1200 : ℤ) = (2 ^ (3 : ℤ)) ^ (400 : ℤ) := by rw [← zpow_mul]; norm_num
      _ < 10 ^ (400 : ℤ) := zpow_lt_zpow_left₀ (by norm_num) (by positivity) h
  constructor
  · calc (10 : ℚ) ^ (-400 : ℤ) < 2 ^ (-1200 : ℤ) := by
          rw [zpow_neg, zpow_neg]
          exact (inv_lt_inv₀ (by positivity) (by positivity)).2 hpowers
      _ ≤ 2 ^ (e - 1) := zpow_le_zpow_right₀ one_le_two (by omega)
      _ ≤ v := hlow
  · calc v < 2 ^ (53 + e) := hhigh
      _ ≤ 2 ^ (1200 : ℤ) := zpow_le_zpow_right₀ one_le_two (by omega)
      _ < 10 ^ (400 : ℤ) := hpowers

/-- A decimal in the interval of a float is read as the float. -/
theorem ofDecimal_eq {hm : 0 < m} (hx : x.toModel.unpack = .finite s m e hm) (h : RoundsTo m e (c * 10 ^ p)) :
    ofDecimal (Exact.isNegative s) c p = x := by
  have hcanonical := canonical_of_unpack hx
  obtain ⟨hlow, hhigh⟩ := h.range hcanonical (exponent_of_unpack hx).2
  have hc : 0 < c := by
    refine Nat.pos_of_ne_zero ?_
    rintro rfl
    rw [Nat.cast_zero, zero_mul] at hlow
    exact absurd hlow (not_lt.2 (by positivity))
  obtain ⟨hfirst, hlast⟩ := decimal_bounds hc p
  have hten {a b : ℤ} (hab : (10 : ℚ) ^ a < 10 ^ b) : a < b := (zpow_lt_zpow_iff_right₀ (by norm_num)).1 hab
  have hbelow := hten (hlow.trans hlast)
  have habove := hten (hfirst.trans_lt hhigh)
  have hcount := digitCount_le hc
  have hmagnitude : ofDecimal false c p = .ofModel (.pack (.finite .positive m e hm)) := by
    unfold ofDecimal
    simp only [Bool.false_eq_true, if_false]
    rw [if_neg (by simp; omega), if_neg (by omega)]
    split
    · rename_i hp
      obtain ⟨k, rfl⟩ := Int.eq_ofNat_of_zero_le hp
      exact ofScientific_eq hcanonical hc false (by simp; omega) (by simp; omega) (by simpa using h)
    · rename_i hp
      obtain ⟨k, rfl⟩ : ∃ k : ℕ, p = -(k : ℤ) := ⟨(-p).toNat, by omega⟩
      rw [Int.neg_neg, Int.toNat_natCast]
      exact ofScientific_eq hcanonical hc true (by simp; omega) (by simp) (by simpa using h)
  cases s with
  | positive => exact hmagnitude.trans (ofModel_pack hx)
  | negative =>
    have hneg : (-x).toModel.unpack = .finite .positive m e hm := (unpack_neg x).trans (by rw [hx]; rfl)
    have hsign : ofDecimal true c p = -ofDecimal false c p := by simp [ofDecimal]
    exact hsign.trans (by rw [hmagnitude, ofModel_pack hneg, neg_neg])

end Spreadsheet.Number
