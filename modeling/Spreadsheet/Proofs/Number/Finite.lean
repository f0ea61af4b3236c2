import Spreadsheet.Date
import Spreadsheet.Proofs.Number.Natural
import Spreadsheet.Simulation.Generator

/-!
Finite numbers. What is rounded is finite if it stays below `2 ^ 1023`; so are the floats of integers of 64 bits, of
the parts of dates and of what the generator of random numbers gives.
-/

namespace Spreadsheet

namespace Number

open Float.Model (UnpackedFloat Format totalExponent)
open Float.Model.UnpackedFloat

variable {m n : Nat} {e : Int} {s : Sign}

/-! ### Rounding -/

/-- The exponent of a packed number decides whether it is finite. -/
theorem isFinite_pack (hm : 0 < m) (he : e ≤ 971) :
    (Float.ofModel (.pack (.finite s m e hm))).isFinite = true := by
  have hunpack {k : Nat} (hk : k ≤ 2046) (significand : BitVec 52) :
      (unpack .binary64 (packComponents .binary64 s (BitVec.ofNat 11 k) significand)).isFinite = true := by
    unfold unpack
    simp only [unpackMantissa_packComponents, unpackExponent_packComponents]
    rw [if_neg (ofNat_ne_ones hk)]
    split
    · split <;> rfl
    · rfl
  change (unpack .binary64 (pack .binary64 (.finite s m e hm))).isFinite = true
  unfold pack
  simp only [toNat_biased e]
  rw [if_neg (by omega)]
  split
  · exact hunpack (by omega) _
  · exact hunpack (k := 0) (by omega) _

theorem mantissa_shiftRight (em : ExtendedMantissa) (j : Nat) : (em >>> j).mantissa = em.mantissa / 2 ^ j := by
  change (Nat.repeat ExtendedMantissa.shiftRightOne j em).mantissa = _
  induction j with
  | zero => simp [Nat.repeat]
  | succ j ih =>
    rw [Nat.repeat, ExtendedMantissa.shiftRightOne, ih, Nat.div_div_eq_div_mul, Nat.pow_succ]

theorem roundedMantissa_le (em : ExtendedMantissa) : em.roundedMantissa ≤ em.mantissa + 1 := by
  unfold ExtendedMantissa.roundedMantissa Accuracy.roundToNearestEven
  split <;> omega

/-- Rounding keeps a mantissa of 53 bits, or moves it up by one binary place. -/
theorem isFinite_roundWithAccuracy (he : e ≤ 970) (htotal : totalExponent m e ≤ 1023) :
    (Float.ofModel (.pack (roundWithAccuracy .binary64 s m e .exact))).isFinite = true := by
  unfold roundWithAccuracy shiftToTargetExponent shiftToExponent
  simp only [targetExponent_binary64]
  split
  · cases s <;> rfl
  refine isFinite_pack _ ?_
  generalize hshift : (max (totalExponent m e - 53) (-1074) - e).toNat = j
  generalize hrounded : (ExtendedMantissa.ofMantissaAndAccuracy m .exact >>> j).roundedMantissa = r
  have hlow : m / 2 ^ j < 2 ^ 53 := by
    rw [Nat.div_lt_iff_lt_mul (Nat.two_pow_pos j), ← Nat.pow_add]
    refine Nat.lt_of_lt_of_le Nat.lt_log2_self (Nat.pow_le_pow_right (by omega) ?_)
    unfold totalExponent at hshift
    omega
  have hr : r ≤ 2 ^ 53 := by
    have hle := roundedMantissa_le (ExtendedMantissa.ofMantissaAndAccuracy m .exact >>> j)
    have hmantissa : (ExtendedMantissa.ofMantissaAndAccuracy m .exact).mantissa = m := rfl
    rw [mantissa_shiftRight, hrounded, hmantissa] at hle
    omega
  have hlog : r.log2 < 54 := by
    rcases Nat.eq_zero_or_pos r with rfl | hpos
    · decide
    · exact (Nat.log2_lt (by omega)).2 (by omega)
  unfold totalExponent at htotal hshift ⊢
  omega

theorem isFinite_round (hm : 0 < m) (htotal : totalExponent m e ≤ 1023) :
    (Float.ofModel (.pack (UnpackedFloat.round .binary64 s m e))).isFinite = true := by
  unfold UnpackedFloat.round decreaseExponent
  simp only [targetExponent_binary64]
  have htotal' : (m.log2 : Int) + 1 + e ≤ 1023 := htotal
  refine isFinite_roundWithAccuracy (by unfold totalExponent; omega) ?_
  rw [Nat.shiftLeft_eq]
  unfold totalExponent
  rw [log2_mul_pow hm]
  omega

/-! ### Integers -/

theorem isFinite_toFloat (negative : Bool) (hm : m < 2 ^ 64) : (Exact.toFloat (.finite negative m 0)).isFinite = true := by
  rcases Nat.eq_zero_or_pos m with rfl | hpos
  · cases negative <;> rfl
  · simp only [Exact.toFloat, if_neg (Nat.ne_of_gt hpos)]
    refine isFinite_round hpos ?_
    have hlog : m.log2 < 64 := (Nat.log2_lt (by omega)).2 hm
    unfold totalExponent
    omega

theorem isFinite_ofInt {i : Int} (hi : i.natAbs < 2 ^ 64) : (ofInt i).isFinite = true := isFinite_toFloat _ hi

theorem isFinite_ofNat (hn : n < 2 ^ 64) : (ofNat n).isFinite = true := isFinite_ofInt hn

/-! ### Random numbers -/

theorem isFinite_uniform (g : Simulation.Generator) : g.uniform.1.isFinite = true := by
  have hunit : (Float.ofBits 0x3CA0000000000000).toModel.unpack = .finite .positive (2 ^ 52) (-105) (by decide) := rfl
  have hlt : (g.next.1 >>> 11).toNat < 2 ^ 53 := by
    rw [UInt64.toNat_shiftRight, Nat.shiftRight_eq_div_pow]
    have := g.next.1.toNat_lt
    change g.next.1.toNat / 2 ^ 11 < 2 ^ 53
    omega
  change ((g.next.1 >>> 11).toFloat * Float.ofBits 0x3CA0000000000000).isFinite = true
  generalize g.next.1 >>> 11 = word at hlt
  obtain ⟨n, hn, rfl⟩ : ∃ n, n < 2 ^ 53 ∧ word = n.toUInt64 := ⟨word.toNat, hlt, by simp⟩
  rcases Nat.eq_zero_or_pos n with rfl | hpos
  · rfl
  rw [toFloat_toUInt64 hpos hn]
  change (Float.ofModel (.pack (mul .binary64 (floatOfNat n).toModel.unpack
    (Float.ofBits 0x3CA0000000000000).toModel.unpack))).isFinite = true
  rw [hunit, unpack_floatOfNat hpos hn, normalNat, mul]
  have hshift := shiftOf_le n
  refine isFinite_roundWithAccuracy (by omega) ?_
  rw [totalExponent, log2_mul_pow (shifted_pos hpos), log2_shifted hpos hn]
  omega

end Number

/-! ### Dates -/

namespace Date

/-- The parts of the days of the calendar are small. -/
theorem ofSerial_bounds {n : Int} (hfirst : firstSerial ≤ n) (hlast : n ≤ lastSerial) :
    (ofSerial n).year.natAbs < 2 ^ 64 ∧ (ofSerial n).month < 2 ^ 64 ∧ (ofSerial n).day < 2 ^ 64 := by
  unfold firstSerial at hfirst
  unfold lastSerial at hlast
  simp only [ofSerial, originSerial, daysBeforeMonth]
  omega

end Date

theorem Instant.bounds_of_serial {x : Float} {i : Instant} (h : ofSerial? x = some i) :
    Date.firstSerial ≤ i.day ∧ i.day ≤ Date.lastSerial := by
  simp only [ofSerial?] at h
  split at h
  · cases h
  · split at h
    · rename_i hday
      cases h
      simpa using hday
    · cases h

end Spreadsheet
