import Mathlib
import Spreadsheet.Proofs.Number.Read

/-!
Natural numbers as floats. Below `2 ^ 53` the digits of a natural number are read exactly, so the number of a
row that is read as a float is found again. In turn a float from zero to `2 ^ 32` with nothing after the point is the
float of a natural number, up to the sign of a zero.
-/

namespace Spreadsheet.Number

open Float.Model (UnpackedFloat Format totalExponent)
open Float.Model.UnpackedFloat

/-! ### Rounding without loss -/

theorem targetExponent_binary64 (t : Int) : Format.binary64.targetExponent t = max (t - 53) (-1074) := by
  simp only [Format.targetExponent]
  rfl

/-- Shifting out zeros loses nothing. -/
theorem shift_exact (m j : Nat) :
    (⟨m * 2 ^ j, false, false⟩ : ExtendedMantissa) >>> j = ⟨m, false, false⟩ := by
  change Nat.repeat ExtendedMantissa.shiftRightOne j _ = _
  have hstep (i : Nat) (hi : i ≤ j) :
      Nat.repeat ExtendedMantissa.shiftRightOne i ⟨m * 2 ^ j, false, false⟩ = ⟨m * 2 ^ (j - i), false, false⟩ := by
    induction i with
    | zero => rfl
    | succ i ih =>
      have hpow : m * 2 ^ (j - i) = m * 2 ^ (j - (i + 1)) * 2 := by
        rw [show j - i = j - (i + 1) + 1 by omega, Nat.pow_succ, Nat.mul_assoc]
      rw [Nat.repeat, ih (by omega), hpow]
      simp [ExtendedMantissa.shiftRightOne]
  rw [hstep j (Nat.le_refl j), Nat.sub_self, Nat.pow_zero, Nat.mul_one]

theorem log2_mul_pow {m : Nat} (hm : 0 < m) (j : Nat) : (m * 2 ^ j).log2 = m.log2 + j := by
  have hne : m * 2 ^ j ≠ 0 := Nat.mul_ne_zero (by omega) (Nat.ne_of_gt (Nat.two_pow_pos j))
  rw [Nat.log2_eq_iff hne]
  constructor
  · rw [Nat.pow_add]
    exact Nat.mul_le_mul_right _ (Nat.log2_self_le (by omega))
  · rw [show m.log2 + j + 1 = m.log2 + 1 + j by omega, Nat.pow_add]
    exact Nat.mul_lt_mul_of_pos_right Nat.lt_log2_self (Nat.two_pow_pos j)

variable {m : Nat} {e : Int}

theorem shiftToTargetExponent_exact (hm : m.log2 = 52) (hpos : 0 < m) (he : -1074 ≤ e) (j : Nat) :
    shiftToTargetExponent .binary64 (m * 2 ^ j) (e - j) .exact = (⟨m, false, false⟩, e) := by
  have htarget : Format.binary64.targetExponent (totalExponent (m * 2 ^ j) (e - j)) = e := by
    rw [targetExponent_binary64, totalExponent, log2_mul_pow hpos, hm]
    omega
  simp only [shiftToTargetExponent, htarget, shiftToExponent]
  rw [show (e - (e - j)).toNat = j by omega]
  refine Prod.ext (shift_exact m j) ?_
  change e - j + j = e
  omega

/-- Rounding a mantissa that ends in zeros only drops the zeros. -/
theorem roundWithAccuracy_exact (hm : m.log2 = 52) (hpos : 0 < m) (he : -1074 ≤ e) (s : Sign) (j : Nat) :
    roundWithAccuracy .binary64 s (m * 2 ^ j) (e - j) .exact = .finite s m e hpos := by
  have hagain := shiftToTargetExponent_exact hm hpos he 0
  rw [Nat.pow_zero, Nat.mul_one, show e - (0 : Nat) = e by omega] at hagain
  have hrounded : ExtendedMantissa.roundedMantissa ⟨m, false, false⟩ = m := rfl
  rw [roundWithAccuracy]
  simp only [shiftToTargetExponent_exact hm hpos he j, hrounded, hagain]
  exact dif_neg (Nat.ne_of_gt hpos)

theorem two_pow_le (hm : m.log2 = 52) (hpos : 0 < m) : 2 ^ 52 ≤ m :=
  (Nat.le_log2 (by omega)).1 (by omega)

theorem lt_two_pow (hm : m.log2 = 52) (hpos : 0 < m) : m < 2 ^ 53 :=
  (Nat.log2_lt (by omega)).1 (by omega)

theorem exponentBias_eq : ((Format.binary64.exponentBias : Nat) : Int) = 1023 := rfl

/-- The bits of an exponent, as a number. -/
theorem toNat_biased (e : Int) :
    (e + Format.binary64.exponentBias + Format.binary64.mantissaBitsWithoutImplicit).toNat = (e + 1075).toNat := by
  change (e + (1023 : Nat) + (52 : Nat)).toNat = (e + 1075).toNat
  omega

/-- The exponent with all bits set is kept for infinities and for what is no number. -/
theorem ofNat_ne_ones {k : Nat} (hk : k ≤ 2046) : BitVec.ofNat 11 k ≠ -1#11 := by
  intro heq
  have h := congrArg BitVec.toNat heq
  simp [BitVec.toNat_ofNat] at h
  omega

/-- A float in normal form is unpacked as it was packed. -/
theorem unpack_pack (hm : m.log2 = 52) (hpos : 0 < m) (hlow : -1074 ≤ e) (hhigh : e ≤ 971) (s : Sign) :
    unpack .binary64 (pack .binary64 (.finite s m e hpos)) = .finite s m e hpos := by
  have hfirst := two_pow_le hm hpos
  have hlast := lt_two_pow hm hpos
  have hzero : BitVec.ofNat 11 (e + 1075).toNat ≠ 0#11 := by
    intro heq
    have h := congrArg BitVec.toNat heq
    simp [BitVec.toNat_ofNat] at h
    omega
  have hmantissa : (1#1 ++ BitVec.ofNat 52 m).toNat = m := by
    rw [BitVec.toNat_append, ← Nat.shiftLeft_add_eq_or_of_lt (BitVec.ofNat 52 m).isLt, BitVec.toNat_ofNat,
      Nat.shiftLeft_eq]
    simp [BitVec.toNat_ofNat]
    omega
  rw [pack]
  simp only [hm, toNat_biased e]
  rw [if_neg (by omega), if_pos (by simp [Format.mantissaBits]), unpack]
  simp only [unpackMantissa_packComponents, unpackExponent_packComponents, sign_components]
  rw [if_neg (ofNat_ne_ones (by omega)), if_neg hzero]
  simp [hmantissa, BitVec.toNat_ofNat, exponentBias_eq]
  omega

/-! ### The float of a natural number -/

variable {n : Nat}

/-- How far the binary digits of a natural number are shifted to fill a mantissa. -/
def shiftOf (n : Nat) : Nat := 52 - n.log2

theorem log2_shifted (hpos : 0 < n) (hlt : n < 2 ^ 53) : (n * 2 ^ shiftOf n).log2 = 52 := by
  have hlog : n.log2 < 53 := (Nat.log2_lt (by omega)).2 hlt
  rw [log2_mul_pow hpos, shiftOf]
  omega

theorem shifted_pos (hpos : 0 < n) : 0 < n * 2 ^ shiftOf n :=
  Nat.mul_pos hpos (Nat.two_pow_pos _)

theorem shiftOf_le (n : Nat) : shiftOf n ≤ 52 := by
  unfold shiftOf
  omega

/-- A natural number in normal form. -/
def normalNat (n : Nat) (hpos : 0 < n) : UnpackedFloat :=
  .finite .positive (n * 2 ^ shiftOf n) (-(shiftOf n : Int)) (shifted_pos hpos)

/-- Few binary digits fit a mantissa at any exponent that is not too low. -/
theorem round_shifted (hpos : 0 < n) (hlt : n < 2 ^ 53) (hlow : -1022 ≤ e) :
    UnpackedFloat.round .binary64 .positive n e =
      .finite .positive (n * 2 ^ shiftOf n) (e - shiftOf n) (shifted_pos hpos) := by
  have hlog : n.log2 < 53 := (Nat.log2_lt (by omega)).2 hlt
  have htarget : Format.binary64.targetExponent (totalExponent n e) = e - shiftOf n := by
    rw [targetExponent_binary64, totalExponent, shiftOf]
    omega
  have hexact := roundWithAccuracy_exact (e := e - shiftOf n) (log2_shifted hpos hlt) (shifted_pos hpos)
    (by have := shiftOf_le n; omega) .positive 0
  rw [Nat.pow_zero, Nat.mul_one, show e - (shiftOf n : Int) - (0 : Nat) = e - shiftOf n by omega] at hexact
  rw [UnpackedFloat.round]
  simp only [htarget, decreaseExponent]
  rw [show (e - (e - (shiftOf n : Int))).toNat = shiftOf n by omega, Nat.shiftLeft_eq, hexact]

theorem round_nat (hpos : 0 < n) (hlt : n < 2 ^ 53) :
    UnpackedFloat.round .binary64 .positive n 0 = normalNat n hpos := by
  rw [round_shifted hpos hlt (by omega), normalNat]
  simp only [Int.zero_sub]

theorem unpack_normalNat (hpos : 0 < n) (hlt : n < 2 ^ 53) :
    (Float.Model.pack (normalNat n hpos)).unpack = normalNat n hpos :=
  unpack_pack (log2_shifted hpos hlt) (shifted_pos hpos) (by have := shiftOf_le n; omega) (by omega) _

/-- The float of a natural number. -/
def floatOfNat (n : Nat) : Float := Exact.toFloat (.finite false n 0)

theorem floatOfNat_eq (hpos : 0 < n) (hlt : n < 2 ^ 53) :
    floatOfNat n = .ofModel (.pack (normalNat n hpos)) := by
  rw [floatOfNat, Exact.toFloat, if_neg (by omega)]
  change Float.ofModel (.pack (UnpackedFloat.round .binary64 .positive n 0)) = _
  rw [round_nat hpos hlt]

theorem unpack_floatOfNat (hpos : 0 < n) (hlt : n < 2 ^ 53) :
    (floatOfNat n).toModel.unpack = normalNat n hpos := by
  rw [floatOfNat_eq hpos hlt]
  exact unpack_normalNat hpos hlt

theorem toFloat_toUInt64 (hpos : 0 < n) (hlt : n < 2 ^ 53) : n.toUInt64.toFloat = floatOfNat n := by
  have hnat : n.toUInt64.toNat = n := by
    rw [Nat.toUInt64, UInt64.toNat_ofNat']
    omega
  have hgt : compare (n : Int) 0 = .gt := Int.compare_eq_gt.2 (by omega)
  rw [floatOfNat_eq hpos hlt, ← round_nat hpos hlt]
  change Float.ofModel (.pack (normalize .binary64 (n.toUInt64.toNat : Int) 0 .positive)) = _
  rw [hnat, UnpackedFloat.normalize, hgt]
  rfl

/-- Reading the digits of a natural number is exact. -/
theorem ofScientific_nat (hpos : 0 < n) (hlt : n < 2 ^ 53) : Float.ofScientific n false 0 = floatOfNat n := by
  have hone : (getElem Float.exactlyRepresentablePowersOfTen 0 (by decide)).toModel.unpack =
      .finite .positive (2 ^ 52) (-52) (by decide) := rfl
  unfold Float.ofScientific
  rw [dif_pos ⟨hlt, by omega⟩]
  simp only [Bool.false_eq_true, if_false]
  rw [toFloat_toUInt64 hpos hlt]
  change Float.ofModel (.pack (mul .binary64 (floatOfNat n).toModel.unpack
    (getElem Float.exactlyRepresentablePowersOfTen 0 (by decide)).toModel.unpack)) = _
  have hproduct := roundWithAccuracy_exact (e := -(shiftOf n : Int)) (log2_shifted hpos hlt) (shifted_pos hpos)
    (by have := shiftOf_le n; omega) .positive 52
  rw [hone, unpack_floatOfNat hpos hlt, normalNat, mul]
  change Float.ofModel (.pack (roundWithAccuracy .binary64 .positive (n * 2 ^ shiftOf n * 2 ^ 52)
    (-(shiftOf n : Int) - (52 : Nat)) .exact)) = _
  rw [hproduct, floatOfNat_eq hpos hlt]
  rfl

theorem ofDecimal_nat (hpos : 0 < n) (hlt : n < 2 ^ 32) : ofDecimal false n 0 = floatOfNat n := by
  have hcount : (Nat.toDigits 10 n).length ≤ 10 := (Nat.length_toDigits_le_iff (by omega) (by omega)).2 (by omega)
  unfold ofDecimal Shortest.digitCount
  simp only [Bool.false_eq_true, if_false]
  rw [if_neg, if_neg (by omega), if_pos (by omega)]
  · exact ofScientific_nat hpos (by omega)
  · simp
    omega

theorem ofFloat_floatOfNat (hpos : 0 < n) (hlt : n < 2 ^ 53) :
    Exact.ofFloat (floatOfNat n) = .finite false (n * 2 ^ shiftOf n) (-(shiftOf n : Int)) := by
  rw [Exact.ofFloat, unpack_floatOfNat hpos hlt]
  rfl

theorem floorNat_shifted (n : Nat) : Exact.floorNat (n * 2 ^ shiftOf n) (-(shiftOf n : Int)) = n := by
  have hpow := Nat.two_pow_pos (shiftOf n)
  unfold Exact.floorNat
  split
  · rename_i h
    rw [show shiftOf n = 0 by omega]
    simp
  · rw [Int.neg_neg, Int.toNat_natCast, Nat.shiftRight_eq_div_pow, Nat.mul_div_cancel _ hpow]

theorem trunc_floatOfNat (hpos : 0 < n) (hlt : n < 2 ^ 53) : trunc (floatOfNat n) = floatOfNat n := by
  rw [trunc, roundBy, ofFloat_floatOfNat hpos hlt]
  simp only
  split
  · rfl
  · rw [floorNat_shifted]
    rfl

/-- A natural number has nothing after the point. -/
theorem isIntegral_floatOfNat (hpos : 0 < n) (hlt : n < 2 ^ 53) : isIntegral (floatOfNat n) = true := by
  have hzero : UnpackedFloat.sub .binary64 (normalNat n hpos) (normalNat n hpos) = .zero .positive := by
    simp only [normalNat, UnpackedFloat.sub, Int.sub_self, UnpackedFloat.normalize]
    rfl
  rw [isIntegral, fract, trunc_floatOfNat hpos hlt]
  change UnpackedFloat.beq (Float.Model.pack (UnpackedFloat.sub .binary64 (floatOfNat n).toModel.unpack
    (floatOfNat n).toModel.unpack)).unpack _ = true
  rw [unpack_floatOfNat hpos hlt, hzero]
  rfl

theorem clampNat_floatOfNat (hpos : 0 < n) (hlt : n < 2 ^ 32) : clampNat 32 (floatOfNat n) = n := by
  rw [clampNat, clampInt, ofFloat_floatOfNat hpos (by omega)]
  simp only [floorNat_shifted, Exact.signed]
  rw [show ((1 <<< 32 - 1 : Nat) : Int) = 4294967295 from rfl]
  simp only [Bool.false_eq_true, if_false]
  omega

theorem zero_lt_floatOfNat (hpos : 0 < n) (hlt : n < 2 ^ 53) : 0 < floatOfNat n := by
  refine decide_eq_true ?_
  change UnpackedFloat.lt (.zero .positive) (floatOfNat n).toModel.unpack = true
  rw [unpack_floatOfNat hpos hlt]
  rfl

theorem floatOfNat_lt (hpos : 0 < n) (hlt : n < 2 ^ 32) : floatOfNat n < 4294967296 := by
  have hlog : n.log2 < 32 := (Nat.log2_lt (by omega)).2 hlt
  have hbound : (4294967296 : Float).toModel.unpack = .finite .positive (2 ^ 52) (-20) (by decide) := rfl
  have hexponent : compare (-(shiftOf n : Int)) (-20) = .lt := by
    rw [Int.compare_eq_lt, shiftOf]
    omega
  refine decide_eq_true ?_
  change UnpackedFloat.lt (floatOfNat n).toModel.unpack (4294967296 : Float).toModel.unpack = true
  rw [unpack_floatOfNat hpos (by omega), hbound]
  simp only [normalNat, UnpackedFloat.lt, UnpackedFloat.compare, hexponent]
  rfl

end Spreadsheet.Number

/-! ### Which floats are natural numbers -/

namespace Spreadsheet.Number

open Float.Model (UnpackedFloat Format totalExponent)
open Float.Model.UnpackedFloat

variable {x y : Float} {m k : Nat} {e : Int} {s : Sign}

/-! ### Unpacked floats -/

theorem eq_of_unpack (h : x.toModel.unpack = y.toModel.unpack) : x = y := by
  have hbits := (unpack_inj_of_valid x.toModel.valid y.toModel.valid).1 h
  exact Float.toBits_inj.1 (UInt64.toBitVec_inj.1 hbits)

theorem unpack_pack_unpack (x : Float) : (Float.Model.pack x.toModel.unpack).unpack = x.toModel.unpack :=
  congrArg (unpack .binary64) (pack_unpack_of_valid x.toModel.valid)

/-- The mantissa of a float is full unless the float is as close to zero as floats can be. -/
theorem log2_of_unpack {hm : 0 < m} (h : x.toModel.unpack = .finite s m e hm) :
    m.log2 = 52 ∨ m < 2 ^ 52 ∧ e = -1074 := by
  change unpack .binary64 x.toModel.toBits.toBitVec = _ at h
  rw [unpack] at h
  simp only at h
  split at h
  · split at h <;> cases h
  · split at h
    · rename_i hzero
      split at h
      · cases h
      · cases h
        refine .inr ⟨BitVec.isLt _, ?_⟩
        rw [hzero, exponentBias_eq]
        rfl
    · injection h with _ hmantissa _
      generalize @unpackMantissa .binary64 x.toModel.toBits.toBitVec = bits at hmantissa
      subst hmantissa
      have hlt : bits.toNat < 2 ^ 52 := bits.isLt
      have happend : (1#1 ++ bits).toNat = 2 ^ 52 + bits.toNat := by
        rw [BitVec.toNat_append, ← Nat.shiftLeft_add_eq_or_of_lt bits.isLt, Nat.shiftLeft_eq]
        rfl
      rw [happend, Nat.log2_eq_iff (by omega)]
      exact .inl ⟨by omega, by omega⟩

/-! ### Integers from zero to the bound -/

theorem ofNat_eq (k : Nat) : ofNat k = floatOfNat k := by
  rw [ofNat, ofInt, decide_eq_false (Int.not_lt.2 (Int.natCast_nonneg k))]
  rfl

/-- A float from zero to `2 ^ 32` is zero, or it is positive and its point stands inside or before its
mantissa. -/
theorem unpack_of_bounds (hlow : 0 ≤ x) (hhigh : x < 4294967296) :
    (∃ s, x.toModel.unpack = .zero s) ∨
      ∃ m e, ∃ hm : 0 < m, x.toModel.unpack = .finite .positive m e hm ∧ e ≤ -21 := by
  have hle : UnpackedFloat.le (.zero .positive) x.toModel.unpack = true := of_decide_eq_true hlow
  have hlt : UnpackedFloat.lt x.toModel.unpack (.finite .positive (2 ^ 52) (-20) (by decide)) = true :=
    of_decide_eq_true hhigh
  have hfull {m : Nat} {e : Int} {hm : 0 < m} (h : x.toModel.unpack = .finite .positive m e hm) :
      m < 2 ^ 52 → e = -1074 := by
    intro hsmall
    obtain hlog | ⟨-, he⟩ := log2_of_unpack h
    · exact absurd (two_pow_le hlog hm) (by omega)
    · exact he
  generalize x.toModel.unpack = u at hle hlt hfull
  cases u with
  | notANumber => cases hle
  | infinity s => cases s <;> simp [UnpackedFloat.le, UnpackedFloat.lt, UnpackedFloat.compare] at hle hlt
  | zero s => exact .inl ⟨s, rfl⟩
  | finite s m e hm =>
    cases s with
    | negative => simp [UnpackedFloat.le, UnpackedFloat.compare] at hle
    | positive =>
      refine .inr ⟨m, e, hm, rfl, ?_⟩
      simp only [UnpackedFloat.lt, UnpackedFloat.compare, beq_iff_eq, Option.some.injEq,
        Ordering.then_eq_lt, Int.compare_eq_lt, Int.compare_eq_eq, Nat.compare_eq_lt] at hlt
      obtain hless | ⟨heq, hsmall⟩ := hlt
      · omega
      · have := hfull rfl hsmall
        omega

/-- The natural number below a float has its digits where the float has them. -/
theorem shiftOf_floorNat {hm : 0 < m} (h : x.toModel.unpack = .finite s m e hm) (he : e ≤ 0)
    (hk : 0 < Exact.floorNat m e) :
    m.log2 = 52 ∧ e = -(shiftOf (Exact.floorNat m e) : Int) ∧
      Exact.floorNat m e = m / 2 ^ shiftOf (Exact.floorNat m e) := by
  obtain ⟨j, rfl⟩ : ∃ j : Nat, e = -(j : Int) := ⟨(-e).toNat, by omega⟩
  have hfloor : Exact.floorNat m (-(j : Int)) = m / 2 ^ j := by
    unfold Exact.floorNat
    split
    · rw [show j = 0 by omega]
      simp
    · rw [Int.neg_neg, Int.toNat_natCast, Nat.shiftRight_eq_div_pow]
  rw [hfloor] at hk ⊢
  have hle : 2 ^ j ≤ m := (Nat.div_pos_iff.1 hk).2
  obtain hlog | ⟨hsmall, hj⟩ := log2_of_unpack h
  · have hj : j ≤ 52 := hlog ▸ (Nat.le_log2 (by omega)).2 hle
    have hdigits : (m / 2 ^ j).log2 = 52 - j := by
      rw [Nat.log2_eq_log_two, Nat.log_div_base_pow, ← Nat.log2_eq_log_two, hlog]
    have hshift : shiftOf (m / 2 ^ j) = j := by
      rw [shiftOf, hdigits]
      omega
    exact ⟨hlog, by rw [hshift], by rw [hshift]⟩
  · have := Nat.pow_le_pow_right (show 0 < 2 by omega) (show 52 ≤ j by omega)
    omega

theorem trunc_of_unpack {hm : 0 < m} (h : x.toModel.unpack = .finite .positive m e hm) (he : e < 0) :
    trunc x = floatOfNat (Exact.floorNat m e) := by
  rw [trunc, roundBy, Exact.ofFloat, h]
  simp only
  rw [if_neg (by omega)]
  rfl

theorem isIntegral_eq (x : Float) : isIntegral x = UnpackedFloat.beq (Float.Model.pack (UnpackedFloat.sub .binary64
    x.toModel.unpack (trunc x).toModel.unpack)).unpack (.zero .positive) := rfl

/-- A float with nothing after the point is not below one. -/
theorem floorNat_pos_of_isIntegral {hm : 0 < m} (h : x.toModel.unpack = .finite .positive m e hm) (he : e < 0)
    (hint : isIntegral x = true) : 0 < Exact.floorNat m e := by
  refine Nat.pos_of_ne_zero fun hzero => ?_
  rw [isIntegral_eq, trunc_of_unpack h he, hzero] at hint
  change UnpackedFloat.beq (Float.Model.pack (UnpackedFloat.sub .binary64 x.toModel.unpack
    (.zero .positive))).unpack (.zero .positive) = true at hint
  have hsub : UnpackedFloat.sub .binary64 x.toModel.unpack (.zero .positive) = x.toModel.unpack := by
    rw [h]
    rfl
  rw [hsub, unpack_pack_unpack, h] at hint
  cases hint

/-- A float with nothing after the point is the natural number below it. -/
theorem eq_floatOfNat_of_isIntegral {hm : 0 < m} (h : x.toModel.unpack = .finite .positive m e hm) (he : e < 0)
    (hint : isIntegral x = true) : x = floatOfNat (Exact.floorNat m e) := by
  have hk := floorNat_pos_of_isIntegral h he hint
  obtain ⟨hlog, hshift, hfloor⟩ := shiftOf_floorNat h (by omega) hk
  rw [isIntegral_eq, trunc_of_unpack h he] at hint
  generalize Exact.floorNat m e = k at hk hshift hfloor hint ⊢
  have hlt : k < 2 ^ 53 := by
    have := Nat.div_le_self m (2 ^ shiftOf k)
    have := lt_two_pow hlog hm
    omega
  have hrest : (m : Int) - (k * 2 ^ shiftOf k : Nat) = (m % 2 ^ shiftOf k : Nat) := by
    have := Nat.div_add_mod' m (2 ^ shiftOf k)
    rw [← hfloor] at this
    omega
  have hsub : UnpackedFloat.sub .binary64 x.toModel.unpack (floatOfNat k).toModel.unpack =
      UnpackedFloat.normalize .binary64 (m % 2 ^ shiftOf k : Nat) e .positive := by
    rw [h, unpack_floatOfNat hk hlt, normalNat, ← hshift]
    simp only [UnpackedFloat.sub, decreaseExponent, Int.min_self, Int.sub_self, Int.toNat_zero,
      Nat.shiftLeft_zero, Sign.apply, hrest]
  rw [hsub] at hint
  obtain hzero | hpos := Nat.eq_zero_or_pos (m % 2 ^ shiftOf k)
  · refine eq_of_unpack ?_
    have hwhole : m = k * 2 ^ shiftOf k := by omega
    rw [h, unpack_floatOfNat hk hlt, normalNat]
    simp only [hwhole, hshift]
  · have hsmall : m % 2 ^ shiftOf k < 2 ^ 53 := (Nat.mod_le m _).trans_lt (lt_two_pow hlog hm)
    have hbound := shiftOf_le k
    have hbound' := shiftOf_le (m % 2 ^ shiftOf k)
    have hround : UnpackedFloat.normalize .binary64 (m % 2 ^ shiftOf k : Nat) e .positive =
        UnpackedFloat.round .binary64 .positive (m % 2 ^ shiftOf k) e := by
      rw [UnpackedFloat.normalize, Int.compare_eq_gt.2 (by omega)]
      rfl
    have hlast := unpack_pack (e := e - shiftOf (m % 2 ^ shiftOf k)) (log2_shifted hpos hsmall) (shifted_pos hpos)
      (by omega) (by omega) .positive
    rw [hround, round_shifted hpos hsmall (by omega)] at hint
    change UnpackedFloat.beq (unpack .binary64 (pack .binary64 _)) _ = true at hint
    rw [hlast] at hint
    cases hint

/-- A float from zero to `2 ^ 32` with nothing after the point equals the natural number it is cut to. -/
theorem beq_clampNat (hint : isIntegral x = true) (hlow : 0 ≤ x) (hhigh : x < 4294967296) :
    clampNat 32 x < 2 ^ 32 ∧ (x == ofNat (clampNat 32 x)) = true := by
  obtain ⟨s, h⟩ | ⟨m, e, hm, h, he⟩ := unpack_of_bounds hlow hhigh
  · have hclamp : clampNat 32 x = 0 := by
      rw [clampNat, clampInt, Exact.ofFloat, h]
      cases s <;> rfl
    rw [hclamp]
    refine ⟨by omega, ?_⟩
    change UnpackedFloat.beq x.toModel.unpack (.zero .positive) = true
    rw [h]
    cases s <;> rfl
  · have hk := floorNat_pos_of_isIntegral h (by omega) hint
    obtain ⟨hlog, hshift, hfloor⟩ := shiftOf_floorNat h (by omega) hk
    have hx := eq_floatOfNat_of_isIntegral h (by omega) hint
    generalize Exact.floorNat m e = k at hk hshift hfloor hx
    have hlt : k < 2 ^ 32 := by
      have hmul : k * 2 ^ shiftOf k ≤ m := (Nat.le_div_iff_mul_le (Nat.two_pow_pos _)).1 hfloor.le
      have hpow : k * 2 ^ 21 ≤ k * 2 ^ shiftOf k :=
        Nat.mul_le_mul_left k (Nat.pow_le_pow_right (by omega) (by omega))
      have := lt_two_pow hlog hm
      omega
    rw [hx, clampNat_floatOfNat hk hlt, ofNat_eq]
    refine ⟨hlt, beq_self ?_⟩
    rw [sign?, unpack_floatOfNat hk (by omega)]
    simp [normalNat, signOf]

theorem beq_ofNat (hlt : k < 2 ^ 32) : (ofNat k == ofNat k) = true := by
  obtain rfl | hk := Nat.eq_zero_or_pos k
  · rfl
  · refine beq_self ?_
    rw [ofNat_eq, sign?, unpack_floatOfNat hk (by omega)]
    simp [normalNat, signOf]

theorem zero_le_floatOfNat (hk : 0 < k) (hlt : k < 2 ^ 53) : 0 ≤ floatOfNat k := by
  refine decide_eq_true ?_
  change UnpackedFloat.le (.zero .positive) (floatOfNat k).toModel.unpack = true
  rw [unpack_floatOfNat hk hlt]
  rfl

/-- A float that equals a natural number has nothing after the point and is cut to that number. -/
theorem isIntegral_of_beq (hlt : k < 2 ^ 32) (h : (x == ofNat k) = true) :
    (isIntegral x = true ∧ 0 ≤ x ∧ x < 4294967296) ∧ clampNat 32 x = k := by
  obtain ⟨-, -, heq⟩ := Float.beq_iff_ne_nan_and_eq.1 h
  obtain rfl | hk := Nat.eq_zero_or_pos k
  · have hzero : ofNat 0 = 0 := rfl
    have hx : x = 0 ∨ x = -0 := by
      rw [hzero] at heq
      tauto
    obtain rfl | rfl := hx <;> exact ⟨⟨by decide, by decide, by decide⟩, by decide⟩
  · have hpos := zero_lt_floatOfNat hk (by omega)
    have hne : ofNat k ≠ 0 ∧ ofNat k ≠ -0 := by
      rw [ofNat_eq]
      constructor <;> intro hbad <;> rw [hbad] at hpos <;> exact absurd hpos (by decide)
    have hx : x = floatOfNat k := by
      rw [← ofNat_eq]
      tauto
    rw [hx]
    exact ⟨⟨isIntegral_floatOfNat hk (by omega), zero_le_floatOfNat hk (by omega), floatOfNat_lt hk hlt⟩,
      clampNat_floatOfNat hk hlt⟩

end Spreadsheet.Number
