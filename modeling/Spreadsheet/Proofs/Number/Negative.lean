import Spreadsheet.Proofs.Number.Natural

/-!
Negative numbers. A minus changes the sign bit of a float and nothing else, so it may be taken before or after a
division, and taken twice it does nothing.
-/

namespace Spreadsheet.Number

open Float.Model (UnpackedFloat Format)
open Float.Model.UnpackedFloat

variable {x y : Float}

/-! ### Packing -/

/-- Bits that only differ in their sign stand for floats that only differ in their sign. -/
theorem unpack_components_neg (s : Sign) (e : BitVec 11) (m : BitVec 52) :
    unpack .binary64 (packComponents .binary64 (-s) e m) = (unpack .binary64 (packComponents .binary64 s e m)).neg := by
  unfold unpack
  simp only [unpackMantissa_packComponents, unpackExponent_packComponents, sign_components]
  split
  · split <;> rfl
  · split
    · split <;> rfl
    · rfl

theorem unpack_pack_neg (u : UnpackedFloat) :
    unpack .binary64 (pack .binary64 u.neg) = (unpack .binary64 (pack .binary64 u)).neg := by
  cases u with
  | notANumber => rfl
  | infinity s => exact unpack_components_neg s _ _
  | zero s => exact unpack_components_neg s _ _
  | finite s m e hm =>
    simp only [neg, pack]
    split
    · exact unpack_components_neg s _ _
    · split <;> exact unpack_components_neg s _ _

theorem unpack_neg (x : Float) : (-x).toModel.unpack = x.toModel.unpack.neg :=
  (unpack_pack_neg _).trans (congrArg neg (unpack_pack_unpack x))

/-! ### Operations -/

theorem neg_neg (x : Float) : - -x = x := by
  refine eq_of_unpack ?_
  rw [unpack_neg, unpack_neg]
  have hsign (s : Sign) : - -s = s := by cases s <;> rfl
  cases x.toModel.unpack <;> simp [neg, hsign]

theorem div_neg_unpacked (u v : UnpackedFloat) : div .binary64 u.neg v = (div .binary64 u v).neg := by
  have hsign (s s' : Sign) : -s / s' = -(s / s') := by cases s <;> cases s' <;> rfl
  cases u <;> cases v <;> simp only [neg, div, hsign]
  rw [roundWithAccuracy, roundWithAccuracy]
  simp only
  split <;> rfl

theorem neg_div (x y : Float) : -x / y = -(x / y) := by
  refine eq_of_unpack ?_
  rw [unpack_neg]
  change unpack .binary64 (pack .binary64 (div .binary64 (-x).toModel.unpack y.toModel.unpack)) = _
  rw [unpack_neg, div_neg_unpacked]
  exact unpack_pack_neg _

theorem isFinite_neg (x : Float) : (-x).isFinite = x.isFinite := by
  change (-x).toModel.unpack.isFinite = x.toModel.unpack.isFinite
  rw [unpack_neg]
  cases x.toModel.unpack <;> rfl

/-! ### Order -/

theorem lt_zero_iff : x < 0 ↔ UnpackedFloat.lt x.toModel.unpack (.zero .positive) = true := decide_eq_true_iff

theorem zero_lt_iff : 0 < x ↔ UnpackedFloat.lt (.zero .positive) x.toModel.unpack = true := decide_eq_true_iff

theorem neg_lt_zero (h : 0 < x) : -x < 0 ∧ ¬0 < -x := by
  rw [zero_lt_iff] at h
  rw [lt_zero_iff, zero_lt_iff, unpack_neg]
  cases hu : x.toModel.unpack with
  | notANumber => simp [hu, UnpackedFloat.lt, UnpackedFloat.compare] at h
  | infinity s =>
    cases s with
    | negative => simp [hu, UnpackedFloat.lt, UnpackedFloat.compare] at h
    | positive => exact ⟨rfl, Bool.false_ne_true⟩
  | zero s => cases s <;> simp [hu, UnpackedFloat.lt, UnpackedFloat.compare] at h
  | finite s m e hm =>
    cases s with
    | negative => simp [hu, UnpackedFloat.lt, UnpackedFloat.compare] at h
    | positive => exact ⟨rfl, Bool.false_ne_true⟩

end Spreadsheet.Number
