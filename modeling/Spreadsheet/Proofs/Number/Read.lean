import Mathlib
import Spreadsheet.Number.Decimal

/-!
Signs of the numbers that are read from digits. Packing a float keeps its sign, and what is no number stays
none; so a number read from digits has the sign that was written, and it equals itself.
-/

namespace Spreadsheet.Number

open Float.Model (UnpackedFloat Format)
open Float.Model.UnpackedFloat

/-! ### Packing -/

/-- The sign of an unpacked float, unless it is no number. -/
def signOf : UnpackedFloat → Option Sign
  | .notANumber => none
  | .infinity s | .zero s | .finite s _ _ _ => some s

theorem sign_components {s : Sign} {e : BitVec 11} {m : BitVec 52} :
    Sign.ofBitVec (unpackSign (packComponents .binary64 s e m)) = s := by
  simp only [unpackSign, packComponents, BitVec.extractLsb]
  rw [BitVec.extractLsb'_append_eq_of_le (by omega), BitVec.extractLsb'_append_eq_of_le (by omega)]
  cases s <;> rfl

/-- Bits whose exponent is not all ones stand for a number with the sign they show. -/
theorem signOf_unpack_components {s : Sign} {e : BitVec 11} {m : BitVec 52} (he : e ≠ -1#_) :
    signOf (unpack .binary64 (packComponents .binary64 s e m)) = some s := by
  rw [unpack]
  simp only [unpackMantissa_packComponents, unpackExponent_packComponents, sign_components]
  rw [if_neg he]
  split
  · split <;> rfl
  · rfl

theorem signOf_unpack_pack (u : UnpackedFloat) : signOf (unpack .binary64 (pack .binary64 u)) = signOf u := by
  cases u with
  | notANumber => rfl
  | infinity s => cases s <;> rfl
  | zero s => cases s <;> rfl
  | finite s m e hm =>
    rw [pack]
    simp only
    split
    · cases s <;> rfl
    · rename_i hexponent
      split
      · refine signOf_unpack_components fun heq => ?_
        have h := congrArg BitVec.toNat heq
        simp only [BitVec.toNat_ofNat] at h
        simp at h
        omega
      · exact signOf_unpack_components (by decide)

/-! ### Operations -/

/-- Whether an unpacked float is finite, not zero and has no minus. -/
def isPositive : UnpackedFloat → Bool
  | .finite .positive _ _ _ => true
  | _ => false

theorem sign_mul_positive (s : Sign) : s * .positive = s := by cases s <;> rfl

theorem sign_div_positive (s : Sign) : s / .positive = s := by cases s <;> rfl

theorem signOf_roundWithAccuracy (spec : Format) (s : Sign) (m : Nat) (e : Int) (a : Accuracy) :
    signOf (roundWithAccuracy spec s m e a) = some s := by
  rw [roundWithAccuracy]
  simp only
  split <;> rfl

theorem signOf_mul (spec : Format) (u : UnpackedFloat) {v : UnpackedFloat} (hv : isPositive v = true) :
    signOf (mul spec u v) = signOf u := by
  unfold isPositive at hv
  split at hv
  · cases u with
    | notANumber => rfl
    | infinity s => exact congrArg some (sign_mul_positive s)
    | zero s => exact congrArg some (sign_mul_positive s)
    | finite s m e hm =>
      rw [mul, signOf_roundWithAccuracy, sign_mul_positive]
      rfl
  · cases hv

theorem signOf_div (spec : Format) (u : UnpackedFloat) {v : UnpackedFloat} (hv : isPositive v = true) :
    signOf (div spec u v) = signOf u := by
  unfold isPositive at hv
  split at hv
  · cases u with
    | notANumber => rfl
    | infinity s => exact congrArg some (sign_div_positive s)
    | zero s => exact congrArg some (sign_div_positive s)
    | finite s m e hm =>
      rw [div]
      simp only
      rw [signOf_roundWithAccuracy, sign_div_positive]
      rfl
  · cases hv

theorem signOf_ofNat (spec : Format) (n : Nat) : signOf (UnpackedFloat.ofNat spec n) = some .positive := by
  rw [UnpackedFloat.ofNat, UnpackedFloat.ofInt, UnpackedFloat.normalize]
  split
  · rename_i h
    rw [Int.compare_eq_lt] at h
    omega
  · rfl
  · exact signOf_roundWithAccuracy _ _ _ _ _

theorem signOf_ofScientific (spec : Format) (m : Nat) (e : Int) :
    signOf (ofScientific spec m e) = some .positive := by
  unfold ofScientific
  split
  · rfl
  · split
    · rfl
    · split
      · rfl
      · split
        · rw [signOf_mul _ _ rfl]
          rfl
        · rw [signOf_div _ _ rfl]
          rfl

/-! ### Numbers -/

/-- The sign of a number; there is none when it is no number at all. -/
def sign? (x : Float) : Option Sign := signOf x.toModel.unpack

theorem sign?_pack (u : UnpackedFloat) : sign? (.ofModel (.pack u)) = signOf u :=
  signOf_unpack_pack u

theorem sign?_div {x y : Float} (hy : isPositive y.toModel.unpack = true) : sign? (x / y) = sign? x :=
  (sign?_pack _).trans (signOf_div _ _ hy)

theorem sign?_mul {x y : Float} (hy : isPositive y.toModel.unpack = true) : sign? (x * y) = sign? x :=
  (sign?_pack _).trans (signOf_mul _ _ hy)

theorem sign?_neg (x : Float) : sign? (-x) = (sign? x).map fun s => -s := by
  refine (sign?_pack _).trans ?_
  unfold sign?
  cases x.toModel.unpack <;> rfl

/-- A part of a hundred has the sign of the whole. -/
theorem sign?_percent (x : Float) : sign? (x / 100) = sign? x :=
  sign?_div rfl

theorem isPositive_powerOfTen : ∀ e : Fin 23, isPositive
    ((getElem Float.exactlyRepresentablePowersOfTen e.val
      (by simp [Float.exactlyRepresentablePowersOfTen])).toModel.unpack) = true := by
  decide

theorem sign?_ofScientific (m : Nat) (negative : Bool) (e : Nat) :
    sign? (Float.ofScientific m negative e) = some .positive := by
  have hnat : sign? m.toUInt64.toFloat = some .positive := (sign?_pack _).trans (signOf_ofNat _ _)
  unfold Float.ofScientific
  split
  · rename_i h
    have hpower := isPositive_powerOfTen ⟨e, by omega⟩
    simp only
    split
    · rw [sign?_div hpower, hnat]
    · rw [sign?_mul hpower, hnat]
  · exact (sign?_pack _).trans (signOf_ofScientific _ _ _)

/-- A number read from digits has the sign that was written. -/
theorem sign?_ofDecimal (negative : Bool) (c : Nat) (p : Int) :
    sign? (ofDecimal negative c p) = some (Exact.sign negative) := by
  have hmagnitude (x : Float) (hx : sign? x = some .positive) :
      sign? (if negative then -x else x) = some (Exact.sign negative) := by
    cases negative with
    | false => exact hx
    | true => exact (sign?_neg x).trans (by rw [hx]; rfl)
  unfold ofDecimal
  refine hmagnitude _ ?_
  split
  · rfl
  · split
    · exact sign?_pack _
    · split <;> exact sign?_ofScientific _ _ _

/-- What is a number equals itself. -/
theorem beq_self {x : Float} (hx : sign? x ≠ none) : (x == x) = true := by
  change UnpackedFloat.beq x.toModel.unpack x.toModel.unpack = true
  unfold sign? at hx
  unfold UnpackedFloat.beq
  cases hu : x.toModel.unpack with
  | notANumber =>
    rw [hu] at hx
    exact absurd rfl hx
  | infinity s => cases s <;> rfl
  | zero s => cases s <;> rfl
  | finite s m e hm =>
    cases s <;> simp [UnpackedFloat.compare, Std.ReflCmp.compare_self]

end Spreadsheet.Number
