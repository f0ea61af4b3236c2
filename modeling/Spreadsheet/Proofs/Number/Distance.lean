import Spreadsheet.Proofs.Number.Negative
import Spreadsheet.Proofs.Number.Value

/-!
Distances of floats. The distance of two floats is the rounded distance of their values, or infinite where numbers end.
So distances from one float are in a linear order, and rounding may make two of them equal but never turns their order
round.
-/

namespace Spreadsheet.Number

open Float.Model (UnpackedFloat Format)
open Float.Model.UnpackedFloat

variable {x y t : Float} {u u' : UnpackedFloat} {v v' w w' : ℚ} {m m' : ℕ} {e e' E : ℤ} {a b : WithTop ℚ}

/-! ### Order -/

/-- A greater exponent makes a greater value, whatever the mantissas are. -/
theorem Canonical.lt_of_lt (h : Canonical m e) (h' : Canonical m' e') (hlt : e < e') :
    (m : ℚ) * 2 ^ e < m' * 2 ^ e' := by
  have hm : (m : ℚ) < 2 ^ (53 : ℤ) := by exact_mod_cast h.lt
  have hm' : (2 : ℚ) ^ (52 : ℤ) ≤ m' := by
    have hleast := h.least
    exact_mod_cast h'.full.resolve_left (by omega)
  calc (m : ℚ) * 2 ^ e < 2 ^ (53 : ℤ) * 2 ^ e := mul_lt_mul_of_pos_right hm (two_zpow_pos e)
    _ = 2 ^ (53 + e) := (zpow_add₀ two_ne_zero ..).symm
    _ ≤ 2 ^ (52 + e') := zpow_le_zpow_right₀ one_le_two (by omega)
    _ = 2 ^ (52 : ℤ) * 2 ^ e' := zpow_add₀ two_ne_zero ..
    _ ≤ m' * 2 ^ e' := mul_le_mul_of_nonneg_right hm' (two_zpow_pos e').le

/-- An unpacked float that is not below zero, with what it measures. Infinity is beyond all values. -/
inductive Measures : UnpackedFloat → WithTop ℚ → Prop where
  /-- A zero of either sign. -/
  | zero (s : Sign) : Measures (.zero s) ((0 : ℚ) : WithTop ℚ)
  /-- A canonical mantissa. -/
  | finite {m : ℕ} {e : ℤ} (h : Canonical m e) :
      Measures (.finite .positive m e h.pos) ((m * 2 ^ e : ℚ) : WithTop ℚ)
  /-- The infinity above all numbers. -/
  | infinity : Measures (.infinity .positive) ⊤

theorem Measures.lt_iff (h : Measures u a) (h' : Measures u' b) : u.compare u' = some .lt ↔ a < b := by
  cases h with
  | zero s =>
    cases h' with
    | zero s' => simp [UnpackedFloat.compare]
    | finite h' =>
      rw [WithTop.coe_lt_coe]
      exact iff_of_true rfl (magnitude_pos h'.pos _)
    | infinity => exact iff_of_true rfl (WithTop.coe_lt_top _)
  | @finite m e h =>
    cases h' with
    | zero s' =>
      rw [WithTop.coe_lt_coe]
      exact iff_of_false (by simp [UnpackedFloat.compare]) (not_lt.2 (magnitude_nonneg m e))
    | @finite m' e' h' =>
      rw [WithTop.coe_lt_coe, UnpackedFloat.compare, Option.some.injEq]
      rcases lt_trichotomy e e' with he | rfl | he
      · rw [Int.compare_eq_lt.2 he]
        exact iff_of_true rfl (h.lt_of_lt h' he)
      · rw [Int.compare_eq_eq.2 rfl, mul_lt_mul_iff_left₀ (two_zpow_pos e), Nat.cast_lt]
        exact Nat.compare_eq_lt
      · rw [Int.compare_eq_gt.2 he]
        exact iff_of_false (by simp [Ordering.then]) (not_lt.2 (h'.lt_of_lt h he).le)
    | infinity => exact iff_of_true rfl (WithTop.coe_lt_top _)
  | infinity =>
    refine iff_of_false ?_ not_top_lt
    cases h' <;> simp [UnpackedFloat.compare]

/-! ### Numbers that are too great -/

/-- A value as a float has it: where numbers end it is beyond all values. -/
def limited (w : ℚ) : WithTop ℚ := if w < 2 ^ (1024 : ℤ) then w else ⊤

theorem limited_mono (h : w ≤ w') : limited w ≤ limited w' := by
  unfold limited
  split
  · split
    · exact WithTop.coe_le_coe.2 h
    · exact le_top
  · rename_i hw
    rw [if_neg fun hlt => hw (h.trans_lt hlt)]

theorem unpack_pack_infinite (h : Canonical m e) (he : 971 < e) (s : Sign) :
    unpack .binary64 (pack .binary64 (.finite s m e h.pos)) = .infinity s := by
  have hgreat : 2 ^ Format.binary64.exponentBits ≤ (e + 1075).toNat + 1 := by
    change 2048 ≤ _
    omega
  rw [pack]
  simp only [toNat_biased e]
  rw [if_pos hgreat]
  cases s <;> rfl

/-- What is packed measures its value as far as numbers go. -/
theorem measures_pack (h : Canonical m e) (s : Sign) :
    Measures (unpack .binary64 (pack .binary64 (.finite s m e h.pos))).abs (limited (m * 2 ^ e)) := by
  by_cases he : e ≤ 971
  · rw [(Stands.finite s h he).unpack_pack, limited, if_pos]
    · exact .finite h
    · have hm : (m : ℚ) < 2 ^ (53 : ℤ) := by exact_mod_cast h.lt
      calc (m : ℚ) * 2 ^ e < 2 ^ (53 : ℤ) * 2 ^ e := mul_lt_mul_of_pos_right hm (two_zpow_pos e)
        _ = 2 ^ (53 + e) := (zpow_add₀ two_ne_zero ..).symm
        _ ≤ 2 ^ (1024 : ℤ) := zpow_le_zpow_right₀ one_le_two (by omega)
  · rw [unpack_pack_infinite h (not_le.1 he), limited, if_neg]
    · exact .infinity
    · have hm : (2 : ℚ) ^ (52 : ℤ) ≤ m := by exact_mod_cast h.full.resolve_left (by omega)
      rw [not_lt]
      calc (2 : ℚ) ^ (1024 : ℤ) ≤ 2 ^ (52 + e) := zpow_le_zpow_right₀ one_le_two (by omega)
        _ = 2 ^ (52 : ℤ) * 2 ^ e := zpow_add₀ two_ne_zero ..
        _ ≤ m * 2 ^ e := mul_le_mul_of_nonneg_right hm (two_zpow_pos e).le

/-! ### Differences -/

theorem unpack_abs (x : Float) : x.abs.toModel.unpack = x.toModel.unpack.abs := by
  have hsign : x.toModel.unpack.abs = x.toModel.unpack ∨ x.toModel.unpack.abs = x.toModel.unpack.neg := by
    cases x.toModel.unpack with
    | notANumber => exact .inl rfl
    | infinity s | zero s | finite s m e hm =>
      cases s
      · exact .inr rfl
      · exact .inl rfl
  change unpack .binary64 (pack .binary64 x.toModel.unpack.abs) = _
  rcases hsign with habs | habs
  · rw [habs]
    exact unpack_pack_unpack x
  · rw [habs, unpack_pack_neg]
    exact congrArg neg (unpack_pack_unpack x)

/-- What is rounded is canonical, and its value is rounded. -/
theorem round_rounded {M : ℕ} (hM : 0 < M) (hE : -1074 ≤ E) (s : Sign) : ∃ m e, ∃ h : Canonical m e,
    UnpackedFloat.round .binary64 s M E = .finite s m e h.pos ∧ Rounded (M * 2 ^ E) (m * 2 ^ e) := by
  obtain ⟨M', E', hM', hvalue, hE', hround⟩ := round_eq hM E s
  have hleast : (2 : ℚ) ^ (-1074 : ℤ) ≤ M * 2 ^ E := by
    have hone : (1 : ℚ) ≤ M := by exact_mod_cast hM
    exact (zpow_le_zpow_right₀ one_le_two hE).trans (le_mul_of_one_le_left (two_zpow_pos E).le hone)
  obtain ⟨m, e, hm, hfinite, h, -, hrounded⟩ := roundWithAccuracy_rounded hM' hE' (by rwa [hvalue]) s
  rw [hvalue] at hrounded
  exact ⟨m, e, h, hround.trans hfinite, hrounded⟩

theorem measures_round {M : ℕ} (hM : 0 < M) (hE : -1074 ≤ E) (s : Sign) : ∃ w, Rounded (M * 2 ^ E) w ∧
    Measures (unpack .binary64 (pack .binary64 (UnpackedFloat.round .binary64 s M E))).abs (limited w) := by
  obtain ⟨m, e, h, hround, hrounded⟩ := round_rounded hM hE s
  rw [hround]
  exact ⟨_, hrounded, measures_pack h _⟩

/-- An integer at an exponent that floats have is rounded, whatever its sign is. -/
theorem measures_normalize (z : ℤ) (hE : -1074 ≤ E) : ∃ w, Rounded |z * 2 ^ E| w ∧
    Measures (unpack .binary64 (pack .binary64 (normalize .binary64 z E .positive))).abs (limited w) := by
  rw [abs_mul, abs_of_pos (two_zpow_pos E), UnpackedFloat.normalize]
  rcases lt_trichotomy z 0 with hz | rfl | hz
  · have hcast : (((-z).toNat : ℕ) : ℚ) = |(z : ℚ)| := by
      rw [abs_of_neg (by exact_mod_cast hz)]
      exact_mod_cast Int.toNat_of_nonneg (by omega)
    rw [Int.compare_eq_lt.2 hz, ← hcast]
    exact measures_round (by omega) hE .negative
  · refine ⟨0, by simpa using rounded_zero, ?_⟩
    have hzero : (unpack .binary64 (pack .binary64 (.zero .positive))).abs = .zero .positive := rfl
    rw [Int.compare_eq_eq.2 rfl, limited, if_pos (two_zpow_pos _)]
    simp only [hzero]
    exact .zero .positive
  · have hcast : ((z.toNat : ℕ) : ℚ) = |(z : ℚ)| := by
      rw [abs_of_pos (by exact_mod_cast hz)]
      exact_mod_cast Int.toNat_of_nonneg hz.le
    rw [Int.compare_eq_gt.2 hz, ← hcast]
    exact measures_round (by omega) hE .positive

theorem Canonical.rounded (h : Canonical m e) (he : e ≤ 971) : Rounded (m * 2 ^ e) (m * 2 ^ e) :=
  Stands.rounded (by simpa [Sign.apply] using Stands.finite .positive h he) (magnitude_nonneg m e)

theorem abs_apply (s : Sign) (m : ℕ) (e : ℤ) : |(s.apply m : ℚ) * 2 ^ e| = m * 2 ^ e := by
  rw [abs_mul, abs_of_pos (two_zpow_pos e)]
  cases s <;> simp [Sign.apply]

/-- The distance of two floats is the rounded distance of their values. -/
theorem measures_sub (h : Stands u v) (h' : Stands u' v') : ∃ w, Rounded |v - v'| w ∧
    Measures (unpack .binary64 (pack .binary64 (UnpackedFloat.sub .binary64 u u'))).abs (limited w) := by
  cases h with
  | zero s =>
    cases h' with
    | zero s' =>
      refine ⟨0, by simpa using rounded_zero, ?_⟩
      rw [limited, if_pos (two_zpow_pos _), UnpackedFloat.sub]
      split
      · cases s <;> exact .zero _
      · exact .zero _
    | @finite s' m e h' he =>
      rw [zero_sub, abs_neg, abs_apply]
      exact ⟨_, h'.rounded he, measures_pack h' _⟩
  | @finite s m e h he =>
    cases h' with
    | zero s' =>
      rw [sub_zero, abs_apply]
      exact ⟨_, h.rounded he, measures_pack h _⟩
    | @finite s' m' e' h' he' =>
      have hleast := h.least
      have hleast' := h'.least
      rw [← apply_shiftLeft_value (min_le_left e e'), ← apply_shiftLeft_value (min_le_right e e'), ← sub_mul,
        ← Int.cast_sub]
      exact measures_normalize _ (by omega)

/-! ### Distances -/

theorem exists_measures_distance (hx : x.isFinite = true) (ht : t.isFinite = true) :
    ∃ w, Rounded |value x - value t| w ∧ Measures (x - t).abs.toModel.unpack (limited w) := by
  obtain ⟨w, hw, hmeasures⟩ := measures_sub (stands_value hx) (stands_value ht)
  refine ⟨w, hw, ?_⟩
  rw [unpack_abs]
  exact hmeasures

theorem lt_iff_of_measures (hx : Measures x.toModel.unpack a) (hy : Measures y.toModel.unpack b) :
    x < y ↔ a < b :=
  (decide_eq_true_iff.trans beq_iff_eq).trans (hx.lt_iff hy)

/-- What is not nearer has no lesser distance: rounding keeps the order, or makes distances equal. -/
theorem not_distance_lt (hx : x.isFinite = true) (hy : y.isFinite = true) (ht : t.isFinite = true)
    (hle : |value x - value t| ≤ |value y - value t|) : ¬(y - t).abs < (x - t).abs := by
  obtain ⟨w, hw, hmeasures⟩ := exists_measures_distance hx ht
  obtain ⟨w', hw', hmeasures'⟩ := exists_measures_distance hy ht
  rw [lt_iff_of_measures hmeasures' hmeasures, not_lt]
  exact limited_mono (hw.mono hw' (abs_nonneg _) hle)

/-- How far a finite number is from what is not finite, which is the same for all of them. -/
def beyond : UnpackedFloat → UnpackedFloat
  | .notANumber => .notANumber
  | _ => .infinity .positive

theorem abs_sub_eq_beyond (hu : u.isFinite = true) (hu' : ¬u'.isFinite = true) :
    (unpack .binary64 (pack .binary64 (UnpackedFloat.sub .binary64 u u'))).abs = beyond u' := by
  cases u' with
  | notANumber =>
    have hnone : UnpackedFloat.sub .binary64 u .notANumber = .notANumber := by cases u <;> rfl
    rw [hnone]
    rfl
  | infinity s =>
    have hsub : UnpackedFloat.sub .binary64 u (.infinity s) = .infinity (-s) := by
      cases u with
      | notANumber | infinity s' => simp [UnpackedFloat.isFinite] at hu
      | zero s' | finite s' m e hm => rfl
    rw [hsub]
    cases s <;> rfl
  | zero s | finite s m e hm => exact absurd rfl hu'

/-- All finite numbers are equally far from an infinity, and from what is no number. -/
theorem not_distance_lt_of_not_isFinite (hx : x.isFinite = true) (hy : y.isFinite = true)
    (ht : ¬t.isFinite = true) : ¬(x - t).abs < (y - t).abs := by
  have hdistance (z : Float) (hz : z.isFinite = true) :
      (z - t).abs.toModel.unpack = beyond t.toModel.unpack := by
    rw [unpack_abs]
    exact abs_sub_eq_beyond hz ht
  intro hlt
  have hcompare : (x - t).abs.toModel.unpack.compare (y - t).abs.toModel.unpack = some .lt :=
    (decide_eq_true_iff.trans beq_iff_eq).1 hlt
  rw [hdistance x hx, hdistance y hy] at hcompare
  cases hu : t.toModel.unpack <;> rw [hu] at hcompare <;> cases hcompare

/-- The distances of finite numbers from a number are in a linear order, even if that one is infinite or no number. -/
theorem exists_rank (t : Float) : ∃ rank : Float → WithTop ℚ, ∀ x y : Float, x.isFinite = true → y.isFinite = true →
    ((x - t).abs < (y - t).abs ↔ rank x < rank y) := by
  by_cases ht : t.isFinite = true
  · have hmeasures (x : Float) : ∃ a, x.isFinite = true → Measures (x - t).abs.toModel.unpack a := by
      by_cases hx : x.isFinite = true
      · obtain ⟨w, -, hw⟩ := exists_measures_distance hx ht
        exact ⟨limited w, fun _ => hw⟩
      · exact ⟨⊤, fun hfinite => absurd hfinite hx⟩
    choose rank hrank using hmeasures
    exact ⟨rank, fun x y hx hy => lt_iff_of_measures (hrank x hx) (hrank y hy)⟩
  · exact ⟨fun _ => ⊤, fun x y hx hy => iff_of_false (not_distance_lt_of_not_isFinite hx hy ht) (lt_irrefl _)⟩

end Spreadsheet.Number
