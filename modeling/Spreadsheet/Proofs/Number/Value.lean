import Spreadsheet.Proofs.Number.Nearest

/-!
The values of floats, as rational numbers. Near a value the floats stand on a grid, whose spacing is a power of two.
What is rounded goes to the nearest point of this grid; so whatever lies on the grid is kept, and rounding never gets
past it. Differences and products are the rounded differences and products of the values; what is rounded to integers,
and what is cut to them, is exact.
-/

namespace Spreadsheet.Number

open Float.Model (UnpackedFloat Format totalExponent)
open Float.Model.UnpackedFloat

variable {x y : Float} {u u' : UnpackedFloat} {v v' w w' : ℚ} {m n M : ℕ} {e k E : ℤ} {s : Sign}
  {em : ExtendedMantissa}

/-! ### The grid -/

/-- The exponent of the spacing of floats around a positive value. -/
def lastPlace (v : ℚ) : ℤ := max (Int.log 2 v - 52) (-1074)

/-- The value on the grid around another one that is nearest to it. Of two that are equally near it is the even one. -/
structure Rounded (v w : ℚ) : Prop where
  grid : ∃ r : ℤ, w = r * 2 ^ lastPlace v ∧ (|w - v| = 2 ^ lastPlace v / 2 → Even r)
  near : |w - v| ≤ 2 ^ lastPlace v / 2

theorem two_zpow_pos (k : ℤ) : (0 : ℚ) < 2 ^ k := zpow_pos two_pos k

theorem magnitude_nonneg (m : ℕ) (e : ℤ) : (0 : ℚ) ≤ m * 2 ^ e := mul_nonneg (Nat.cast_nonneg m) (two_zpow_pos e).le

theorem magnitude_pos (hm : 0 < m) (e : ℤ) : (0 : ℚ) < m * 2 ^ e := mul_pos (Nat.cast_pos.2 hm) (two_zpow_pos e)

/-- Multiples of a power of two are multiples of each lesser one. -/
theorem multiple_of_le (h : k ≤ e) (n : ℤ) : ∃ r : ℤ, (n : ℚ) * 2 ^ e = r * 2 ^ k := by
  obtain ⟨j, rfl⟩ : ∃ j : ℕ, e = k + j := ⟨(e - k).toNat, by omega⟩
  refine ⟨n * 2 ^ j, ?_⟩
  rw [zpow_add₀ two_ne_zero, zpow_natCast]
  push_cast
  ring

/-- Rounding does not get below a point of the grid. -/
theorem Rounded.le_of_grid (h : Rounded v w) {n : ℤ} (hle : n * 2 ^ lastPlace v ≤ v) : n * 2 ^ lastPlace v ≤ w := by
  obtain ⟨⟨r, rfl, -⟩, hnear⟩ := h
  have hpow := two_zpow_pos (lastPlace v)
  have hlow := (abs_le.1 hnear).1
  refine mul_le_mul_of_nonneg_right ?_ hpow.le
  by_contra hlt
  have hstep : (r : ℚ) + 1 ≤ n := by exact_mod_cast Int.add_one_le_of_lt (by exact_mod_cast not_le.1 hlt)
  have := mul_le_mul_of_nonneg_right hstep hpow.le
  linarith

/-- Rounding does not get above a point of the grid. -/
theorem Rounded.ge_of_grid (h : Rounded v w) {n : ℤ} (hle : v ≤ n * 2 ^ lastPlace v) : w ≤ n * 2 ^ lastPlace v := by
  obtain ⟨⟨r, rfl, -⟩, hnear⟩ := h
  have hpow := two_zpow_pos (lastPlace v)
  have hhigh := (abs_le.1 hnear).2
  refine mul_le_mul_of_nonneg_right ?_ hpow.le
  by_contra hlt
  have hstep : (n : ℚ) + 1 ≤ r := by exact_mod_cast Int.add_one_le_of_lt (by exact_mod_cast not_le.1 hlt)
  have := mul_le_mul_of_nonneg_right hstep hpow.le
  linarith

theorem Rounded.le_of_multiple (h : Rounded v w) (hk : lastPlace v ≤ k) {n : ℤ} (hle : n * 2 ^ k ≤ v) :
    n * 2 ^ k ≤ w := by
  obtain ⟨r, hr⟩ := multiple_of_le hk n
  rw [hr] at hle ⊢
  exact h.le_of_grid hle

theorem Rounded.ge_of_multiple (h : Rounded v w) (hk : lastPlace v ≤ k) {n : ℤ} (hle : v ≤ n * 2 ^ k) :
    w ≤ n * 2 ^ k := by
  obtain ⟨r, hr⟩ := multiple_of_le hk n
  rw [hr] at hle ⊢
  exact h.ge_of_grid hle

/-- What has few digits after the point is kept. -/
theorem Rounded.eq_of_multiple (h : Rounded v w) (hk : lastPlace v ≤ k) {n : ℤ} (hv : v = n * 2 ^ k) : w = v :=
  le_antisymm (hv ▸ h.ge_of_multiple hk hv.le) (hv ▸ h.le_of_multiple hk hv.ge)

theorem Rounded.nonneg (h : Rounded v w) (hv : 0 ≤ v) : 0 ≤ w := by
  simpa using h.le_of_grid (n := 0) (by simpa using hv)

/-- Zero is kept. -/
theorem Rounded.eq_zero (h : Rounded 0 w) : w = 0 :=
  h.eq_of_multiple le_rfl (n := 0) (by simp)

/-- What lies on the grid is rounded to itself. -/
theorem rounded_self {r : ℤ} (h : v = r * 2 ^ lastPlace v) : Rounded v v := by
  have hhalf := half_pos (two_zpow_pos (lastPlace v))
  constructor
  · exact ⟨r, h, fun htie => absurd htie (by simpa using hhalf.ne)⟩
  · simpa using hhalf.le

theorem rounded_zero : Rounded 0 0 := rounded_self (r := 0) (by simp)

theorem lastPlace_least (v : ℚ) : -1074 ≤ lastPlace v := le_max_right _ _

/-- A value has at most 53 digits before its last place, and just as many above the least floats. -/
theorem lastPlace_spec (hv : 0 < v) :
    v < 2 ^ 53 * 2 ^ lastPlace v ∧ (lastPlace v = -1074 ∨ 2 ^ 52 * 2 ^ lastPlace v ≤ v) := by
  have hlow : (2 : ℚ) ^ Int.log 2 v ≤ v := by exact_mod_cast Int.zpow_log_le_self one_lt_two hv
  have hhigh : v < 2 ^ (Int.log 2 v + 1) := by exact_mod_cast Int.lt_zpow_succ_log_self one_lt_two v
  have hplace : Int.log 2 v - 52 ≤ lastPlace v := le_max_left _ _
  have hbits {b : ℕ} (k : ℤ) : (2 : ℚ) ^ b * 2 ^ k = 2 ^ (b + k) := by
    rw [zpow_add₀ two_ne_zero, zpow_natCast]
  rw [hbits, hbits]
  constructor
  · exact hhigh.trans_le (zpow_le_zpow_right₀ one_le_two (by push_cast; omega))
  · rcases max_choice (Int.log 2 v - 52) (-1074) with hmax | hmax <;> rw [← lastPlace] at hmax
    · refine .inr ((zpow_le_zpow_right₀ one_le_two ?_).trans hlow)
      push_cast
      omega
    · exact .inl hmax

theorem lastPlace_le_of_lt (hv : 0 < v) (hlt : v < 2 ^ k) (hk : -1021 ≤ k) : lastPlace v ≤ k - 53 := by
  have hlog : Int.log 2 v < k := (Int.lt_zpow_iff_log_lt one_lt_two hv).1 (by exact_mod_cast hlt)
  unfold lastPlace
  omega

/-- Above the least floats the spacing is a small part of the value. -/
theorem two_zpow_lastPlace_le (hv : 0 < v) : (2 : ℚ) ^ lastPlace v ≤ v / 2 ^ 52 + 2 ^ (-1074 : ℤ) := by
  have hlog : (2 : ℚ) ^ Int.log 2 v ≤ v := by exact_mod_cast Int.zpow_log_le_self one_lt_two hv
  have hleast := two_zpow_pos (-1074)
  rcases max_choice (Int.log 2 v - 52) (-1074) with hmax | hmax <;> rw [lastPlace, hmax]
  · have hbits : (2 : ℚ) ^ (52 : ℤ) = 2 ^ 52 := by norm_num
    have hdiv := div_le_div_of_nonneg_right hlog (show (0 : ℚ) ≤ 2 ^ 52 by positivity)
    rw [zpow_sub₀ two_ne_zero, hbits]
    linarith
  · have : 0 ≤ v / 2 ^ 52 := by positivity
    linarith

theorem Rounded.bounds (h : Rounded v w) (hv : 0 ≤ v) :
    v - v / 2 ^ 53 - 2 ^ (-1075 : ℤ) ≤ w ∧ w ≤ v + v / 2 ^ 53 + 2 ^ (-1075 : ℤ) := by
  rcases hv.eq_or_lt with rfl | hpos
  · have := two_zpow_pos (-1075)
    rw [h.eq_zero]
    constructor <;> linarith
  · obtain ⟨hlow, hhigh⟩ := abs_le.1 h.near
    have hplace := two_zpow_lastPlace_le hpos
    have hhalf : (2 : ℚ) ^ (-1074 : ℤ) = 2 * 2 ^ (-1075 : ℤ) := by
      rw [show (-1074 : ℤ) = 1 + -1075 by norm_num, zpow_add₀ two_ne_zero, zpow_one]
    constructor <;> linarith

theorem lastPlace_mono (hv : 0 < v) (hle : v ≤ v') : lastPlace v ≤ lastPlace v' :=
  max_le_max_right _ (Int.sub_le_sub_right (Int.log_mono_right hv hle) _)

/-- On one grid rounding keeps the order, since only one of two neighbours is even. -/
theorem Rounded.mono_of_lastPlace_eq (h : Rounded v w) (h' : Rounded v' w') (hplace : lastPlace v = lastPlace v')
    (hle : v ≤ v') : w ≤ w' := by
  obtain ⟨⟨r, hr, hties⟩, hnear⟩ := h
  obtain ⟨⟨r', hr', hties'⟩, hnear'⟩ := h'
  have hpow := two_zpow_pos (lastPlace v)
  rw [← hplace] at hr' hties' hnear'
  have hhigh := (abs_le.1 hnear).2
  have hlow := (abs_le.1 hnear').1
  by_contra hlt
  rw [not_le, hr, hr'] at hlt
  have hstep : r' + 1 ≤ r := by exact_mod_cast lt_of_mul_lt_mul_right hlt hpow.le
  have hstep' : (r' : ℚ) + 1 ≤ r := by exact_mod_cast hstep
  have hstep' := mul_le_mul_of_nonneg_right hstep' hpow.le
  rw [add_mul, one_mul, ← hr, ← hr'] at hstep'
  have heven := hties (by rw [abs_of_nonneg (by linarith)]; linarith)
  have heven' := hties' (by rw [abs_of_nonpos (by linarith)]; linarith)
  have hnext : r < r' + 2 := by
    have hbound : (r : ℚ) < r' + 2 := lt_of_mul_lt_mul_right (by linarith) hpow.le
    exact_mod_cast hbound
  obtain ⟨a, rfl⟩ := heven
  obtain ⟨b, rfl⟩ := heven'
  omega

/-- Rounding keeps the order: where the spacing changes, a power of two stands between the two values. -/
theorem Rounded.mono (h : Rounded v w) (h' : Rounded v' w') (hv : 0 ≤ v) (hle : v ≤ v') : w ≤ w' := by
  rcases hv.eq_or_lt with rfl | hpos
  · rw [h.eq_zero]
    exact h'.nonneg hle
  rcases (lastPlace_mono hpos hle).eq_or_lt with hplace | hplace
  · exact h.mono_of_lastPlace_eq h' hplace hle
  · have hleast := lastPlace_least v
    have hbelow := (lastPlace_spec hpos).1
    have habove := (lastPlace_spec (hpos.trans_le hle)).2.resolve_left (by omega)
    have hboundary : (2 : ℚ) ^ 53 * 2 ^ lastPlace v ≤ 2 ^ 52 * 2 ^ lastPlace v' := by
      have hle := zpow_le_zpow_right₀ (one_le_two : (1 : ℚ) ≤ 2) hplace
      rw [Int.add_comm, zpow_add₀ two_ne_zero] at hle
      linarith
    obtain ⟨b, hb⟩ : ∃ b : ℤ, (b : ℚ) = 2 ^ 52 := ⟨2 ^ 52, by norm_num⟩
    rw [← hb] at habove hboundary
    exact (h.ge_of_multiple hplace.le (hbelow.le.trans hboundary)).trans (h'.le_of_grid habove)

/-! ### Rounded mantissas -/

/-- The rounded mantissa is at most a half away, and even if it is just that. -/
theorem Represents.roundedMantissa_near {x : ℚ} (h : Represents em x) :
    |(em.roundedMantissa : ℚ) - x| ≤ 1 / 2 ∧ (|(em.roundedMantissa : ℚ) - x| = 1 / 2 → Even em.roundedMantissa) := by
  obtain ⟨m, round, sticky⟩ := em
  have hlt {r : ℕ} (hlow : -(1 / 2) < r - x) (hhigh : r - x < 1 / 2) :
      |(r : ℚ) - x| ≤ 1 / 2 ∧ (|(r : ℚ) - x| = 1 / 2 → Even r) := by
    have hless := abs_lt.2 ⟨hlow, hhigh⟩
    exact ⟨hless.le, fun htie => absurd htie hless.ne⟩
  cases round <;> cases sticky <;> simp only [Represents] at h
  · exact hlt (r := m) (by linarith) (by linarith)
  · exact hlt (r := m) (by linarith) (by linarith)
  · -- half way between two mantissas
    change |((m + m % 2 : ℕ) : ℚ) - x| ≤ 1 / 2 ∧ (_ → Even (m + m % 2))
    have hparity : ((m % 2 : ℕ) : ℚ) ≤ 1 := by exact_mod_cast Nat.le_of_lt_succ (Nat.mod_lt m two_pos)
    have hnonneg : (0 : ℚ) ≤ (m % 2 : ℕ) := Nat.cast_nonneg _
    rw [abs_le, Nat.even_iff]
    push_cast at hparity hnonneg ⊢
    exact ⟨⟨by linarith, by linarith⟩, fun _ => by omega⟩
  · exact hlt (r := m + 1) (by push_cast; linarith) (by push_cast; linarith)

/-- The exponent that rounding aims at is that of the last place. -/
theorem targetExponent_eq_lastPlace (hM : 0 < M) :
    Format.binary64.targetExponent (totalExponent M E) = lastPlace (M * 2 ^ E) := by
  have hpos := magnitude_pos hM E
  obtain ⟨hlow, hhigh⟩ := log2_bounds hM (le_refl (M : ℚ)) (lt_add_one _) E
  have hlog : Int.log 2 ((M : ℚ) * 2 ^ E) = M.log2 + E := by
    refine le_antisymm ?_ ?_
    · have := (Int.lt_zpow_iff_log_lt one_lt_two hpos).1 (by exact_mod_cast hhigh)
      omega
    · exact (Int.zpow_le_iff_le_log one_lt_two hpos).1 (by exact_mod_cast hlow)
  rw [targetExponent_binary64, totalExponent, lastPlace, hlog]
  omega

/-- A mantissa that is cut at the last place, and what it is rounded to. -/
theorem exists_roundedMantissa (hM : 0 < M) (hE : E ≤ lastPlace (M * 2 ^ E)) :
    ∃ j : ℕ, lastPlace (M * 2 ^ E) = E + j ∧
      Rounded (M * 2 ^ E) ((ExtendedMantissa.ofMantissaAndAccuracy M .exact >>> j).roundedMantissa *
        2 ^ lastPlace (M * 2 ^ E)) := by
  obtain ⟨j, hj⟩ : ∃ j : ℕ, lastPlace (M * 2 ^ E) = E + j := ⟨(lastPlace (M * 2 ^ E) - E).toNat, by omega⟩
  obtain ⟨hnear, hties⟩ := ((represents_exact M).shiftRight j).roundedMantissa_near
  have hpow := two_zpow_pos (lastPlace (M * 2 ^ E))
  have hunits : (M : ℚ) * 2 ^ E = M / 2 ^ j * 2 ^ lastPlace (M * 2 ^ E) := by
    rw [hj, zpow_add₀ two_ne_zero, zpow_natCast]
    field_simp
  refine ⟨j, hj, ?_⟩
  generalize (ExtendedMantissa.ofMantissaAndAccuracy M .exact >>> j).roundedMantissa = r at hnear hties ⊢
  have hdistance : |(r : ℚ) * 2 ^ lastPlace (M * 2 ^ E) - M * 2 ^ E| =
      |(r : ℚ) - M / 2 ^ j| * 2 ^ lastPlace (M * 2 ^ E) := by
    rw [← abs_of_pos hpow, ← abs_mul, sub_mul, abs_of_pos hpow, ← hunits]
  have hhalf : (2 : ℚ) ^ lastPlace (M * 2 ^ E) / 2 = 1 / 2 * 2 ^ lastPlace (M * 2 ^ E) := by ring
  refine ⟨⟨r, congrArg (· * _) (Int.cast_natCast _).symm, fun htie => ?_⟩, ?_⟩
  · rw [hdistance, hhalf, mul_left_inj' hpow.ne'] at htie
    exact_mod_cast hties htie
  · rw [hdistance, hhalf]
    exact mul_le_mul_of_nonneg_right hnear hpow.le

/-- The mantissa that a value is rounded to is full, unless the value is one of the least, and is not longer by more
than one digit. -/
theorem Rounded.mantissa_bounds {r : ℕ} (h : Rounded v (r * 2 ^ lastPlace v)) (hleast : 2 ^ (-1074 : ℤ) ≤ v) :
    0 < r ∧ r ≤ 2 ^ 53 ∧ (lastPlace v = -1074 ∨ 2 ^ 52 ≤ r) := by
  have hpow := two_zpow_pos (lastPlace v)
  obtain ⟨hbelow, habove⟩ := lastPlace_spec ((two_zpow_pos _).trans_le hleast)
  obtain ⟨hlow, hhigh⟩ := abs_le.1 h.near
  have hfull (hv : 2 ^ 52 * 2 ^ lastPlace v ≤ v) : 2 ^ 52 ≤ r := by
    have hle := h.le_of_grid (n := 2 ^ 52) (by exact_mod_cast hv)
    have hle := le_of_mul_le_mul_right hle hpow
    exact_mod_cast hle
  refine ⟨?_, ?_, habove.imp_right hfull⟩
  · rcases habove with hplace | hv
    · have hle := h.le_of_grid (n := 1) (by rw [hplace]; simpa using hleast)
      have hle := le_of_mul_le_mul_right hle hpow
      exact_mod_cast hle
    · have := hfull hv
      omega
  · have hlt : (r : ℚ) < 2 ^ 53 + 1 := lt_of_mul_lt_mul_right (by linarith) hpow.le
    exact Nat.lt_succ_iff.1 (by exact_mod_cast hlt)

/-- Rounding gives a canonical float that stands for a rounded value. -/
theorem roundWithAccuracy_rounded (hM : 0 < M) (hE : E ≤ lastPlace (M * 2 ^ E))
    (hleast : 2 ^ (-1074 : ℤ) ≤ (M : ℚ) * 2 ^ E) (s : Sign) :
    ∃ m e, ∃ hm : 0 < m, roundWithAccuracy .binary64 s M E .exact = .finite s m e hm ∧ Canonical m e ∧
      e ≤ lastPlace (M * 2 ^ E) + 1 ∧ Rounded (M * 2 ^ E) (m * 2 ^ e) := by
  obtain ⟨j, hj, hrounded⟩ := exists_roundedMantissa hM hE
  have htarget := targetExponent_eq_lastPlace (E := E) hM
  have hshift : shiftToTargetExponent .binary64 M E .exact = _ := shiftToTargetExponent_eq (htarget.trans hj)
  have hplace := lastPlace_least (M * 2 ^ E)
  obtain ⟨hpos, hlong, hfull⟩ := hrounded.mantissa_bounds hleast
  -- the second shift drops the last bit of a mantissa that has become too long
  suffices hfinal : ∃ m e, Canonical m e ∧ e ≤ lastPlace (M * 2 ^ E) + 1 ∧
      ((ExtendedMantissa.ofMantissaAndAccuracy M .exact >>> j).roundedMantissa * 2 ^ lastPlace (M * 2 ^ E) : ℚ) =
        m * 2 ^ e ∧
      shiftToTargetExponent .binary64 (ExtendedMantissa.ofMantissaAndAccuracy M .exact >>> j).roundedMantissa (E + j)
        .exact = (⟨m, false, false⟩, e) by
    obtain ⟨m, e, hcanonical, he, hvalue, hagain⟩ := hfinal
    refine ⟨m, e, hcanonical.pos, ?_, hcanonical, he, hvalue ▸ hrounded⟩
    rw [roundWithAccuracy]
    simp only [hshift, hagain]
    exact dif_neg hcanonical.pos.ne'
  generalize (ExtendedMantissa.ofMantissaAndAccuracy M .exact >>> j).roundedMantissa = r at hpos hlong hfull ⊢
  rw [hj] at hplace hfull ⊢
  rcases hlong.lt_or_eq with hlt | rfl
  · have hcanonical : Canonical r (E + j) := ⟨hpos, hlt, hplace, hfull⟩
    exact ⟨r, E + j, hcanonical, by omega, rfl, hcanonical.shift_eq⟩
  · refine ⟨2 ^ 52, E + j + 1, ⟨by positivity, by norm_num, by omega, .inr le_rfl⟩, le_rfl, ?_, ?_⟩
    · rw [zpow_add_one₀ two_ne_zero (E + j)]
      push_cast
      ring
    · have hdrop := shiftToTargetExponent_exact (m := 2 ^ 52) (e := E + j + 1) (Nat.log2_two_pow) (by positivity)
        (by omega) 1
      simpa using hdrop

/-! ### Unpacked floats -/

/-- The value of what a float stands for; what is no number, or not finite, counts as zero. -/
def Exact.value : Exact → ℚ
  | .finite negative m e => signed negative m * 2 ^ e
  | _ => 0

/-- The value of a number. -/
def value (x : Float) : ℚ := (Exact.ofFloat x).value

/-- An unpacked float that is one of the finite floats, with its value. -/
inductive Stands : UnpackedFloat → ℚ → Prop where
  /-- A zero of either sign. -/
  | zero (s : Sign) : Stands (.zero s) 0
  /-- A canonical mantissa at an exponent that is not too great. -/
  | finite (s : Sign) {m : ℕ} {e : ℤ} (h : Canonical m e) (he : e ≤ 971) :
      Stands (.finite s m e h.pos) (s.apply m * 2 ^ e)

theorem signed_isNegative (s : Sign) (n : ℕ) : Exact.signed (Exact.isNegative s) n = s.apply n := by
  cases s <;> rfl

theorem Stands.value_eq (h : Stands x.toModel.unpack v) : value x = v := by
  unfold value Exact.ofFloat
  generalize x.toModel.unpack = u at h
  cases h with
  | zero s => cases s <;> simp [Exact.value, Exact.signed]
  | finite s hm he => exact congrArg (fun n : ℤ => (n : ℚ) * _) (signed_isNegative s _)

theorem stands_value (hx : x.isFinite = true) : Stands x.toModel.unpack (value x) := by
  suffices hstands : ∃ v, Stands x.toModel.unpack v by
    obtain ⟨v, h⟩ := hstands
    rwa [h.value_eq]
  change x.toModel.unpack.isFinite = true at hx
  cases hu : x.toModel.unpack with
  | notANumber => simp [hu, UnpackedFloat.isFinite] at hx
  | infinity s => simp [hu, UnpackedFloat.isFinite] at hx
  | zero s => exact ⟨0, .zero s⟩
  | finite s m e hm => exact ⟨_, .finite s (canonical_of_unpack hu) (exponent_of_unpack hu).2⟩

/-- A mantissa that is not full is unpacked as it was packed. -/
theorem unpack_pack_subnormal (hm : 0 < m) (hlt : m < 2 ^ 52) (s : Sign) :
    unpack .binary64 (pack .binary64 (.finite s m (-1074) hm)) = .finite s m (-1074) hm := by
  have hlog : m.log2 < 52 := (Nat.log2_lt hm.ne').2 hlt
  have hbits : (BitVec.ofNat 52 m).toNat = m := by
    rw [BitVec.toNat_ofNat]
    exact Nat.mod_eq_of_lt hlt
  have hne : BitVec.ofNat 52 m ≠ 0#52 := by
    intro hzero
    rw [hzero] at hbits
    exact hm.ne hbits
  have hbiased : (-1074 + (Format.binary64.exponentBias : ℤ) + Format.binary64.mantissaBitsWithoutImplicit).toNat = 1 :=
    rfl
  have hfull : ¬m.log2 + 1 = Format.binary64.mantissaBits := by
    change ¬m.log2 + 1 = 53
    omega
  have hexponent :
      ((0#11).toNat : ℤ) - (Format.binary64.exponentBias + Format.binary64.mantissaBitsWithoutImplicit) + 1 = -1074 := rfl
  rw [pack]
  simp only [hbiased]
  rw [if_neg (by decide), if_neg hfull, unpack]
  simp only [unpackMantissa_packComponents, unpackExponent_packComponents, sign_components]
  rw [if_neg (by decide), if_pos trivial, dif_neg hne]
  simp only [hbits, hexponent]

theorem Stands.unpack_pack (h : Stands u v) : unpack .binary64 (pack .binary64 u) = u := by
  cases h with
  | zero s => cases s <;> rfl
  | @finite s m e hm he =>
    by_cases hfull : 2 ^ 52 ≤ m
    · have hlog : m.log2 = 52 := le_antisymm hm.log2_le ((Nat.le_log2 hm.pos.ne').2 hfull)
      exact Number.unpack_pack hlog hm.pos hm.least he s
    · obtain rfl := hm.full.resolve_right hfull
      exact unpack_pack_subnormal hm.pos (not_le.1 hfull) s

/-! ### Rounded values -/

theorem shiftLeft_value (h : e ≤ E) (M : ℕ) : ((M <<< (E - e).toNat : ℕ) : ℚ) * 2 ^ e = M * 2 ^ E := by
  obtain ⟨j, rfl⟩ : ∃ j : ℕ, E = e + j := ⟨(E - e).toNat, by omega⟩
  rw [show (e + j - e).toNat = j by omega, Nat.shiftLeft_eq, zpow_add₀ two_ne_zero, zpow_natCast]
  push_cast
  ring

theorem apply_eq (s : Sign) (n : ℤ) : s.apply n = s.apply 1 * n := by
  cases s <;> simp [Sign.apply]

/-- A positive value that is neither too small nor too great is rounded to a float. -/
theorem stands_roundWithAccuracy (hM : 0 < M) (hE : E ≤ lastPlace (M * 2 ^ E))
    (hleast : 2 ^ (-1074 : ℤ) ≤ (M : ℚ) * 2 ^ E) (hmost : (M : ℚ) * 2 ^ E < 2 ^ (1023 : ℤ)) (s : Sign) :
    ∃ w, Rounded (M * 2 ^ E) w ∧ Stands (roundWithAccuracy .binary64 s M E .exact) (s.apply 1 * w) := by
  obtain ⟨m, e, hm, hround, hcanonical, he, hrounded⟩ := roundWithAccuracy_rounded hM hE hleast s
  have hplace := lastPlace_le_of_lt ((two_zpow_pos _).trans_le hleast) hmost (by norm_num)
  refine ⟨m * 2 ^ e, hrounded, ?_⟩
  rw [hround, ← mul_assoc, ← Int.cast_natCast m, ← Int.cast_mul, ← apply_eq]
  exact .finite s hcanonical (by omega)

/-- What is rounded is first written with an exponent that is not too great. -/
theorem round_eq (hM : 0 < M) (E : ℤ) (s : Sign) : ∃ M' : ℕ, ∃ E' : ℤ, 0 < M' ∧ (M' : ℚ) * 2 ^ E' = M * 2 ^ E ∧
    E' ≤ lastPlace (M' * 2 ^ E') ∧
    UnpackedFloat.round .binary64 s M E = roundWithAccuracy .binary64 s M' E' .exact := by
  have htarget := targetExponent_eq_lastPlace (E := E) hM
  rw [UnpackedFloat.round]
  simp only [htarget, decreaseExponent]
  generalize hj : (E - lastPlace (M * 2 ^ E)).toNat = j
  have hvalue : ((M <<< j : ℕ) : ℚ) * 2 ^ (E - j) = M * 2 ^ E := by
    have h := shiftLeft_value (show E - j ≤ E by omega) M
    rwa [show (E - (E - j : ℤ)).toNat = j by omega] at h
  have hpos : 0 < M <<< j := by
    rw [Nat.shiftLeft_eq]
    positivity
  exact ⟨M <<< j, E - j, hpos, hvalue, by rw [hvalue]; omega, rfl⟩

theorem stands_round (hM : 0 < M) (hleast : 2 ^ (-1074 : ℤ) ≤ (M : ℚ) * 2 ^ E)
    (hmost : (M : ℚ) * 2 ^ E < 2 ^ (1023 : ℤ)) (s : Sign) :
    ∃ w, Rounded (M * 2 ^ E) w ∧ Stands (UnpackedFloat.round .binary64 s M E) (s.apply 1 * w) := by
  obtain ⟨M', E', hM', hvalue, hE', hround⟩ := round_eq hM E s
  rw [← hvalue] at hleast hmost ⊢
  rw [hround]
  exact stands_roundWithAccuracy hM' hE' hleast hmost s

/-- A positive natural number of few digits is a float. -/
theorem stands_round_nat (hn : 0 < n) (hlt : n < 2 ^ 53) (s : Sign) :
    Stands (UnpackedFloat.round .binary64 s n 0) (s.apply n) := by
  have hone : (1 : ℚ) ≤ n := by exact_mod_cast hn
  have hless : (n : ℚ) < 2 ^ (53 : ℤ) := by exact_mod_cast hlt
  have hpow : (2 : ℚ) ^ (53 : ℤ) ≤ 2 ^ (1023 : ℤ) := zpow_le_zpow_right₀ one_le_two (by norm_num)
  have hleast : (2 : ℚ) ^ (-1074 : ℤ) ≤ 2 ^ (0 : ℤ) := zpow_le_zpow_right₀ one_le_two (by norm_num)
  rw [zpow_zero] at hleast
  obtain ⟨w, hw, hstands⟩ :=
    stands_round (E := 0) hn (by simpa using hleast.trans hone) (by simpa using hless.trans_le hpow) s
  rw [zpow_zero, mul_one] at hw
  have hplace := lastPlace_le_of_lt (one_pos.trans_le hone) hless (by norm_num)
  obtain rfl : w = n := hw.eq_of_multiple (k := 0) (by omega) (n := n) (by simp)
  rwa [apply_eq, Int.cast_mul, Int.cast_natCast]

/-- An integer of few digits is a float. -/
theorem stands_toFloat (hlt : n < 2 ^ 53) (negative : Bool) :
    Stands (Exact.toFloat (.finite negative n 0)).toModel.unpack (Exact.signed negative n) := by
  rw [Exact.toFloat]
  split
  · rename_i hn
    subst hn
    have h : Stands (.zero (Exact.sign negative)) (Exact.signed negative 0) := by
      cases negative <;> simpa [Exact.signed] using Stands.zero _
    change Stands (unpack .binary64 (pack .binary64 _)) _
    rwa [h.unpack_pack]
  · rename_i hn
    have h := stands_round_nat (Nat.pos_of_ne_zero hn) hlt (Exact.sign negative)
    change Stands (unpack .binary64 (pack .binary64 _)) _
    rw [h.unpack_pack]
    cases negative <;> exact h

/-! ### Differences and products -/

theorem Stands.neg (h : Stands u v) : Stands u.neg (-v) := by
  cases h with
  | zero s =>
    rw [neg_zero]
    exact .zero (-s)
  | @finite s m e hm he =>
    have hsign : -s.apply (m : ℤ) = (-s).apply m := by
      cases s
      · exact Int.neg_neg _
      · rfl
    rw [← neg_mul, ← Int.cast_neg, hsign]
    exact .finite (-s) hm he

/-- A float whose value is not negative is a zero or has the positive sign. -/
theorem Stands.of_nonneg (h : Stands u v) (hv : 0 ≤ v) : (∃ s, u = .zero s ∧ v = 0) ∨
    ∃ m e, ∃ hm : Canonical m e, u = .finite .positive m e hm.pos ∧ v = m * 2 ^ e := by
  cases h with
  | zero s => exact .inl ⟨s, rfl, rfl⟩
  | @finite s m e hm he =>
    cases s with
    | positive => exact .inr ⟨m, e, hm, rfl, rfl⟩
    | negative =>
      have hpos := magnitude_pos hm.pos e
      simp only [Sign.apply, Int.cast_neg, Int.cast_natCast] at hv
      linarith

/-- A float stands on the grid around its own value. -/
theorem Stands.rounded (h : Stands u v) (hv : 0 ≤ v) : Rounded v v := by
  obtain ⟨-, -, rfl⟩ | ⟨m, e, hm, -, rfl⟩ := h.of_nonneg hv
  · exact rounded_zero
  · have hplace : lastPlace (m * 2 ^ e) = e := by rw [← targetExponent_eq_lastPlace hm.pos, hm.targetExponent_eq]
    exact rounded_self (r := m) (by rw [hplace, Int.cast_natCast])

/-- The digits of a float stop 52 places after its first one. -/
theorem Stands.multiple_of_le {k : ℤ} (h : Stands u v) (hle : 2 ^ k ≤ |v|) : ∃ n : ℤ, v = n * 2 ^ (k - 52) := by
  cases h with
  | zero s =>
    rw [abs_zero] at hle
    exact absurd (two_zpow_pos k) (not_lt.2 hle)
  | @finite s m e hm he =>
    have habs : |(s.apply m : ℚ) * 2 ^ e| = m * 2 ^ e := by
      rw [abs_mul, abs_of_pos (two_zpow_pos e)]
      cases s <;> simp [Sign.apply]
    have hlt : (m : ℚ) < 2 ^ (53 : ℤ) := by exact_mod_cast hm.lt
    have hbits := hle.trans_lt (habs ▸ mul_lt_mul_of_pos_right hlt (two_zpow_pos e))
    rw [← zpow_add₀ two_ne_zero, zpow_lt_zpow_iff_right₀ one_lt_two] at hbits
    exact Number.multiple_of_le (by omega) _

theorem Stands.multiple_least (h : Stands u v) : ∃ n : ℤ, v = n * 2 ^ (-1074 : ℤ) := by
  cases h with
  | zero s => exact ⟨0, by simp⟩
  | finite s hm he => exact Number.multiple_of_le hm.least _

/-- An integer at an exponent that floats have is rounded to a float. -/
theorem stands_normalize {z : ℤ} (hz : 0 ≤ z) (hE : -1074 ≤ E) (hmost : (z : ℚ) * 2 ^ E < 2 ^ (1023 : ℤ)) :
    ∃ w, Rounded (z * 2 ^ E) w ∧ Stands (normalize .binary64 z E .positive) w := by
  rw [UnpackedFloat.normalize]
  rcases hz.eq_or_lt with rfl | hpos
  · exact ⟨0, by simpa using rounded_zero, .zero _⟩
  · obtain ⟨M, rfl⟩ := Int.eq_ofNat_of_zero_le hz
    have hM : (1 : ℚ) ≤ M := by exact_mod_cast hpos
    have hleast : (2 : ℚ) ^ (-1074 : ℤ) ≤ M * 2 ^ E :=
      (zpow_le_zpow_right₀ one_le_two hE).trans (le_mul_of_one_le_left (two_zpow_pos E).le hM)
    obtain ⟨w, hw, hstands⟩ := stands_round (by exact_mod_cast hpos) hleast hmost .positive
    rw [Int.compare_eq_gt.2 hpos]
    exact ⟨w, hw, by simpa [Sign.apply] using hstands⟩

theorem apply_shiftLeft_value (h : e ≤ E) (s : Sign) (M : ℕ) :
    (s.apply (M <<< (E - e).toNat : ℕ) : ℚ) * 2 ^ e = s.apply M * 2 ^ E := by
  rw [apply_eq s M, apply_eq, Int.cast_mul, Int.cast_mul, mul_assoc, mul_assoc]
  exact congrArg _ (shiftLeft_value h M)

/-- A difference that is not negative is the rounded difference of the values. -/
theorem stands_sub (h : Stands u v) (h' : Stands u' v') (hle : v' ≤ v) (hmost : v - v' < 2 ^ (1023 : ℤ)) :
    ∃ w, Rounded (v - v') w ∧ Stands (UnpackedFloat.sub .binary64 u u') w := by
  cases h with
  | zero s =>
    rw [zero_sub]
    refine ⟨-v', h'.neg.rounded (by linarith), ?_⟩
    cases h' with
    | zero s' =>
      rw [neg_zero, UnpackedFloat.sub]
      split <;> exact .zero _
    | finite s' hm he => exact (Stands.finite s' hm he).neg
  | @finite s m e hm he =>
    cases h' with
    | zero s' =>
      have h := Stands.finite s hm he
      rw [sub_zero]
      exact ⟨_, h.rounded hle, h⟩
    | @finite s' m' e' hm' he' =>
      have hleast := hm.least
      have hleast' := hm'.least
      have hnonneg := sub_nonneg.2 hle
      rw [← apply_shiftLeft_value (min_le_left e e'), ← apply_shiftLeft_value (min_le_right e e'), ← sub_mul,
        ← Int.cast_sub] at hmost hnonneg ⊢
      refine stands_normalize ?_ (by omega) hmost
      exact_mod_cast nonneg_of_mul_nonneg_left hnonneg (two_zpow_pos _)

theorem Stands.sub (h : Stands x.toModel.unpack v) (h' : Stands y.toModel.unpack v') (hle : v' ≤ v)
    (hmost : v - v' < 2 ^ (1023 : ℤ)) : ∃ w, Rounded (v - v') w ∧ Stands (x - y).toModel.unpack w := by
  obtain ⟨w, hw, hstands⟩ := stands_sub h h' hle hmost
  refine ⟨w, hw, ?_⟩
  change Stands (unpack .binary64 (pack .binary64 _)) w
  rwa [hstands.unpack_pack]

/-- A float that is not less than one has a full mantissa. -/
theorem Canonical.full_of_one_le (h : Canonical m e) (hone : 1 ≤ (m : ℚ) * 2 ^ e) : 2 ^ 52 ≤ m := by
  refine h.full.resolve_left ?_
  rintro rfl
  have hlt : (m : ℚ) < 2 ^ (53 : ℤ) := by exact_mod_cast h.lt
  have hsmall := mul_lt_mul_of_pos_right hlt (two_zpow_pos (-1074))
  rw [← zpow_add₀ two_ne_zero] at hsmall
  have := zpow_le_one_of_nonpos₀ (one_le_two : (1 : ℚ) ≤ 2) (show (53 + -1074 : ℤ) ≤ 0 by norm_num)
  linarith

/-- The product of a value that is not negative and one that is at least one is the rounded product of the values. -/
theorem stands_mul (h : Stands u v) (h' : Stands u' v') (hv : 0 ≤ v) (hv' : 1 ≤ v') (hmost : v * v' < 2 ^ (1023 : ℤ)) :
    ∃ w, Rounded (v * v') w ∧ Stands (UnpackedFloat.mul .binary64 u u') w := by
  obtain ⟨-, -, rfl⟩ | ⟨m', e', hm', rfl, rfl⟩ := h'.of_nonneg (by linarith)
  · linarith
  obtain ⟨s, rfl, rfl⟩ | ⟨m, e, hm, rfl, rfl⟩ := h.of_nonneg hv
  · rw [zero_mul]
    exact ⟨0, rounded_zero, .zero _⟩
  have hpos : 0 < m * m' := Nat.mul_pos hm.pos hm'.pos
  have hlong : 52 ≤ (m * m').log2 :=
    (Nat.le_log2 hpos.ne').2 ((hm'.full_of_one_le hv').trans (Nat.le_mul_of_pos_left _ hm.pos))
  have hplace : e + e' ≤ lastPlace ((m * m' : ℕ) * 2 ^ (e + e')) := by
    rw [← targetExponent_eq_lastPlace hpos, targetExponent_binary64, totalExponent]
    omega
  have hleast : (2 : ℚ) ^ (-1074 : ℤ) ≤ m * 2 ^ e * (m' * 2 ^ e') :=
    calc (2 : ℚ) ^ (-1074 : ℤ) ≤ 2 ^ e := zpow_le_zpow_right₀ one_le_two hm.least
      _ ≤ m * 2 ^ e := le_mul_of_one_le_left (two_zpow_pos e).le (Nat.one_le_cast.2 hm.pos)
      _ ≤ m * 2 ^ e * (m' * 2 ^ e') := le_mul_of_one_le_right hv hv'
  have hvalue : (m : ℚ) * 2 ^ e * (m' * 2 ^ e') = (m * m' : ℕ) * 2 ^ (e + e') := by
    rw [zpow_add₀ two_ne_zero]
    push_cast
    ring
  rw [hvalue] at hleast hmost ⊢
  obtain ⟨w, hw, hstands⟩ := stands_roundWithAccuracy hpos hplace hleast hmost .positive
  rw [Sign.apply, Int.cast_one, one_mul] at hstands
  exact ⟨w, hw, hstands⟩

theorem Stands.mul (h : Stands x.toModel.unpack v) (h' : Stands y.toModel.unpack v') (hv : 0 ≤ v) (hv' : 1 ≤ v')
    (hmost : v * v' < 2 ^ (1023 : ℤ)) : ∃ w, Rounded (v * v') w ∧ Stands (x * y).toModel.unpack w := by
  obtain ⟨w, hw, hstands⟩ := stands_mul h h' hv hv' hmost
  refine ⟨w, hw, ?_⟩
  change Stands (unpack .binary64 (pack .binary64 _)) w
  rwa [hstands.unpack_pack]

/-! ### Integers -/

theorem value_shift (m j : ℕ) : (m : ℚ) * 2 ^ (-(j : ℤ)) = m / (2 ^ j : ℕ) := by
  rw [zpow_neg, zpow_natCast, Nat.cast_pow, Nat.cast_ofNat, div_eq_mul_inv]

theorem value_whole (m : ℕ) (he : 0 ≤ e) : (m : ℚ) * 2 ^ e = (m <<< e.toNat : ℕ) := by
  obtain ⟨j, rfl⟩ := Int.eq_ofNat_of_zero_le he
  rw [Int.toNat_natCast, Nat.shiftLeft_eq, zpow_natCast]
  push_cast
  rfl

theorem floorNat_eq (m : ℕ) (e : ℤ) : Exact.floorNat m e = ⌊(m : ℚ) * 2 ^ e⌋₊ := by
  unfold Exact.floorNat
  split
  · rename_i he
    rw [value_whole m he, Nat.floor_natCast]
  · obtain ⟨j, rfl⟩ : ∃ j : ℕ, e = -(j : ℤ) := ⟨(-e).toNat, by omega⟩
    rw [value_shift, Nat.floor_div_eq_div, Int.neg_neg, Int.toNat_natCast, Nat.shiftRight_eq_div_pow]

theorem roundNat_eq (m : ℕ) (e : ℤ) : Exact.roundNat m e = ⌊(m : ℚ) * 2 ^ e + 1 / 2⌋₊ := by
  unfold Exact.roundNat
  split
  · rename_i he
    rw [value_whole m he, add_comm, Nat.floor_add_natCast (by norm_num)]
    norm_num
  · obtain ⟨j, rfl⟩ : ∃ j : ℕ, e = -(j : ℤ) := ⟨(-e).toNat, by omega⟩
    have hhalf : (m : ℚ) / (2 ^ j : ℕ) + 1 / 2 = (2 * m + 2 ^ j : ℕ) / (2 ^ (j + 1) : ℕ) := by
      push_cast
      field_simp
      ring
    rw [value_shift, hhalf, Nat.floor_div_eq_div, Int.neg_neg, Int.toNat_natCast, Nat.shiftRight_eq_div_pow,
      Nat.one_shiftLeft]

theorem ceilNat_eq (m : ℕ) (e : ℤ) : Exact.ceilNat m e = ⌈(m : ℚ) * 2 ^ e⌉₊ := by
  unfold Exact.ceilNat
  split
  · rename_i he
    rw [value_whole m he, Nat.ceil_natCast]
  · obtain ⟨j, rfl⟩ : ∃ j : ℕ, e = -(j : ℤ) := ⟨(-e).toNat, by omega⟩
    rw [value_shift, Int.neg_neg, Int.toNat_natCast, Nat.shiftRight_eq_div_pow, Nat.one_shiftLeft]
    refine eq_of_forall_ge_iff fun c => ?_
    rw [Nat.ceil_le, div_le_iff₀ (by positivity), Nat.div_le_iff_le_mul_add_pred (Nat.two_pow_pos j),
      mul_comm (2 ^ j) c, Nat.add_le_add_iff_right]
    exact_mod_cast Iff.rfl

theorem exact_of_stands (h : Stands x.toModel.unpack v) :
    ∃ negative m e, Exact.ofFloat x = .finite negative m e ∧ v = Exact.signed negative m * 2 ^ e ∧ m < 2 ^ 53 := by
  unfold Exact.ofFloat
  generalize x.toModel.unpack = u at h
  cases h with
  | zero s => exact ⟨Exact.isNegative s, 0, 0, rfl, by cases s <;> simp [Exact.signed], by norm_num⟩
  | @finite s m e hm he => exact ⟨Exact.isNegative s, m, e, rfl, by rw [signed_isNegative], hm.lt⟩

/-- At an exponent below zero, rounding halves what it rounds at least. -/
theorem value_lt_half (hm : m < 2 ^ 53) (he : e < 0) : (m : ℚ) * 2 ^ e < 2 ^ 52 := by
  have hlt : (m : ℚ) < 2 ^ 53 := by exact_mod_cast hm
  have hpow : (2 : ℚ) ^ e ≤ 2 ^ (-1 : ℤ) := zpow_le_zpow_right₀ one_le_two (by omega)
  calc (m : ℚ) * 2 ^ e < 2 ^ 53 * 2 ^ e := mul_lt_mul_of_pos_right hlt (two_zpow_pos e)
    _ ≤ 2 ^ 53 * 2 ^ (-1 : ℤ) := mul_le_mul_of_nonneg_left hpow (by norm_num)
    _ = 2 ^ 52 := by norm_num

/-- A number without digits after the point is kept by all roundings to integers. -/
theorem stands_roundBy {f : Bool → ℕ → ℤ → ℕ} {z : ℤ} (h : Stands x.toModel.unpack v)
    (hwhole : ∀ k : ℤ, v = k → z = k)
    (hcut : ∀ negative m e, v = Exact.signed negative m * 2 ^ e → m < 2 ^ 53 → e < 0 →
      f negative m e < 2 ^ 53 ∧ Exact.signed negative (f negative m e) = z) :
    Stands (roundBy f x).toModel.unpack z := by
  obtain ⟨negative, m, e, hexact, hv, hm⟩ := exact_of_stands h
  unfold roundBy
  rw [hexact]
  simp only
  split
  · rename_i he
    obtain ⟨j, rfl⟩ := Int.eq_ofNat_of_zero_le he
    have hk : v = (Exact.signed negative m * 2 ^ j : ℤ) := by
      rw [hv, zpow_natCast]
      push_cast
      rfl
    rwa [hwhole _ hk, ← hk]
  · rename_i he
    obtain ⟨hlt, hsigned⟩ := hcut negative m e hv hm (not_le.1 he)
    rw [← hsigned]
    exact stands_toFloat hlt negative

theorem stands_floor (h : Stands x.toModel.unpack v) : Stands (floor x).toModel.unpack ⌊v⌋ := by
  refine stands_roundBy h ?_ ?_
  · rintro k rfl
    exact Int.floor_intCast k
  · rintro negative m e rfl hm he
    have hlt := value_lt_half hm he
    have hnonneg := magnitude_nonneg m e
    cases negative with
    | true =>
      simp only [if_true, ceilNat_eq, Exact.signed, Int.cast_neg, Int.cast_natCast, neg_mul, Int.floor_neg]
      refine ⟨?_, congrArg _ (Int.natCast_ceil_eq_ceil hnonneg)⟩
      have hceil := Nat.ceil_lt_add_one hnonneg
      exact_mod_cast (show (⌈(m : ℚ) * 2 ^ e⌉₊ : ℚ) < 2 ^ 53 by linarith)
    | false =>
      simp only [Bool.false_eq_true, if_false, floorNat_eq, Exact.signed, Int.cast_natCast]
      refine ⟨?_, Int.natCast_floor_eq_floor hnonneg⟩
      rw [Nat.floor_lt hnonneg]
      push_cast
      linarith

/-- A value that is not negative is rounded to the nearest integer, a half going up. -/
theorem stands_nearest (h : Stands x.toModel.unpack v) (hv : 0 ≤ v) :
    Stands (round x).toModel.unpack ⌊v + 1 / 2⌋ := by
  refine stands_roundBy h ?_ ?_
  · rintro k rfl
    rw [Int.floor_intCast_add]
    norm_num
  · rintro negative m e rfl hm he
    have hlt := value_lt_half hm he
    have hnonneg := magnitude_nonneg m e
    rw [roundNat_eq]
    constructor
    · rw [Nat.floor_lt (by linarith)]
      push_cast
      linarith
    · cases negative with
      | true =>
        simp only [Exact.signed, if_true, Int.cast_neg, Int.cast_natCast, neg_mul] at hv ⊢
        rw [le_antisymm (neg_nonneg.1 hv) hnonneg]
        norm_num
      | false => exact Int.natCast_floor_eq_floor (by linarith)

/-- The integer part of an integer is the integer, unless it is out of bounds. -/
theorem clampInt_of_stands {k : ℤ} (h : Stands x.toModel.unpack k) (lo hi : ℤ) :
    clampInt lo hi x = max lo (min hi k) := by
  obtain ⟨negative, m, e, hexact, hk, -⟩ := exact_of_stands h
  unfold clampInt
  rw [hexact]
  suffices hwhole : Exact.signed negative (Exact.floorNat m e) = k by simp only [hwhole]
  have hwhole := Int.natCast_floor_eq_floor (magnitude_nonneg m e)
  rw [floorNat_eq]
  cases negative with
  | true =>
    simp only [Exact.signed, if_true, Int.cast_neg, Int.cast_natCast, neg_mul] at hk ⊢
    rw [hwhole, ← neg_eq_iff_eq_neg.2 hk, ← Int.cast_neg, Int.floor_intCast, Int.neg_neg]
  | false =>
    change ((⌊(m : ℚ) * 2 ^ e⌋₊ : ℕ) : ℤ) = k
    change (k : ℚ) = m * 2 ^ e at hk
    rw [hwhole, ← hk, Int.floor_intCast]

end Spreadsheet.Number
