import Spreadsheet.Function.Calendar
import Spreadsheet.Proofs.Number.Value

/-!
The instants of serial numbers. The day of a serial is cut down and its time of day is rounded to seconds, so the
instant is the nearest one with two exceptions: a time in the last half second of a day falls back to the midnight that
opens this day, and a time a hair away from a half second may be rounded to either side, since it is computed with
floats.
-/

namespace Spreadsheet

open Number (Rounded Stands value)

variable {x y : Float} {q q' f f' p p' h : ℚ} {k n : ℕ}

namespace Instant

/-! ### Seconds -/

/-- The seconds since the midnight of serial 0. -/
def toSeconds (i : Instant) : ℤ := secondsPerDay * i.day + i.second

/-- The instant so many seconds after the midnight of serial 0. -/
def ofSeconds (n : ℤ) : Instant := ⟨n / secondsPerDay, (n % secondsPerDay).toNat⟩

theorem toSeconds_ofSeconds (n : ℤ) : (ofSeconds n).toSeconds = n := by
  unfold toSeconds ofSeconds secondsPerDay
  simp only
  omega

/-- The whole-second instant nearest to a serial, a half going up. -/
def nearest (q : ℚ) : Instant := ofSeconds ⌊secondsPerDay * q + 1 / 2⌋

/-- No other whole number of seconds is nearer. -/
theorem nearest_le (q : ℚ) (n : ℤ) : |secondsPerDay * q - (nearest q).toSeconds| ≤ |secondsPerDay * q - n| := by
  rw [nearest, toSeconds_ofSeconds]
  generalize (secondsPerDay : ℚ) * q = t
  have hlow := Int.floor_le (t + 1 / 2)
  have hhigh := Int.lt_floor_add_one (t + 1 / 2)
  have hhalf : |t - ⌊t + 1 / 2⌋| ≤ 1 / 2 := abs_le.2 ⟨by linarith, by linarith⟩
  rcases lt_trichotomy n ⌊t + 1 / 2⌋ with hn | rfl | hn
  · have hstep : (n : ℚ) + 1 ≤ ⌊t + 1 / 2⌋ := by exact_mod_cast hn
    exact hhalf.trans (le_abs.2 (.inl (by linarith)))
  · rfl
  · have hstep : (⌊t + 1 / 2⌋ : ℚ) + 1 ≤ n := by exact_mod_cast hn
    exact (abs_le.2 ⟨by linarith, by linarith⟩ : |t - ⌊t + 1 / 2⌋| ≤ n - t).trans (neg_sub t n ▸ neg_le_abs _)

/-- The time of day of a serial, in seconds. -/
def timeOfDay (q : ℚ) : ℚ := secondsPerDay * Int.fract q

theorem timeOfDay_nonneg (q : ℚ) : 0 ≤ timeOfDay q := mul_nonneg (Nat.cast_nonneg _) (Int.fract_nonneg q)

theorem timeOfDay_lt (q : ℚ) : timeOfDay q < 86400 := by
  have := Int.fract_lt_one q
  unfold timeOfDay secondsPerDay
  push_cast
  linarith

/-- The nearest instant is counted from the midnight before the serial. -/
theorem nearest_eq (q : ℚ) : nearest q = ofSeconds (secondsPerDay * ⌊q⌋ + ⌊timeOfDay q + 1 / 2⌋₊) := by
  have hnonneg := timeOfDay_nonneg q
  have hsplit : secondsPerDay * q + 1 / 2 = (secondsPerDay * ⌊q⌋ : ℤ) + (timeOfDay q + 1 / 2) := by
    have := Int.floor_add_fract q
    unfold timeOfDay
    push_cast
    rw [← add_assoc, ← mul_add, this]
  rw [nearest, hsplit, Int.floor_intCast_add, Int.natCast_floor_eq_floor (by linarith)]

/-! ### The two exceptions -/

/-- The serial lies in the last half second of its day. -/
def Late (q : ℚ) : Prop := secondsPerDay - 1 / 2 ≤ timeOfDay q

/-- The time of day is near half a second after `k` seconds without being that, so near that rounding may not tell.
Above the half second this is so only in the half day before serial 0. -/
def Blurs (k : ℕ) (q : ℚ) : Prop :=
  timeOfDay q ≠ k + 1 / 2 ∧ |timeOfDay q - (k + 1 / 2)| ≤ (k + 1 / 2) / 2 ^ 52 ∧
    (k + 1 / 2 < timeOfDay q → -1 / 2 < q ∧ q < 0)

/-- The time of day is too near to some half second. -/
def Blurred (q : ℚ) : Prop := ∃ k, Blurs k q

/-! ### Time as floats compute it -/

/-- A whole day and its parts are rounded on a fine grid. -/
theorem lastPlace_le (hv : 0 < p) (hle : p ≤ 86400) : Number.lastPlace p ≤ -36 := by
  refine Number.lastPlace_le_of_lt (k := 17) hv (hle.trans_lt ?_) (by norm_num)
  norm_num

/-- The fraction of a day, once it is rounded, is still one of a day. -/
theorem scaled_mem (h : Rounded (Int.fract q) f) : 0 ≤ f * secondsPerDay ∧ f * secondsPerDay ≤ 86400 := by
  have hnonneg := h.nonneg (Int.fract_nonneg q)
  have hone : f ≤ 1 := by
    rcases (Int.fract_nonneg q).eq_or_lt with hzero | hpos
    · rw [← hzero] at h
      rw [h.eq_zero]
      exact zero_le_one
    · have hlt := Int.fract_lt_one q
      have hplace := lastPlace_le hpos (by linarith)
      simpa using h.ge_of_multiple (k := 0) (n := 1) (by omega) (by simpa using hlt.le)
  unfold secondsPerDay
  push_cast
  constructor <;> linarith

/-- What a time of day is computed as: the fraction of the day is rounded, and so are the seconds in it. -/
structure Computed (q f p : ℚ) : Prop where
  fraction : Rounded (Int.fract q) f
  time : Rounded (f * secondsPerDay) p

theorem Computed.scaled_mem (h : Computed q f p) : 0 ≤ f * secondsPerDay ∧ f * secondsPerDay ≤ 86400 :=
  Instant.scaled_mem h.fraction

theorem Computed.time_nonneg (h : Computed q f p) : 0 ≤ p := h.time.nonneg h.scaled_mem.1

/-- What is at least half a second after `k` seconds is kept so by the second rounding. -/
theorem Computed.half_le (h : Computed q f p) (hle : k + 1 / 2 ≤ f * secondsPerDay) : k + 1 / 2 ≤ p := by
  have hplace := lastPlace_le (lt_of_lt_of_le (by positivity) hle) h.scaled_mem.2
  have hhalf : ((2 * k + 1 : ℤ) : ℚ) * 2 ^ (-1 : ℤ) = k + 1 / 2 := by
    push_cast
    norm_num
    ring
  rw [← hhalf] at hle ⊢
  exact h.time.le_of_multiple (by omega) hle

theorem Computed.time_le (h : Computed q f p) : p ≤ 86400 := by
  obtain ⟨hnonneg, hle⟩ := h.scaled_mem
  rcases hnonneg.eq_or_lt with hzero | hpos
  · have hkept := h.time
    rw [← hzero] at hkept
    rw [hkept.eq_zero]
    norm_num
  · have hplace := lastPlace_le hpos hle
    simpa using h.time.ge_of_multiple (k := 0) (n := 86400) (by omega) (by simpa using hle)

theorem tiny : (0 : ℚ) < 2 ^ (-1075 : ℤ) ∧ (2 : ℚ) ^ (-1075 : ℤ) ≤ 1 / 2 ^ 128 := by
  refine ⟨Number.two_zpow_pos _, ?_⟩
  rw [one_div, ← zpow_natCast, ← zpow_neg]
  exact zpow_le_zpow_right₀ one_le_two (by norm_num)

/-- A time that is a little less than a half second is rounded to less than it. -/
theorem Computed.lt_half (h : Computed q f p) (hlt : timeOfDay q < k + 1 / 2) (hb : ¬Blurs k q) : p < k + 1 / 2 := by
  have hk : (0 : ℚ) ≤ k := Nat.cast_nonneg k
  have hfar : (k + 1 / 2 : ℚ) / 2 ^ 52 < k + 1 / 2 - timeOfDay q := by
    by_contra hnear
    refine hb ⟨hlt.ne, ?_, fun habove => absurd habove hlt.not_gt⟩
    rw [abs_of_neg (by linarith)]
    linarith
  obtain ⟨hsmall, htiny⟩ := tiny
  have hfraction := (h.fraction.bounds (Int.fract_nonneg q)).2
  have htime := (h.time.bounds h.scaled_mem.1).2
  generalize (2 : ℚ) ^ (-1075 : ℤ) = least at hsmall htiny hfraction htime
  unfold timeOfDay at hfar
  unfold secondsPerDay at hfar htime
  push_cast at hfar htime
  linarith

theorem Computed.mono (h : Computed q f p) (h' : Computed q' f' p') (hle : Int.fract q ≤ Int.fract q') : p ≤ p' :=
  h.time.mono h'.time h.scaled_mem.1
    (mul_le_mul_of_nonneg_right (h.fraction.mono h'.fraction (Int.fract_nonneg q) hle) (Nat.cast_nonneg _))

/-! ### Times that are computed exactly -/

theorem fract_multiple {n k : ℤ} (hk : k ≤ 0) (hq : q = n * 2 ^ k) : ∃ r : ℤ, Int.fract q = r * 2 ^ k := by
  obtain ⟨r, hr⟩ := Number.multiple_of_le hk ⌊q⌋
  rw [zpow_zero, mul_one] at hr
  refine ⟨n - r, ?_⟩
  rw [Int.fract, hr, hq, Int.cast_sub, sub_mul]

/-- A fraction with few digits is not rounded. -/
theorem Computed.fraction_eq (h : Computed q f p) {n : ℤ} (hn : Int.fract q = n * 2 ^ (-53 : ℤ)) : f = Int.fract q := by
  have hfraction := h.fraction
  rcases (Int.fract_nonneg q).eq_or_lt with hzero | hpos
  · rw [← hzero] at hfraction ⊢
    exact hfraction.eq_zero
  · have hplace := Number.lastPlace_le_of_lt (k := 0) hpos (by simpa using Int.fract_lt_one q) (by norm_num)
    exact hfraction.eq_of_multiple (by omega) hn

/-- Only in the half day before serial 0 the fraction may be rounded. -/
theorem Computed.fraction_eq_of_stands (h : Computed q f p) (hq : Stands x.toModel.unpack q)
    (hfar : ¬(-1 / 2 < q ∧ q < 0)) : f = Int.fract q := by
  by_cases hhalf : (2 : ℚ) ^ (-1 : ℤ) ≤ |q|
  · obtain ⟨n, hn⟩ := hq.multiple_of_le hhalf
    obtain ⟨r, hr⟩ := fract_multiple (by norm_num) hn
    exact h.fraction_eq hr
  · rw [zpow_neg_one, not_le, abs_lt] at hhalf
    have hnonneg : 0 ≤ q := by
      by_contra hneg
      exact hfar ⟨by linarith, not_le.1 hneg⟩
    have hself : Int.fract q = q := Int.fract_eq_self.2 ⟨hnonneg, by linarith⟩
    have hfraction := h.fraction
    obtain ⟨r, hr, -⟩ := (hq.rounded hnonneg).grid
    rw [hself] at hfraction ⊢
    exact hfraction.eq_of_multiple le_rfl hr

/-- A float whose time of day is half a second after a whole one is a multiple of 1/256. -/
theorem fract_of_half {j : ℕ} {N : ℤ} (hN : Int.fract q = N * 2 ^ (-(j + 8 : ℕ) : ℤ))
    (hhalf : timeOfDay q = k + 1 / 2) : ∃ r : ℤ, Int.fract q = r * 2 ^ (-8 : ℤ) := by
  have hpow : (2 : ℚ) ^ j ≠ 0 := by positivity
  have hsplit : (2 : ℚ) ^ (-(j + 8 : ℕ) : ℤ) = 2 ^ (-8 : ℤ) / 2 ^ j := by
    rw [Nat.cast_add, neg_add_rev, zpow_add₀ two_ne_zero, zpow_neg _ (j : ℤ), zpow_natCast, div_eq_mul_inv]
    rfl
  -- a day has 675 times 128 seconds
  have hdigits : 675 * N = (2 * k + 1 : ℤ) * 2 ^ j := by
    have htime : (675 * N : ℚ) = 2 * timeOfDay q * 2 ^ j := by
      rw [timeOfDay, secondsPerDay, hN, hsplit]
      push_cast
      field_simp
      norm_num
      ring
    rw [hhalf] at htime
    have htwice : (2 * (k + 1 / 2) : ℚ) = 2 * k + 1 := by ring
    rw [htwice] at htime
    exact_mod_cast htime
  have hcoprime : IsCoprime (675 : ℤ) (2 ^ j) := (by norm_num : IsCoprime (675 : ℤ) 2).pow_right
  obtain ⟨r, hr⟩ := hcoprime.dvd_of_dvd_mul_right ⟨N, hdigits.symm⟩
  refine ⟨r, ?_⟩
  rw [hr, mul_assoc] at hdigits
  have hN' : N = r * 2 ^ j := mul_left_cancel₀ (by norm_num) hdigits
  rw [hN, hN', hsplit]
  push_cast
  field_simp

/-- A time that is at least a half second, and not just a little more, is rounded to no less. -/
theorem Computed.le_half (h : Computed q f p) (hq : Stands x.toModel.unpack q) (hle : k + 1 / 2 ≤ timeOfDay q)
    (hb : ¬Blurs k q) : k + 1 / 2 ≤ p := by
  have hk : (0 : ℚ) ≤ k := Nat.cast_nonneg k
  refine h.half_le ?_
  by_cases hexact : f = Int.fract q
  · rwa [hexact, mul_comm]
  have hclose : -1 / 2 < q ∧ q < 0 := by
    by_contra hfar
    exact hexact (h.fraction_eq_of_stands hq hfar)
  have hne : timeOfDay q ≠ k + 1 / 2 := by
    intro hhalf
    refine hexact ?_
    obtain ⟨n, hn⟩ := hq.multiple_least
    obtain ⟨N, hN⟩ := fract_multiple (by norm_num) hn
    obtain ⟨r, hr⟩ := fract_of_half (j := 1066) hN hhalf
    obtain ⟨r', hr'⟩ := Number.multiple_of_le (show (-53 : ℤ) ≤ -8 by norm_num) r
    exact h.fraction_eq (hr.trans hr')
  have hfar : (k + 1 / 2 : ℚ) / 2 ^ 52 < timeOfDay q - (k + 1 / 2) := by
    by_contra hnear
    refine hb ⟨hne, ?_, fun _ => hclose⟩
    rw [abs_of_nonneg (by linarith)]
    linarith
  obtain ⟨hsmall, htiny⟩ := tiny
  have hfraction := (h.fraction.bounds (Int.fract_nonneg q)).1
  generalize (2 : ℚ) ^ (-1075 : ℤ) = least at hsmall htiny hfraction
  unfold timeOfDay at hfar
  unfold secondsPerDay at hfar ⊢
  push_cast at hfar ⊢
  linarith

/-! ### Instants -/

/-- A time of day that is not blurred is rounded to the nearest second. -/
theorem Computed.floor_eq (h : Computed q f p) (hq : Stands x.toModel.unpack q) (hb : ¬Blurred q) :
    ⌊p + 1 / 2⌋₊ = ⌊timeOfDay q + 1 / 2⌋₊ := by
  have htime := timeOfDay_nonneg q
  have hcomputed := h.time_nonneg
  refine eq_of_forall_ge_iff fun k => ?_
  have hk : ¬Blurs k q := fun hk => hb ⟨k, hk⟩
  have hcut {t : ℚ} (ht : 0 ≤ t) : ⌊t + 1 / 2⌋₊ ≤ k ↔ t < k + 1 / 2 := by
    rw [← Nat.lt_succ_iff, Nat.floor_lt (by linarith)]
    push_cast
    constructor <;> intro hlt <;> linarith
  rw [hcut hcomputed, hcut htime]
  constructor
  · intro hlt
    by_contra hle
    exact absurd hlt (not_lt.2 (h.le_half hq (not_lt.1 hle) hk))
  · intro hlt
    exact h.lt_half hlt hk

/-- Far from serial 0 a float has too few digits for a time next to a half second. -/
theorem not_blurred_of_le (hq : Stands x.toModel.unpack q) (hfar : 1024 ≤ |q|) : ¬Blurred q := by
  rintro ⟨k, hne, hnear, -⟩
  have hk : (0 : ℚ) ≤ k := Nat.cast_nonneg k
  have htime := timeOfDay_lt q
  obtain ⟨n, hn⟩ := hq.multiple_of_le (k := 10) (by norm_num at hfar ⊢; exact hfar)
  obtain ⟨r, hr⟩ := fract_multiple (by norm_num) hn
  have hsteps : timeOfDay q - (k + 1 / 2) = (675 * r - (2 * k + 1) * 2 ^ 34 : ℤ) / 2 ^ 35 := by
    rw [timeOfDay, secondsPerDay, hr]
    push_cast
    norm_num
    ring
  have hsome : 675 * r - (2 * k + 1) * 2 ^ 34 ≠ 0 := by
    intro hzero
    rw [hzero, Int.cast_zero, zero_div, sub_eq_zero] at hsteps
    exact hne hsteps
  have hone : (1 : ℚ) ≤ |((675 * r - (2 * k + 1) * 2 ^ 34 : ℤ) : ℚ)| := by exact_mod_cast Int.one_le_abs hsome
  have hgap : 1 / 2 ^ 35 ≤ |timeOfDay q - (k + 1 / 2)| := by
    rw [hsteps, abs_div, abs_of_pos (show (0 : ℚ) < 2 ^ 35 by positivity)]
    exact div_le_div_of_nonneg_right hone (by positivity)
  have hlow := (abs_le.1 hnear).1
  linarith

theorem stands_secondsPerDay : Stands (86400 : Float).toModel.unpack (secondsPerDay : ℚ) := by
  have hcanonical : Number.Canonical (86400 * 2 ^ 36) (-36) :=
    ⟨by norm_num, by norm_num, by norm_num, .inr (by norm_num)⟩
  have hunpack : (86400 : Float).toModel.unpack = .finite .positive (86400 * 2 ^ 36) (-36) hcanonical.pos := rfl
  have hvalue : (secondsPerDay : ℚ) = (86400 * 2 ^ 36 : ℕ) * 2 ^ (-36 : ℤ) := by
    unfold secondsPerDay
    norm_num
  rw [hunpack, hvalue]
  exact .finite .positive hcanonical (by norm_num)

/-- A finite number is the serial of an instant if its day belongs to the calendar. -/
theorem ofSerial?_eq (hx : x.isFinite = true) : ∃ f p, Computed (value x) f p ∧
    ofSerial? x = if Date.firstSerial ≤ ⌊value x⌋ ∧ ⌊value x⌋ ≤ Date.lastSerial then
      some ⟨⌊value x⌋, ⌊p + 1 / 2⌋₊ % secondsPerDay⟩ else none := by
  have hserial := Number.stands_value hx
  generalize value x = q at hserial ⊢
  have hmost {v : ℚ} (hv : v ≤ 86400) : v < 2 ^ (1023 : ℤ) :=
    calc v < 2 ^ (17 : ℤ) := hv.trans_lt (by norm_num)
      _ ≤ 2 ^ (1023 : ℤ) := zpow_le_zpow_right₀ one_le_two (by norm_num)
  have hday := Number.stands_floor hserial
  have hlt := Int.fract_lt_one q
  obtain ⟨f, hf, hfraction⟩ := hserial.sub hday (Int.floor_le q) (hmost (by rw [Int.self_sub_floor]; linarith))
  rw [Int.self_sub_floor] at hf
  obtain ⟨p, hp, htime⟩ := hfraction.mul stands_secondsPerDay (hf.nonneg (Int.fract_nonneg q)) (by simp [secondsPerDay])
    (hmost (scaled_mem hf).2)
  have h : Computed q f p := ⟨hf, hp⟩
  refine ⟨f, p, h, ?_⟩
  have hseconds := Number.stands_nearest htime h.time_nonneg
  have hwhole : (⌊p + 1 / 2⌋₊ : ℤ) = ⌊p + 1 / 2⌋ := Int.natCast_floor_eq_floor (by linarith [h.time_nonneg])
  have hbound : ⌊p + 1 / 2⌋₊ < 86401 := by
    rw [Nat.floor_lt (by linarith [h.time_nonneg])]
    push_cast
    linarith [h.time_le]
  have hclamp : Number.clampNat 63 (Number.round ((x - Number.floor x) * 86400)) = ⌊p + 1 / 2⌋₊ := by
    have hbits : ((1 <<< 63 - 1 : ℕ) : ℤ) = 0x7FFFFFFFFFFFFFFF := rfl
    rw [Number.clampNat, Number.clampInt_of_stands hseconds, hbits]
    omega
  unfold ofSerial? Number.clampWord
  simp only [hx, hclamp, Number.clampInt_of_stands hday]
  generalize hd : max (-0x8000000000000000) (min 0x7FFFFFFFFFFFFFFF ⌊q⌋) = d
  have hcalendar : Date.firstSerial ≤ d ∧ d ≤ Date.lastSerial ↔ Date.firstSerial ≤ ⌊q⌋ ∧ ⌊q⌋ ≤ Date.lastSerial := by
    unfold Date.firstSerial Date.lastSerial
    omega
  simp only [Bool.and_eq_true, decide_eq_true_eq, hcalendar, Bool.not_true, Bool.false_eq_true, if_false]
  split
  · rename_i hinside
    have hsame : d = ⌊q⌋ := by
      unfold Date.firstSerial Date.lastSerial at hinside
      omega
    rw [hsame]
  · rfl

/-- The nearest second is one of the day, or the one that ends it. -/
theorem nearest_cases (q : ℚ) : ¬Late q ∧ ⌊timeOfDay q + 1 / 2⌋₊ < secondsPerDay ∧
    nearest q = ⟨⌊q⌋, ⌊timeOfDay q + 1 / 2⌋₊⟩ ∨
      Late q ∧ ⌊timeOfDay q + 1 / 2⌋₊ = secondsPerDay ∧ nearest q = ⟨⌊q⌋ + 1, 0⟩ := by
  have hnonneg := timeOfDay_nonneg q
  have hlt := timeOfDay_lt q
  have hlate : Late q ↔ secondsPerDay ≤ ⌊timeOfDay q + 1 / 2⌋₊ := by
    rw [Nat.le_floor_iff (by linarith), Late, sub_le_iff_le_add]
  have hle : ⌊timeOfDay q + 1 / 2⌋₊ < 86401 := by
    rw [Nat.floor_lt (by linarith)]
    push_cast
    linarith
  rw [nearest_eq, hlate]
  generalize ⌊timeOfDay q + 1 / 2⌋₊ = n at hle ⊢
  unfold secondsPerDay ofSeconds secondsPerDay
  rcases Nat.lt_or_ge n 86400 with hn | hn
  · refine .inl ⟨by omega, hn, congrArg₂ Instant.mk ?_ ?_⟩ <;> omega
  · refine .inr ⟨hn, by omega, congrArg₂ Instant.mk ?_ ?_⟩ <;> omega

/-- What an instant that is taken of a serial has to do with the nearest one. -/
structure Dates (q : ℚ) (i : Instant) : Prop where
  /-- The day is that of the serial. -/
  day : i.day = ⌊q⌋
  /-- The time is one of a day. -/
  second_lt : i.second < secondsPerDay
  /-- Up to the last half second of the day the date is that of the nearest instant. -/
  date : ¬Late q → i.date = (nearest q).date
  /-- Until then the instant is the nearest one, as far as floats can tell. -/
  rounded : ¬Late q → ¬Blurred q → i = nearest q
  /-- In the last half second the nearest instant is the midnight that ends the day. -/
  late : Late q → nearest q = ⟨i.day + 1, 0⟩
  /-- The instant is then the midnight that opens it. -/
  back : Late q → ¬Blurred q → i.second = 0

theorem Computed.dates (h : Computed q f p) (hq : Stands x.toModel.unpack q) :
    Dates q ⟨⌊q⌋, ⌊p + 1 / 2⌋₊ % secondsPerDay⟩ := by
  have hday : 0 < secondsPerDay := Nat.succ_pos _
  rcases nearest_cases q with ⟨hlate, hlt, hnearest⟩ | ⟨hlate, hlast, hnearest⟩
  · refine ⟨rfl, Nat.mod_lt _ hday, fun _ => ?_, fun _ hb => ?_, fun h => absurd h hlate, fun h => absurd h hlate⟩
    · rw [date, date, hnearest]
    · rw [hnearest, h.floor_eq hq hb, Nat.mod_eq_of_lt hlt]
  · refine ⟨rfl, Nat.mod_lt _ hday, fun h => absurd hlate h, fun h => absurd hlate h, fun _ => hnearest, fun _ hb => ?_⟩
    rw [h.floor_eq hq hb, hlast, Nat.mod_self]

/-- Instants are in the order of their serials, unless the later one falls back to a midnight. -/
theorem Computed.toSeconds_le (h : Computed q f p) (h' : Computed q' f' p') (hle : q ≤ q') (hearly : ¬Late q')
    (hb : ¬Blurs 86399 q') : toSeconds ⟨⌊q⌋, ⌊p + 1 / 2⌋₊ % secondsPerDay⟩ ≤
      toSeconds ⟨⌊q'⌋, ⌊p' + 1 / 2⌋₊ % secondsPerDay⟩ := by
  have hbelow : p' < (86399 : ℕ) + 1 / 2 := by
    refine h'.lt_half ?_ hb
    rw [Late, not_le] at hearly
    refine hearly.trans_le ?_
    unfold secondsPerDay
    norm_num
  have hkept : ⌊p' + 1 / 2⌋₊ < 86400 := by
    rw [Nat.floor_lt (by linarith [h'.time_nonneg])]
    push_cast at hbelow ⊢
    linarith
  rcases (Int.floor_le_floor hle).eq_or_lt with hday | hday
  · have hfract : Int.fract q ≤ Int.fract q' := by
      rw [Int.fract, Int.fract, hday]
      exact sub_le_sub_right hle _
    have hseconds : ⌊p + 1 / 2⌋₊ ≤ ⌊p' + 1 / 2⌋₊ := Nat.floor_le_floor (add_le_add_left (h.mono h' hfract) _)
    simp only [toSeconds, secondsPerDay, hday]
    omega
  · simp only [toSeconds, secondsPerDay]
    omega

/-- A number whose day belongs to the calendar is the serial of the nearest instant, unless it lies in the last half
second of its day or too near to a half second; far from serial 0 there is no such time. Up to the last half second the
order of serials is kept, and the year, the month and the day are those of the nearest instant. -/
theorem dates_of_serial (hx : x.isFinite = true) (hfirst : Date.firstSerial ≤ ⌊value x⌋)
    (hlast : ⌊value x⌋ ≤ Date.lastSerial) : ∃ i, ofSerial? x = some i ∧ Dates (value x) i ∧
      (1024 ≤ |value x| → ¬Blurred (value x)) ∧
      (∀ part, ¬Late (value x) →
        Function.datePart part x = .number (Number.ofInt (part (nearest (value x)).date))) ∧
      ∀ y j, ofSerial? y = some j → value y ≤ value x → ¬Late (value x) → ¬Blurs 86399 (value x) →
        j.toSeconds ≤ i.toSeconds := by
  have hserial := Number.stands_value hx
  obtain ⟨f, p, h, hinstant⟩ := ofSerial?_eq hx
  rw [if_pos ⟨hfirst, hlast⟩] at hinstant
  have hdates := h.dates hserial
  refine ⟨_, hinstant, hdates, not_blurred_of_le hserial, fun part hearly => ?_, fun y j hy hle hearly hb => ?_⟩
  · rw [Function.datePart, hinstant, ← hdates.date hearly]
  · have hfinite : y.isFinite = true := by
      by_contra hinfinite
      rw [ofSerial?, if_pos (by simpa using hinfinite)] at hy
      cases hy
    obtain ⟨f', p', h', hinstant'⟩ := ofSerial?_eq hfinite
    rw [hy] at hinstant'
    split at hinstant'
    · cases hinstant'
      exact h'.toSeconds_le h hle hearly hb
    · cases hinstant'

/-- The noon of a day in 2023 is the nearest instant to its serial. -/
theorem dates_of_serial_noon : (45000.5 : Float).isFinite = true ∧ Date.firstSerial ≤ ⌊value 45000.5⌋ ∧
    ⌊value 45000.5⌋ ≤ Date.lastSerial ∧ ofSerial? 45000.5 = some (nearest (value 45000.5)) := by
  have hnoon : value 45000.5 = 90001 / 2 := by
    have hexact : Number.Exact.ofFloat 45000.5 = .finite false 6184821625716736 (-37) := rfl
    rw [value, hexact, Number.Exact.value, Number.Exact.signed]
    norm_num
  have hfloor : ⌊(90001 / 2 : ℚ)⌋ = 45000 := by norm_num
  have hfinite : (45000.5 : Float).isFinite = true := rfl
  have hfirst : Date.firstSerial ≤ ⌊value 45000.5⌋ := by
    rw [hnoon, hfloor]
    decide
  have hlast : ⌊value 45000.5⌋ ≤ Date.lastSerial := by
    rw [hnoon, hfloor]
    decide
  have hearly : ¬Late (value 45000.5) := by
    rw [hnoon, Late, timeOfDay, Int.fract, hfloor, secondsPerDay]
    norm_num
  have hfar : 1024 ≤ |value 45000.5| := by
    rw [hnoon]
    norm_num
  obtain ⟨i, hi, hdates, hclear, -⟩ := dates_of_serial hfinite hfirst hlast
  exact ⟨hfinite, hfirst, hlast, hdates.rounded hearly (hclear hfar) ▸ hi⟩

/-- A serial in the last half second of a day goes back to the midnight that opens the day, behind the noon of that day,
and one that is less than half a second goes up to a second. -/
theorem not_nearest_late : ofSerial? 45000.999999 = some ⟨45000, 0⟩ ∧ nearest (value 45000.999999) = ⟨45001, 0⟩ ∧
    ofSerial? 45000.5 = some ⟨45000, 43200⟩ ∧
    ofSerial? 0.000005787037037037037 = some ⟨0, 1⟩ ∧ nearest (value 0.000005787037037037037) = ⟨0, 0⟩ := by
  have hlate : value 45000.999999 = 6184890345056033 / 2 ^ 37 := by
    have hexact : Number.Exact.ofFloat 45000.999999 = .finite false 6184890345056033 (-37) := rfl
    rw [value, hexact, Number.Exact.value, Number.Exact.signed]
    norm_num
  have hblurred : value 0.000005787037037037037 = 6832127434707241 / 2 ^ 70 := by
    have hexact : Number.Exact.ofFloat 0.000005787037037037037 = .finite false 6832127434707241 (-70) := rfl
    rw [value, hexact, Number.Exact.value, Number.Exact.signed]
    norm_num
  have hnext : ⌊((86400 : ℕ) : ℚ) * (6184890345056033 / 2 ^ 37) + 1 / 2⌋ = 3888086400 := by norm_num
  have hfirst : ⌊((86400 : ℕ) : ℚ) * (6832127434707241 / 2 ^ 70) + 1 / 2⌋ = 0 := by norm_num
  refine ⟨rfl, ?_, rfl, rfl, ?_⟩
  · rw [nearest, hlate, secondsPerDay, hnext]
    rfl
  · rw [nearest, hblurred, secondsPerDay, hfirst]
    rfl

end Instant

end Spreadsheet
