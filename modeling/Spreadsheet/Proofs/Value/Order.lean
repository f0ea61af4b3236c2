import Mathlib
import Spreadsheet.Evaluation.Operator

/-!
Comparisons of scalars. Equality and order read a scalar by tables of their own; they agree on all scalars but a complex
number beside a text or nothing, which equality keeps apart even where both stand for one number.
-/

namespace Spreadsheet

open Float.Model (UnpackedFloat)

/-! ### Numbers -/

namespace Number

theorem compare_swap (u v : UnpackedFloat) : (u.compare v).map Ordering.swap = v.compare u := by
  cases u with
  | notANumber => cases v <;> rfl
  | infinity s =>
    cases v with
    | infinity s' => cases s <;> cases s' <;> rfl
    | _ => cases s <;> rfl
  | zero s =>
    cases v with
    | infinity s' => cases s' <;> rfl
    | finite s' m e hm => cases s' <;> rfl
    | _ => rfl
  | finite s m e hm =>
    cases v with
    | infinity s' => cases s <;> cases s' <;> rfl
    | finite s' m' e' hm' =>
      cases s <;> cases s' <;>
        simp only [UnpackedFloat.compare, Option.map_some, Ordering.swap_then, Int.compare_swap, Nat.compare_swap] <;>
        rfl
    | _ => cases s <;> rfl

end Number

namespace Value

variable {x y : Float} {a b : Comparand} {l r v : Value}

/-- Numbers are compared as the floats that they are; what is no number has no order. -/
theorem compareFloats_eq (x y : Float) : compareFloats x y = x.toModel.unpack.compare y.toModel.unpack := by
  have hlt (x y : Float) : x < y ↔ x.toModel.unpack.compare y.toModel.unpack = some .lt :=
    decide_eq_true_iff.trans beq_iff_eq
  have hbeq : (x == y) = (x.toModel.unpack.compare y.toModel.unpack == some .eq) := rfl
  have hswap := Number.compare_swap x.toModel.unpack y.toModel.unpack
  unfold compareFloats
  simp only [hlt, hbeq, ← hswap]
  cases x.toModel.unpack.compare y.toModel.unpack with
  | none => simp
  | some o => cases o <;> simp

theorem compareFloats_swap (x y : Float) : (compareFloats x y).map Ordering.swap = compareFloats y x := by
  rw [compareFloats_eq, compareFloats_eq, Number.compare_swap]

theorem compareFloats_eq_iff : compareFloats x y = some .eq ↔ (x == y) = true := by
  rw [compareFloats_eq]
  exact beq_iff_eq.symm

theorem beq_of_isReal {z w : Complex} (hz : z.isReal = true) (hw : w.isReal = true) :
    (z == w) = (z.real == w.real) := by
  have himaginary : (z.imaginary == w.imaginary) = true := PartialEquivBEq.trans hz (PartialEquivBEq.symm hw)
  change (z.real == w.real && z.imaginary == w.imaginary) = _
  rw [himaginary, Bool.and_true]

/-! ### Comparands -/

namespace Comparand

/-- The comparand is no complex number but a real one. -/
def IsReal (a : Comparand) : Prop := ∀ z, a = .complex z → z.isReal = true

/-- A complex number beside a text or nothing that stands for its real part. -/
def Parted : Comparand → Comparand → Prop
  | .complex z, .text s => spells s z.real = true
  | .complex z, .undefined => (z.real == 0) = true
  | _, _ => False

theorem order_swap (a b : Comparand) : (a.order b).map Ordering.swap = b.order a := by
  unfold order
  rw [Bool.or_comm b.isNumeric]
  split
  · cases a.real? <;> cases b.real? <;> simp [compareFloats_swap]
  · cases a.text? <;> cases b.text? <;> simp [← Std.OrientedOrd.eq_swap]

theorem equal_comm (a b : Comparand) : a.equal b = b.equal a := by
  cases a with
  | number x =>
    cases b with
    | number y => exact BEq.comm
    | _ => rfl
  | text s =>
    cases b with
    | text t => exact BEq.comm
    | _ => rfl
  | complex z =>
    cases b with
    | complex w => exact congrArg₂ and BEq.comm BEq.comm
    | _ => rfl
  | undefined => cases b <;> rfl
  | other => cases b <;> rfl

theorem order_eq_iff_of_isNumeric (h : (a.isNumeric || b.isNumeric) = true) :
    a.order b = some .eq ↔ ∃ x, a.real? = some x ∧ ∃ y, b.real? = some y ∧ (x == y) = true := by
  unfold order
  rw [if_pos h]
  cases a.real? <;> cases b.real? <;> simp [compareFloats_eq_iff]

theorem order_eq_iff_of_not_isNumeric (h : ¬(a.isNumeric || b.isNumeric) = true) :
    a.order b = some .eq ↔ ∃ s, a.text? = some s ∧ b.text? = some s := by
  unfold order
  rw [if_neg h]
  cases a.text? with
  | none => simp
  | some s =>
    cases b.text? with
    | none => simp
    | some t => simpa using eq_comm

theorem spells_iff {s : String} {x : Float} : spells s x = true ↔ ∃ y, Number.ofText s = some y ∧ (y == x) = true := by
  unfold spells
  cases Number.ofText s <;> simp

/-- Comparands are neither less nor greater just if they are equal or parted. -/
theorem order_eq_iff (ha : a.IsReal) (hb : b.IsReal) :
    a.order b = some .eq ↔ a.equal b = true ∨ a.Parted b ∨ b.Parted a := by
  by_cases h : (a.isNumeric || b.isNumeric) = true
  · rw [order_eq_iff_of_isNumeric h]
    cases a with
    | undefined =>
      cases b with
      | number y => simp [real?, equal, Parted, BEq.comm]
      | complex w => simp [real?, equal, Parted, hb w rfl, BEq.comm]
      | _ => simp [isNumeric] at h
    | number x =>
      cases b with
      | undefined => simp [real?, equal, Parted]
      | number y => simp [real?, equal, Parted]
      | text t => simp [real?, equal, Parted, spells_iff, BEq.comm]
      | complex w => simp [real?, equal, Parted, hb w rfl, BEq.comm]
      | other => simp [real?, equal, Parted]
    | text s =>
      cases b with
      | number y => simp [real?, equal, Parted, spells_iff]
      | complex w => simp [real?, equal, Parted, hb w rfl, spells_iff]
      | _ => simp [isNumeric] at h
    | complex z =>
      have hz := ha z rfl
      cases b with
      | undefined => simp [real?, equal, Parted, hz]
      | number y => simp [real?, equal, Parted, hz]
      | text t => simp [real?, equal, Parted, hz, spells_iff, BEq.comm]
      | complex w => simp [real?, equal, Parted, hz, hb w rfl, beq_of_isReal hz (hb w rfl)]
      | other => simp [real?, equal, Parted]
    | other => cases b <;> simp [real?, equal, Parted]
  · rw [order_eq_iff_of_not_isNumeric h]
    cases a with
    | undefined => cases b <;> simp_all [isNumeric, text?, equal, Parted]
    | text s =>
      cases b with
      | text t => simp [text?, equal, Parted, eq_comm (a := s)]
      | _ => simp_all [isNumeric, text?, equal, Parted]
    | other => cases b <;> simp [text?, equal, Parted]
    | _ => simp [isNumeric] at h

end Comparand

/-- One value is complex and the other a text or nothing, and both stand for one number. -/
def Parted (l r : Value) : Prop := l.comparand.Parted r.comparand ∨ r.comparand.Parted l.comparand

/-- A scalar that the comparison operators compare: no error and no number off the real line. -/
structure IsComparable (v : Value) : Prop where
  noError : ∀ e, v.scalar ≠ .error e
  isReal : Operator.isProperlyComplex v = false

theorem IsComparable.comparand_isReal (h : v.IsComparable) : v.comparand.IsReal := by
  intro z hz
  have hreal := h.isReal
  unfold comparand at hz
  unfold Operator.isProperlyComplex at hreal
  cases hv : v.scalar with
  | complex w => simp_all
  | _ => simp [hv] at hz

theorem order_swap (l r : Value) : (l.order r).map Ordering.swap = r.order l :=
  Comparand.order_swap l.comparand r.comparand

theorem looselyEqual_comm (l r : Value) : l.looselyEqual r = r.looselyEqual l :=
  Comparand.equal_comm l.comparand r.comparand

theorem order_eq_iff (hl : l.IsComparable) (hr : r.IsComparable) :
    l.order r = some .eq ↔ l.looselyEqual r = true ∨ l.Parted r :=
  Comparand.order_eq_iff hl.comparand_isReal hr.comparand_isReal

theorem Parted.not_looselyEqual (h : l.Parted r) : l.looselyEqual r = false := by
  unfold Parted at h
  unfold looselyEqual
  generalize l.comparand = a at h ⊢
  generalize r.comparand = b at h ⊢
  cases a <;> cases b <;> simp_all [Comparand.Parted, Comparand.equal]

end Value

/-! ### Operators -/

namespace Operator

variable {l r : Value} {symbol : String}

/-- The comparison is true. -/
def Holds (symbol : String) (l r : Value) : Prop := applyScalars symbol l r = .boolean true

theorem applyScalars_of_meaning {m : Meaning} (hm : meaning? symbol = some m) (hl : l.IsComparable)
    (hr : r.IsComparable) : applyScalars symbol l r = m.onScalars l r := by
  unfold applyScalars
  rw [hm]
  split
  · exact absurd ‹_› (hl.noError _)
  · exact absurd ‹_› (hr.noError _)
  · rfl

theorem holds_equal_iff (hl : l.IsComparable) (hr : r.IsComparable) : Holds "=" l r ↔ l.looselyEqual r = true := by
  have hm : meaning? "=" = some .equal := rfl
  simp [Holds, applyScalars_of_meaning hm hl hr, Meaning.onScalars]

theorem holds_relation_iff {c : Relation} (hm : meaning? symbol = some (.relation c)) (hl : l.IsComparable)
    (hr : r.IsComparable) : Holds symbol l r ↔ ∃ o, l.order r = some o ∧ c.holds o = true := by
  simp only [Holds, applyScalars_of_meaning hm hl hr, Meaning.onScalars, Value.boolean.injEq]
  cases l.order r <;> simp

theorem holds_less_iff (hl : l.IsComparable) (hr : r.IsComparable) : Holds "<" l r ↔ l.order r = some .lt := by
  have hm : meaning? "<" = some (.relation .less) := rfl
  simp [holds_relation_iff hm hl hr, Relation.holds, Ordering.isLT_iff_eq_lt]

theorem holds_greater_iff (hl : l.IsComparable) (hr : r.IsComparable) : Holds ">" l r ↔ l.order r = some .gt := by
  have hm : meaning? ">" = some (.relation .greater) := rfl
  simp [holds_relation_iff hm hl hr, Relation.holds, Ordering.isGT_iff_eq_gt]

theorem holds_atMost_iff (hl : l.IsComparable) (hr : r.IsComparable) :
    Holds "<=" l r ↔ l.order r = some .lt ∨ l.order r = some .eq := by
  have hm : meaning? "<=" = some (.relation .atMost) := rfl
  simp [holds_relation_iff hm hl hr, Relation.holds, Ordering.isLE_iff_eq_lt_or_eq_eq, and_or_left, exists_or]

theorem holds_atLeast_iff (hl : l.IsComparable) (hr : r.IsComparable) :
    Holds ">=" l r ↔ l.order r = some .gt ∨ l.order r = some .eq := by
  have hm : meaning? ">=" = some (.relation .atLeast) := rfl
  simp [holds_relation_iff hm hl hr, Relation.holds, Ordering.isGE_iff_eq_gt_or_eq_eq, and_or_left, exists_or]

theorem applyScalars_less_swap (hl : l.IsComparable) (hr : r.IsComparable) :
    applyScalars "<" l r = applyScalars ">" r l := by
  have hless : meaning? "<" = some (.relation .less) := rfl
  have hgreater : meaning? ">" = some (.relation .greater) := rfl
  rw [applyScalars_of_meaning hless hl hr, applyScalars_of_meaning hgreater hr hl]
  simp only [Meaning.onScalars, ← Value.order_swap l r, Option.map_map]
  congr 4
  funext o
  exact (Ordering.isGT_swap (o := o)).symm

theorem applyScalars_equal_comm (hl : l.IsComparable) (hr : r.IsComparable) :
    applyScalars "=" l r = applyScalars "=" r l := by
  have hm : meaning? "=" = some .equal := rfl
  rw [applyScalars_of_meaning hm hl hr, applyScalars_of_meaning hm hr hl]
  exact congrArg Value.boolean (Value.looselyEqual_comm l r)

/-- Of two comparable values, one is at most the other if it is less or they are equal, at most one of less, equal and
greater is true, and the sides may be exchanged. The values that equality alone keeps apart are at most and at least
each other as well. -/
theorem comparisons_cohere (hl : l.IsComparable) (hr : r.IsComparable) :
    (Holds "<=" l r ↔ Holds "<" l r ∨ Holds "=" l r ∨ l.Parted r) ∧
    (Holds ">=" l r ↔ Holds ">" l r ∨ Holds "=" l r ∨ l.Parted r) ∧
    (l.Parted r → ¬Holds "=" l r) ∧
    ¬(Holds "<" l r ∧ Holds "=" l r) ∧ ¬(Holds "<" l r ∧ Holds ">" l r) ∧ ¬(Holds "=" l r ∧ Holds ">" l r) ∧
    applyScalars "<" l r = applyScalars ">" r l ∧ applyScalars "=" l r = applyScalars "=" r l := by
  have heq : Holds "=" l r → l.order r = some .eq := fun h =>
    (Value.order_eq_iff hl hr).2 (.inl ((holds_equal_iff hl hr).1 h))
  refine ⟨?_, ?_, ?_, ?_, ?_, ?_, applyScalars_less_swap hl hr, applyScalars_equal_comm hl hr⟩
  · rw [holds_atMost_iff hl hr, holds_less_iff hl hr, holds_equal_iff hl hr, Value.order_eq_iff hl hr]
  · rw [holds_atLeast_iff hl hr, holds_greater_iff hl hr, holds_equal_iff hl hr, Value.order_eq_iff hl hr]
  · intro h
    simp [holds_equal_iff hl hr, h.not_looselyEqual]
  · rintro ⟨hless, hequal⟩
    cases ((holds_less_iff hl hr).1 hless).symm.trans (heq hequal)
  · rintro ⟨hless, hgreater⟩
    cases ((holds_less_iff hl hr).1 hless).symm.trans ((holds_greater_iff hl hr).1 hgreater)
  · rintro ⟨hequal, hgreater⟩
    cases (heq hequal).symm.trans ((holds_greater_iff hl hr).1 hgreater)

/-- A number beside a padded numeral: equal, hence at most and at least each other and neither less nor greater. -/
theorem comparisons_cohere_numeral :
    (Value.number 2).IsComparable ∧ (Value.text " 2 ").IsComparable ∧
      Holds "=" (.number 2) (.text " 2 ") ∧ Holds "<=" (.number 2) (.text " 2 ") ∧
      Holds ">=" (.number 2) (.text " 2 ") ∧ ¬Holds "<" (.number 2) (.text " 2 ") ∧
      ¬Holds ">" (.number 2) (.text " 2 ") := by
  have hl : (Value.number 2).IsComparable := ⟨nofun, rfl⟩
  have hr : (Value.text " 2 ").IsComparable := ⟨nofun, rfl⟩
  have hequal : Holds "=" (.number 2) (.text " 2 ") := rfl
  obtain ⟨hmost, hleast, -, hless, -, hgreater, -, -⟩ := comparisons_cohere hl hr
  exact ⟨hl, hr, hequal, hmost.2 (.inr (.inl hequal)), hleast.2 (.inr (.inl hequal)), fun h => hless ⟨h, hequal⟩,
    fun h => hgreater ⟨hequal, h⟩⟩

/-- A complex number with no imaginary part is at most the numeral of its real part, but neither less than it nor equal
to it. -/
theorem complex_parted_from_numeral :
    (Value.complex ⟨2, 0⟩).IsComparable ∧ (Value.text "2").IsComparable ∧
      ¬(Holds "<=" (.complex ⟨2, 0⟩) (.text "2") ↔
        Holds "<" (.complex ⟨2, 0⟩) (.text "2") ∨ Holds "=" (.complex ⟨2, 0⟩) (.text "2")) := by
  have hmost : Holds "<=" (.complex ⟨2, 0⟩) (.text "2") := rfl
  have hless : applyScalars "<" (.complex ⟨2, 0⟩) (.text "2") = .boolean false := rfl
  have hequal : applyScalars "=" (.complex ⟨2, 0⟩) (.text "2") = .boolean false := rfl
  refine ⟨⟨nofun, rfl⟩, ⟨nofun, rfl⟩, fun h => ?_⟩
  simp [Holds, hless, hequal] at h
  exact h hmost

end Operator

end Spreadsheet
