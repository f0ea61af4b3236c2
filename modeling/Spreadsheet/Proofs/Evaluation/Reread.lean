import Spreadsheet.Proofs.Evaluation.Interchange
import Spreadsheet.Proofs.Formula.Legible
import Spreadsheet.Proofs.Number.Shortest

/-!
Formulas that are written, read again and calculated. The text of a formula stands for it: what is read of the text has
the value of the formula, wherever it is calculated. A text does not say everything, though. An argument that is left
out at the end of a call is lost, infinities and the sign of a zero are not written, and a minus at the front of a
formula, of an argument or of what stands in parentheses becomes a part of the number after it.
-/

namespace Spreadsheet

namespace Operator

open Number (signedBy)

variable {s : String} {x : Float}

/-- A number with a sign before it is what the sign makes of the number; zero has no negative. -/
theorem applySign_number (hs : isSign s = true) (hminus : s = "-" → x.isFinite = true ∧ (x == 0) = false) :
    applySign s (.number x) = .number (signedBy s x) := by
  have hcases : s = "-" ∨ s = "+" := by simpa [isSign] using hs
  rcases hcases with rfl | rfl
  · obtain ⟨hfinite, hzero⟩ := hminus rfl
    have hnegated : Value.ofNumber (-x) = .number (-x) := by
      rw [Value.ofNumber, Value.finite, Number.isFinite_neg, if_pos hfinite]
      rfl
    change Value.ofNumber (if (x == 0) = true then 0 else -x) = _
    rw [hzero, if_neg Bool.false_ne_true, hnegated]
    rfl
  · rfl

end Operator

namespace Expression

open Number (signedBy)

variable {e a a' : Expression} {s : String}

/-! ### Signs -/

/-- Whether a minus may become a part of the text of the unit. In front of a complex number it only belongs to the real
part; the negative of zero is zero, and that of an infinity is none. -/
def takesMinus : Expression → Bool
  | .literal _ (.number x) _ => x.isFinite && !(x == 0)
  | .complex _ z _ => z.isReal && !(z.real == 0)
  | _ => true

/-- Whether the expression does not start with a minus that changes its meaning in front of a number. -/
def keepsMinus (e : Expression) : Bool :=
  match e.start with
  | .unary _ s a => s != "-" || a.takesMinus
  | _ => true

variable {p q : Nat} {x : Float} {z : Complex} {r r' : RangeMention} {spelling spelling' : Option String}

theorem interchangeable_number (hs : Operator.isSign s = true)
    (hminus : s = "-" → (literal p (.number x) spelling).takesMinus = true) :
    Interchangeable (.unary 0 s (.literal p (.number x) spelling)) (.literal q (.number (signedBy s x)) spelling') := by
  refine ⟨fun scope _ => ?_, fun _ => rfl, rfl⟩
  rw [Evaluation.evaluate, Evaluation.evaluate, Evaluation.evaluate, pure_bind, Operator.applySign_number hs]
  simpa [takesMinus] using hminus

theorem interchangeable_complex (hs : Operator.isSign s = true)
    (hminus : s = "-" → (complex p z spelling).takesMinus = true) (hreal : z.real.isFinite = true)
    (himaginary : z.imaginary.isFinite = true) :
    Interchangeable (.unary 0 s (.complex p z spelling)) (.complex q ⟨signedBy s z.real, z.imaginary⟩ spelling') := by
  refine ⟨fun scope _ => ?_, fun _ => rfl, rfl⟩
  rw [Evaluation.evaluate, Evaluation.evaluate, Evaluation.evaluate, pure_bind]
  refine congrArg pure ?_
  have hcases : s = "-" ∨ s = "+" := by simpa [Operator.isSign] using hs
  rcases hcases with rfl | rfl
  · obtain ⟨hisReal, hzero⟩ : z.isReal = true ∧ (z.real == 0) = false := by simpa [takesMinus] using hminus rfl
    have hvalue : Value.ofComplex z = .number z.real := by simp [Value.ofComplex, hreal, himaginary, hisReal]
    have hnegated : Value.ofComplex ⟨-z.real, z.imaginary⟩ = .number (-z.real) := by
      have hisReal' : Complex.isReal ⟨-z.real, z.imaginary⟩ = true := hisReal
      simp [Value.ofComplex, Number.isFinite_neg, hreal, himaginary, hisReal']
    rw [hvalue, Operator.applySign_number hs fun _ => ⟨hreal, hzero⟩]
    exact hnegated
  · rfl

theorem interchangeable_rows (hrow : r.first.target.IsRow) (hfirst : r'.first.target = r.first.target)
    (hlast : r'.last.target = r.last.target) : Interchangeable (.unary 0 "+" (.range p r)) (.range q r') := by
  have harea : r'.area = r.area := by rw [RangeMention.area, RangeMention.area, hfirst, hlast]
  have hposition : r.first.target.position? = none := by
    obtain ⟨row, -, -, hcolumn, -⟩ := hrow
    rw [Reference.position?, hcolumn]
    cases r.first.target.row <;> rfl
  refine ⟨fun scope _ => ?_, fun scope => ?_, rfl⟩
  · rw [Evaluation.evaluate, Evaluation.evaluate, Evaluation.evaluate, harea, pure_bind]
    rfl
  · simp [Evaluation.metadata?, hfirst, hposition]

/-- What a sign and its operand are read as has their value. -/
theorem interchangeable_of_absorbs (h : Rereading.exact.Absorbs s a a') (hs : Operator.isSign s = true)
    (hminus : s = "-" → a.takesMinus = true) (hprinted : ∀ x ∈ a.printed, Number.isWritable x = true) :
    Interchangeable (.unary 0 s a) a' := by
  cases h with
  | number => exact interchangeable_number hs hminus
  | complex p q s z w spelling spelling' hreal himaginary =>
    obtain ⟨x, y⟩ := w
    obtain rfl : x = z.real := hreal
    obtain rfl : y = z.imaginary := himaginary
    have hfinite := Number.isFinite_of_isWritable (hprinted z.real List.mem_cons_self)
    have hfinite' := Number.isFinite_of_isWritable (hprinted z.imaginary (List.mem_cons_of_mem _ List.mem_cons_self))
    exact interchangeable_complex hs hminus hfinite hfinite'
  | rows p q r r' hrow _ hfirst hlast =>
    exact interchangeable_rows hrow.1 (hfirst.trans r.first.target.moved_zero) (hlast.trans r.last.target.moved_zero)

/-! ### Texts -/

/-- What makes sure that the text of an expression means what the expression means. -/
structure Writable (e : Expression) : Prop where
  minus : e.keepsMinus = true
  enclosed : ∀ u ∈ e.units, ∀ a ∈ u.enclosed, a.keepsMinus = true
  arguments : ∀ u ∈ e.units, u.endsInMissing = false
  numbers : ∀ u ∈ e.units, ∀ x ∈ u.printed, Number.isWritable x = true

instance : Decidable (Writable e) :=
  decidable_of_iff (e.keepsMinus = true ∧ (∀ u ∈ e.units, ∀ a ∈ u.enclosed, a.keepsMinus = true) ∧
      (∀ u ∈ e.units, u.endsInMissing = false) ∧ ∀ u ∈ e.units, ∀ x ∈ u.printed, Number.isWritable x = true)
    ⟨fun ⟨hminus, henclosed, harguments, hnumbers⟩ => ⟨hminus, henclosed, harguments, hnumbers⟩,
      fun h => ⟨h.minus, h.enclosed, h.arguments, h.numbers⟩⟩

/-- A sign at the front of a part of a writable expression keeps its meaning. -/
theorem Writable.keepsSign (h : Writable e) (ha : a.units ⊆ e.units) (hminus : a.keepsMinus = true) :
    a.KeepsSign .exact := by
  intro p s b hstart hs a' habsorbs
  have hmem : Expression.unary p s b ∈ e.units := ha (hstart ▸ a.start_mem_units)
  refine interchangeable_of_absorbs habsorbs hs ?_ (h.numbers b (units_subset e hmem ?_))
  · rintro rfl
    simpa [keepsMinus, hstart] using hminus
  · exact units_operand (mem_units b)

theorem Writable.legible (h : Writable e) (hsheets : ∀ m ∈ e.mentions, m.target.IsReadable) : Legible .exact e where
  arguments := h.arguments
  signs u hu a ha := h.keepsSign (fun _ hv => units_subset e hu (units_enclosed ha hv)) (h.enclosed u hu a ha)
  sheets m hm name hname := Mention.isKept_of_isReadable (hsheets m hm name hname)
  fits _ _ h := Option.isSome_of_eq_some (Reference.shift?_zero h)
  finite u hu x hx := Number.isFinite_of_isWritable (h.numbers u hu x hx)
  digits u hu x hx := Number.readsBackAs_of_isWritable (h.numbers u hu x hx)

end Expression

/-- The first cell of an empty sheet with the standard functions. -/
def Scope.blank : Scope := { store := {}, library := .standard, clock := ⟨0, 0⟩, position := ⟨0, 0⟩ }

namespace Formula

open Expression (Writable)

variable {locale : Locale} {e : Expression}

/-- The text of a writable formula is read without faults, and what is read has the value of the formula at every
position of every sheet, with all names and in every state of the simulation. -/
theorem calculate_reread {text : String} (hi : locale.imaginary = 'i' ∨ locale.imaginary = 'j')
    (hvalid : (parse locale text).error = none) (he : (parse locale text).expression = some e)
    (hsheets : ∀ m ∈ e.mentions, m.target.IsReadable) (hwritable : Writable e) :
    (parse locale (e.render locale {})).error = none ∧
      ∃ e', (parse locale (e.render locale {})).expression = some e' ∧
        ∀ s : Scope, s.library.TakesNoTexts → ∀ model, e'.calculate s model = e.calculate s model := by
  obtain ⟨hparse, e', he', hmoves⟩ := parse_legible hi hvalid he (hwritable.legible hsheets)
    (hwritable.keepsSign (List.Subset.refl _) hwritable.minus)
  exact ⟨hparse, e', he', fun s hlibrary model => hmoves.interchangeable.calculate_eq hlibrary model⟩

theorem calculate_reread_joined : ∃ e, (parse {} "=- 2 + SUM(+ 1:1, \x7b0.5\x7d)").expression = some e ∧
    e.render {} {} = "-2 + SUM(+1:1, \x7b0.5\x7d)" ∧ (parse {} (e.render {} {})).error = none ∧
      ∃ e', (parse {} (e.render {} {})).expression = some e' ∧
        ∀ model, e'.calculate .blank model = e.calculate .blank model := by
  obtain ⟨e, he⟩ := Option.isSome_iff_exists.1 (show
    (parse {} "=- 2 + SUM(+ 1:1, \x7b0.5\x7d)").expression.isSome = true by decide +kernel)
  have hchecked : ∀ e ∈ (parse {} "=- 2 + SUM(+ 1:1, \x7b0.5\x7d)").expression,
      e.render {} {} = "-2 + SUM(+1:1, \x7b0.5\x7d)" ∧ (∀ m ∈ e.mentions, m.target.IsReadable) ∧ Writable e := by
    decide +kernel
  obtain ⟨htext, hsheets, hwritable⟩ := hchecked e he
  have hlibrary : Scope.blank.library.TakesNoTexts := by
    simpa only [Scope.blank] using Library.takesNoTexts_standard
  obtain ⟨hparse, e', he', hvalue⟩ := calculate_reread (.inl rfl) (by decide +kernel) he hsheets hwritable
  exact ⟨e, he, htext, hparse, e', he', hvalue .blank hlibrary⟩

/-- The text of a formula without faults that names no cells is read as something with another value. -/
def ChangesValue (text : String) : Prop :=
  (parse {} text).error = none ∧ ∃ e ∈ (parse {} text).expression, e.mentions = [] ∧
    ∃ e' ∈ (parse {} (e.render {} {})).expression,
      ((e'.calculate .blank default).value == (e.calculate .blank default).value) = false

instance (text : String) : Decidable (ChangesValue text) :=
  decidable_of_iff ((parse {} text).error = none ∧ (parse {} text).expression.any (fun e => e.mentions.isEmpty &&
      (parse {} (e.render {} {})).expression.any fun e' =>
        !((e'.calculate .blank default).value == (e.calculate .blank default).value)) = true) <| by
    simp only [ChangesValue, Option.any_eq_true, Bool.and_eq_true, List.isEmpty_iff, Bool.not_eq_true', Option.mem_def]

/-- A minus that becomes a part of a complex number and an argument that is left out change the value. -/
theorem changesValue_joined : ChangesValue "=-i" ∧ ChangesValue "=AND(TRUE,,)" := by decide +kernel

end Formula

end Spreadsheet
