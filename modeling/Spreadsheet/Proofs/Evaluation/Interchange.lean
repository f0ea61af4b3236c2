import Spreadsheet.Evaluation
import Spreadsheet.Proofs.Formula.Signed
import Spreadsheet.Proofs.Function.Standard

/-!
Expressions that can take each other's place. What is read of a text with the same numbers in it gives the value of
what was written, even if a sign has become a part of its operand, unless a function takes it as a text.
-/

namespace Spreadsheet

/-- No function takes an argument by its text. -/
def Library.TakesNoTexts (l : Library) : Prop := ∀ name f, l.find? name = some f → ∀ i, f.passing i ≠ .label

theorem Library.takesNoTexts_standard : standard.TakesNoTexts := by
  intro name f hf i hi
  obtain ⟨fs, hfs, hmem⟩ := mem_of_find?_standard hf
  obtain ⟨p, hp, hlabel⟩ := Function.exists_parameter (f := f) (i := i) (by simp [hi])
  have hparameters : ∀ fs ∈ [Function.statistics, Function.arithmetic, Function.logic, Function.tables,
      Function.calendar, Function.information, Function.texts, Function.widgets, Function.complexNumbers,
      Function.randomNumbers, Function.indirect, Function.elementary], ∀ f ∈ fs, ∀ p ∈ f.parameters,
        p.passing ≠ .label := by decide
  exact hparameters fs hfs f hmem p hp (hlabel.symm.trans hi)

/-- Two expressions that calculations do not tell apart unless a function takes them by their texts. -/
structure Expression.Interchangeable (e e' : Expression) : Prop where
  value : ∀ s : Scope, s.library.TakesNoTexts → Evaluation.evaluate s e' = Evaluation.evaluate s e
  metadata : ∀ s, Evaluation.metadata? s e' = Evaluation.metadata? s e
  sampled : Evaluation.sampledCell? e' = Evaluation.sampledCell? e

/-- Expressions stay where they are, numbers have to be the same, and so has what a sign and its operand mean. -/
def Rereading.exact : Rereading where
  rows := 0
  columns := 0
  number y x := y = x
  signed s a a' := Expression.Interchangeable (.unary 0 s a) a'

namespace Expression

open Evaluation

variable {a a' b b' e e' : Expression} {p q : Nat} {s name : String} {as as' : List Expression}

/-! ### Units with interchangeable parts -/

theorem Interchangeable.unary (h : Interchangeable a a') (p q : Nat) (s : String) :
    Interchangeable (.unary p s a) (.unary q s a') :=
  ⟨fun scope hlibrary => by rw [evaluate, evaluate, h.value scope hlibrary], fun _ => rfl, rfl⟩

theorem Interchangeable.binary (ha : Interchangeable a a') (hb : Interchangeable b b') (p q : Nat) (s : String) :
    Interchangeable (.binary p s a b) (.binary q s a' b') :=
  ⟨fun scope hlibrary => by rw [evaluate, evaluate, ha.value scope hlibrary, hb.value scope hlibrary],
    fun _ => rfl, rfl⟩

theorem Interchangeable.passArgument (h : Interchangeable e e') {scope : Scope}
    (hlibrary : scope.library.TakesNoTexts) {passing : Passing} (hpassing : passing ≠ .label) :
    passArgument scope passing e' (evaluate scope e') = passArgument scope passing e (evaluate scope e) := by
  rw [h.value scope hlibrary]
  cases passing with
  | value => rfl
  | label => exact absurd rfl hpassing
  | metadata => simp only [Evaluation.passArgument, h.metadata]
  | samples => simp only [Evaluation.passArgument, samplesValue, h.sampled]

theorem evaluateArguments_congr (h : List.Forall₂ Interchangeable as as') {scope : Scope}
    (hlibrary : scope.library.TakesNoTexts) {f : Function} (hpassing : ∀ i, f.passing i ≠ .label) (i : Nat) :
    evaluateArguments scope f i as' = evaluateArguments scope f i as := by
  induction h generalizing i with
  | nil => rfl
  | cons ha _ ih => rw [evaluateArguments, evaluateArguments, ha.passArgument hlibrary (hpassing i), ih]

theorem Interchangeable.call (h : List.Forall₂ Interchangeable as as') (p q : Nat) (name : String) :
    Interchangeable (.call p name as) (.call q name as') := by
  refine ⟨fun scope hlibrary => ?_, fun _ => rfl, rfl⟩
  rw [evaluate, evaluate]
  cases hf : scope.library.find? name with
  | none => rfl
  | some f => simp only [evaluateArguments_congr h hlibrary (hlibrary name f hf)]

theorem Interchangeable.group (h : List.Forall₂ Interchangeable as as') (p q : Nat) (explicit : Bool) :
    Interchangeable (.group p as explicit) (.group q as' explicit) := by
  refine ⟨fun scope hlibrary => ?_, fun _ => rfl, rfl⟩
  cases h with
  | nil => rfl
  | cons ha hrest =>
    cases hrest with
    | nil => rw [evaluate, evaluate, ha.value scope hlibrary]
    | cons => rfl

theorem eq_of_members {cs ds : List (List Value)} (h : List.Forall₂ (List.Forall₂ Rereading.exact.Member) cs ds) :
    cs = ds := by
  have hmember {v w : Value} (hv : Rereading.exact.Member v w) : v = w := by
    cases hv with
    | number y x hx => rw [show y = x from hx]
    | _ => rfl
  refine List.forall₂_eq_eq_eq ▸ h.imp fun _ _ hcolumn => ?_
  exact List.forall₂_eq_eq_eq ▸ hcolumn.imp fun _ _ => hmember

/-! ### Expressions -/

mutual

/-- What is read with the same numbers can take the place of what was written. -/
theorem MovesTo.interchangeable {e e' : Expression} (h : MovesTo .exact e e') : Interchangeable e e' :=
  match h with
  | .literal _ _ _ _ _ => ⟨fun _ _ => rfl, fun _ => rfl, rfl⟩
  | .complex _ _ z w _ _ hreal himaginary => by
    obtain rfl : w = z := by
      obtain ⟨x, y⟩ := z
      obtain rfl : w.real = x := hreal
      obtain rfl : w.imaginary = y := himaginary
      rfl
    exact ⟨fun _ _ => rfl, fun _ => rfl, rfl⟩
  | .cell m n htarget => by
    obtain htarget : n.target = m.target := htarget.trans m.target.moved_zero
    exact ⟨fun _ _ => by rw [evaluate, evaluate, htarget], fun _ => by simp only [metadata?, htarget],
      congrArg Reference.position? htarget⟩
  | .range _ _ r r' hfirst hlast => by
    obtain hfirst : r'.first.target = r.first.target := hfirst.trans r.first.target.moved_zero
    obtain hlast : r'.last.target = r.last.target := hlast.trans r.last.target.moved_zero
    exact ⟨fun _ _ => by rw [evaluate, evaluate, RangeMention.area, RangeMention.area, hfirst, hlast],
      fun _ => by simp only [metadata?, hfirst], rfl⟩
  | .identifier _ _ _ => ⟨fun _ _ => rfl, fun _ => rfl, rfl⟩
  | .operator _ _ _ => ⟨fun _ _ => rfl, fun _ => rfl, rfl⟩
  | .unary p q s _ _ ha => ha.interchangeable.unary p q s
  | .signed p s a a' _ hsigned => by
    have hsame : Interchangeable (.unary 0 s a) a' := hsigned
    exact ⟨fun scope hlibrary => hsame.value scope hlibrary, hsame.metadata, hsame.sampled⟩
  | .binary p q s _ _ _ _ ha hb => ha.interchangeable.binary hb.interchangeable p q s
  | .call p q name _ _ has => .call has.interchangeable p q name
  | .group p q _ _ x has => .group has.interchangeable p q x
  | .array _ _ _ _ hmembers => by
    obtain rfl := eq_of_members hmembers
    exact ⟨fun _ _ => rfl, fun _ => rfl, rfl⟩
  | .missing _ _ => ⟨fun _ _ => rfl, fun _ => rfl, rfl⟩

theorem AllMoveTo.interchangeable {as as' : List Expression} (h : AllMoveTo .exact as as') :
    List.Forall₂ Interchangeable as as' :=
  match h with
  | .nil => .nil
  | .cons _ _ _ _ ha has => .cons ha.interchangeable has.interchangeable

end

/-- Calculations give the same for expressions that can take each other's place. -/
theorem Interchangeable.calculate_eq (h : Interchangeable e e') {s : Scope} (hlibrary : s.library.TakesNoTexts)
    (model : Simulation.Model) : e'.calculate s model = e.calculate s model := by
  rw [calculate, calculate, h.value s hlibrary]

end Expression

end Spreadsheet
