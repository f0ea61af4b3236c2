import Spreadsheet.Formula.Parse
import Spreadsheet.Proofs.Evaluation.Mentions

/-!
Expressions that mention other sheets only. Other sheets cannot be read, so such an expression has the same value
whatever the cells and the samples of the sheet are, and registers no cell. A range counts as one on the sheet of its
first corner, and a cell that an argument asks the samples of counts as one on the sheet.
-/

namespace Spreadsheet

open Evaluation

/-- What a unit by itself refers to lies on other sheets: it is no cell of the sheet, no range that starts on it, no
name of an area, and no call that makes references of texts or asks for the samples of a cell. -/
def Expression.UnitForeign (s : Scope) : Expression → Prop
  | .cell m => m.target.isOnSheet s.sheet = false
  | .range _ r => r.first.target.isOnSheet s.sheet = false
  | .identifier _ name => s.names[Text.upper name]? = none
  | .call _ name args => ∀ f ∈ s.library.find? name, f.name ≠ "INDIRECT" ∧
    ∀ a ∈ args.zipIdx, f.passing a.2 = .samples → sampledCell? a.1 = none
  | _ => True

/-- All that an expression refers to lies on other sheets. -/
def Expression.Foreign (s : Scope) (e : Expression) : Prop :=
  ∀ u ∈ e.walk Dependencies.entersUnit, u.UnitForeign s

instance (s : Scope) (u : Expression) : Decidable (u.UnitForeign s) :=
  match u with
  | .cell m => inferInstanceAs (Decidable (m.target.isOnSheet s.sheet = false))
  | .range _ r => inferInstanceAs (Decidable (r.first.target.isOnSheet s.sheet = false))
  | .identifier _ name => inferInstanceAs (Decidable (s.names[Text.upper name]? = none))
  | .call _ name args => inferInstanceAs (Decidable (∀ f ∈ s.library.find? name, f.name ≠ "INDIRECT" ∧
      ∀ a ∈ args.zipIdx, f.passing a.2 = .samples → sampledCell? a.1 = none))
  | .literal _ _ _ | .complex _ _ _ | .imaginary _ _ _ | .array _ _ | .missing _ | .operator _ _ | .unary _ _ _
  | .binary _ _ _ _ | .group _ _ _ => .isTrue trivial

instance (s : Scope) (e : Expression) : Decidable (e.Foreign s) :=
  inferInstanceAs (Decidable (∀ u ∈ e.walk Dependencies.entersUnit, u.UnitForeign s))

namespace Simulation.Model

/-- Two models that have the given samples and are the same apart from them. -/
structure Apart (σ σ' : Samples) (m m' : Model) : Prop where
  samples : m.samples = σ
  same : m' = { m with samples := σ' }

variable {σ σ' : Samples} {m m' : Model}

theorem Apart.phase_eq (h : Apart σ σ' m m') : m'.phase = m.phase := by rw [h.same]

theorem drawsAlike_apart : Function.DrawsAlike (Apart σ σ') := by
  rintro m _ ⟨rfl, rfl⟩
  exact ⟨rfl, rfl, rfl⟩

end Simulation.Model

open Simulation (Samples)
open Simulation.Model (Apart)

/-! ### Functions -/

/-- The standard functions but `INDIRECT` read no cells and no samples. -/
theorem Library.follows_standard {σ σ' : Samples} {name : String} {f : Function}
    (hf : Library.standard.find? name = some f) (hname : f.name ≠ "INDIRECT") (P : Area → Prop) (site : CallSite)
    (store' : Store) (vs : List Value) : Follows (effectsSideBySide (Apart σ σ')) P (f.apply site vs)
      (f.apply { site with store := store' } vs) := by
  rcases Library.standard_cases hf with hpure | hrandom | hindirect
  · exact hpure.follows site store' (.inr rfl) vs P
  · exact Function.follows_randomNumbers Simulation.Model.drawsAlike_apart P f hrandom site store' site.clock vs
  · rw [Function.indirect, List.mem_singleton] at hindirect
    exact absurd (congrArg Function.name hindirect) hname

/-! ### Units -/

namespace Evaluation

variable {s : Scope} {store' : Store} {σ σ' : Samples} {P : Area → Prop} {e : Expression} {m : Mention}

theorem cellValue_foreign (s : Scope) (h : m.target.isOnSheet s.sheet = false) : cellValue s m.target = .ofCode .ref := by
  unfold cellValue
  rw [h]
  cases m.target.position? <;> rfl

theorem areaValue_foreign (s : Scope) {a : Area} (h : a.first.isOnSheet s.sheet = false) : areaValue s a = .ofCode .ref := by
  rw [areaValue, h]
  rfl

theorem nameValue_foreign {name : String} (h : s.names[Text.upper name]? = none) (area area' : Area → Value) :
    nameValue s name area' = nameValue s name area := by
  simp only [nameValue, h]

/-- No cell of another sheet is passed as metadata. -/
theorem metadata?_foreign (s : Scope) (h : e.UnitForeign s) : metadata? s e = none := by
  cases e with
  | cell m =>
    have hsheet : m.target.isOnSheet s.sheet = false := h
    simp [metadata?, hsheet]
  | range p r =>
    have hsheet : r.first.target.isOnSheet s.sheet = false := h
    simp [metadata?, hsheet]
  | _ => rfl

/-- Only cells are asked for samples. -/
theorem samplesValue_of_none (h : sampledCell? e = none) (x : Step Value) : samplesValue e x = x :=
  StateT.ext fun g => by simp [samplesValue, h]

/-- What each unit that refers to other sheets does is the same for all cells and samples. -/
theorem compatible_of_foreign (hlibrary : s.library = Library.standard) :
    Compatible (sideBySide (Apart σ σ')) P s { s with store := store' } (Expression.UnitForeign s) where
  library := rfl
  cell _ h := (cellValue_foreign { s with store := store' } h).trans (cellValue_foreign s h).symm
  range _ r h :=
    have hsheet : r.area.first.isOnSheet s.sheet = false := h
    (areaValue_foreign { s with store := store' } hsheet).trans (areaValue_foreign s hsheet).symm
  name _ _ h := nameValue_foreign h _ _
  count := follows_countCall
  volatile _ _ _ f _ _ := follows_noteVolatile fun m m' h => by
    rw [Simulation.Model.isActive, Simulation.Model.isActive, h.phase_eq]
  argument _ _ args f i e x x' hcall hf he hunit hx := by
    cases hpassing : f.passing i with
    | value => exact hx.map some
    | label => exact .pure_of_eq rfl
    | metadata => exact .pure_of_eq ((metadata?_foreign { s with store := store' } hunit).trans (metadata?_foreign s hunit).symm)
    | samples =>
      have hnone := (hcall f hf).2 (e, i) (List.mem_zipIdx_iff_getElem?.2 he) hpassing
      simp only [passArgument, samplesValue_of_none hnone]
      exact hx.map some
  apply _ _ _ f index vs hcall hf := by
    refine follows_applyFunction (fun site _ hclock vs => ?_) index vs
    rw [← hclock]
    exact Library.follows_standard (hlibrary ▸ hf) (hcall f hf).1 P site store' vs

end Evaluation

/-! ### Expressions -/

namespace Expression

/-- An expression that refers to other sheets only registers no cell for sampling, and has the same value whatever the
cells of the sheet and the samples are. -/
theorem calculate_of_foreign (s : Scope) (store' : Store) (model : Simulation.Model) (samples : Samples)
    (e : Expression) (hlibrary : s.library = Library.standard) (hforeign : e.Foreign s) :
    (e.calculate s model).model.watched = model.watched ∧
      (e.calculate { s with store := store' } { model with samples }).value = (e.calculate s model).value := by
  have hfollows : Follows (sideBySide (Apart model.samples samples)) (fun _ => True) (evaluate s e)
      (evaluate { s with store := store' } e) := (compatible_of_foreign hlibrary).follows_evaluate e hforeign
  have hstart : (sideBySide (Apart model.samples samples)).related { effects := { model } }
      { effects := { model := { model with samples } } } := ⟨rfl, rfl, rfl, rfl, rfl⟩
  obtain ⟨hvalue, -, -, -, hmodel⟩ := hfollows.agrees _ _ hstart fun _ _ _ => trivial
  exact ⟨congrArg Std.TreeMap.keys hmodel.samples, hvalue⟩

/-- A simulation that is being prepared. -/
def preparing : Simulation.Model := { Simulation.Model.ofSeed 1 with phase := .preparing }

theorem calculate_of_foreign_sum :
    ∃ e ∈ (Formula.parse {} "=SUM(Other!A1:C3, 'My Sheet'!$B2) + SIMULATIONDATA(Other!B:B)").expression,
      e.Foreign (scopeOf 1) ∧ (e.calculate (scopeOf 1) preparing).model.watched = [] ∧
      (e.calculate { scopeOf 1 with store := storeOf 2 } { preparing with samples := ∅ }).value =
        (e.calculate (scopeOf 1) preparing).value := by
  obtain ⟨e, he⟩ := Option.isSome_iff_exists.1 (show
    (Formula.parse {} "=SUM(Other!A1:C3, 'My Sheet'!$B2) + SIMULATIONDATA(Other!B:B)").expression.isSome = true by
    decide +kernel)
  have hchecked : ∀ e ∈ (Formula.parse {} "=SUM(Other!A1:C3, 'My Sheet'!$B2) + SIMULATIONDATA(Other!B:B)").expression,
      e.Foreign (scopeOf 1) := by decide +kernel
  obtain ⟨hwatched, hvalue⟩ := calculate_of_foreign (scopeOf 1) (storeOf 2) preparing ∅ e (by simp only [scopeOf])
    (hchecked e he)
  exact ⟨e, he, hchecked e he, hwatched, hvalue⟩

/-- A cell of another sheet that is asked for its samples is registered as the cell of this sheet at the same
position, and a range whose second corner only names another sheet is read from this sheet. -/
theorem foreign_exceptions :
    (∃ e ∈ (Formula.parse {} "=SIMULATIONDATA(Other!B2)").expression,
      (e.calculate (scopeOf 1) preparing).model.watched = [⟨1, 1⟩]) ∧
    ∃ e ∈ (Formula.parse {} "=SUM(A1:Other!B2)").expression,
      ((e.calculate { scopeOf 1 with store := storeOf 2 } preparing).value ==
        (e.calculate (scopeOf 1) preparing).value) = false := by
  decide +kernel

end Expression

end Spreadsheet
