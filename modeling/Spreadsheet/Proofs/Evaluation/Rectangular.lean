import Spreadsheet.Proofs.Evaluation.Upholds
import Spreadsheet.Proofs.Formula.WellFormed
import Spreadsheet.Proofs.Function.Rectangular
import Spreadsheet.Proofs.Store

/-!
Evaluations give rectangular values. On a store of rectangular values and with rectangular arrays written in it, every
expression has a rectangular value, whether it makes sense or not; so showing and turning arrays and bringing arguments
to a common shape never look for an element where there is none.
-/

namespace Spreadsheet

/-- The value that a unit writes out. -/
def Expression.written? : Expression → Option Value
  | .literal _ v _ => some v
  | .array _ columns => some (.array columns)
  | _ => none

/-- An expression that writes out rectangular values only. -/
def Expression.Rectangular (e : Expression) : Prop := ∀ u ∈ e.units, ∀ v ∈ u.written?, v.Rectangular

namespace Evaluation

open Value (AllRectangular)

variable {s : Scope} {e : Expression}

/-- The samples of a cell are a single column of numbers. -/
theorem rectangular_collected (model : Simulation.Model) (p : Position) : (model.collected p).Rectangular := by
  unfold Simulation.Model.collected
  split
  · exact Value.rectangular_of_columns (List.forall_mem_singleton.2
      ⟨rfl, List.forall_mem_map.2 fun x _ => Value.rectangular_number x⟩)
  · simp

theorem grounds_of_rectangular (h : s.store.Rectangular) : Grounds (fun _ => True) Value.Rectangular s where
  undefined := Value.rectangular_undefined
  text := Value.rectangular_text
  boolean := Value.rectangular_boolean
  error e _ := Value.rectangular_error e
  complex := Value.rectangular_ofComplex
  read := h
  area := h.readArea?
  metadata p _ := Value.rectangular_metadata.2 (h p)
  samples e p _ := rectangular_collected e.model p
  register _ _ _ := trivial

theorem unitUpholds_of_rectangular (hlibrary : s.library = .standard) (hstore : s.store.Rectangular) {u : Expression}
    (h : ∀ v ∈ u.written?, v.Rectangular) : UnitUpholds (fun _ => True) Value.Rectangular s u := by
  cases u with
  | literal p v spelling => exact h v rfl
  | array p columns => exact h _ rfl
  | operator p symbol => exact Value.rectangular_ofCode _
  | unary p symbol a => exact fun v hv => Operator.rectangular_applySign symbol hv
  | binary p symbol a b => exact fun v w hv hw => Operator.rectangular_applyBinary symbol hv hw
  | call p name args =>
    intro f hf
    have hrectangular := Library.rectangular_of_standard (hlibrary ▸ hf)
    exact ⟨hrectangular.defaults, fun index vs hvs => (hrectangular.apply _ vs hstore hvs).upholds fun _ _ => trivial⟩
  | group p items explicit => exact fun _ => Value.rectangular_ofCode _
  | _ => trivial

/-- Every expression that writes out rectangular values gives one, whatever happened before. -/
theorem yields_rectangular_evaluate (hlibrary : s.library = .standard) (hstore : s.store.Rectangular)
    (h : e.Rectangular) : Yields Value.Rectangular (evaluate s e) :=
  (upholds_evaluate (grounds_of_rectangular hstore) e
    fun u hu => unitUpholds_of_rectangular hlibrary hstore (h u hu)).yields

/-- So do arguments. -/
theorem yields_rectangular_evaluateArguments (hlibrary : s.library = .standard) (hstore : s.store.Rectangular)
    (f : Function) (i : Nat) {es : List Expression} (h : ∀ e ∈ es, e.Rectangular) :
    Yields (fun vs => ∀ ws ∈ vs, AllRectangular ws) (evaluateArguments s f i es) :=
  (upholds_evaluateArguments (grounds_of_rectangular hstore) f i es
    fun a ha u hu => unitUpholds_of_rectangular hlibrary hstore (h a ha u hu)).yields

/-! ### Elements that are looked for -/

/-- In the evaluation of a unit every element that is looked for is there: its value can be shown and turned, and so
can the arguments of a call as they reach the function, and both the operands of an operator and the arguments of a
call, as many of them as the function takes, can be brought to a common shape. -/
structure InBounds (s : Scope) (g : Progress) (u : Expression) : Prop where
  value : ((evaluate s u).run g).1.Filled
  operands : ∀ position symbol a b, u = .binary position symbol a b → ∀ g',
    Value.Recyclable [((evaluate s a).run g).1, ((evaluate s b).run g').1]
  arguments : ∀ position name args f, u = .call position name args → s.library.find? name = some f →
    ∀ vs ∈ ((evaluateArguments s f 0 args).run g).1, (∀ v ∈ Function.fillDefaults f.parameters vs, v.Filled) ∧
      ∀ n, Value.Recyclable ((Function.fillDefaults f.parameters vs).take n)

theorem inBounds (hlibrary : s.library = .standard) (hstore : s.store.Rectangular) (h : e.Rectangular)
    (g : Progress) : InBounds s g e := by
  refine ⟨(yields_rectangular_evaluate hlibrary hstore h g).filled, ?_, ?_⟩
  · rintro position symbol a b rfl g'
    have ha := yields_rectangular_evaluate (e := a) hlibrary hstore (fun u hu => h u (Expression.units_left hu)) g
    have hb := yields_rectangular_evaluate (e := b) hlibrary hstore (fun u hu => h u (Expression.units_right hu)) g'
    exact AllRectangular.recyclable (by simp only [Value.allRectangular_cons]; exact ⟨ha, hb, Value.allRectangular_nil⟩)
  · rintro position name args f rfl hf vs hvs
    have hargs := yields_rectangular_evaluateArguments hlibrary hstore f 0
      (fun a ha u hu => h u (Expression.units_argument ha hu)) g vs hvs
    have hfilled : AllRectangular (Function.fillDefaults f.parameters vs) :=
      (grounds_of_rectangular hstore).fillDefaults (Library.rectangular_of_standard (hlibrary ▸ hf)).defaults hargs
    exact ⟨fun v hv => (hfilled v hv).filled, fun n => (hfilled.take n).recyclable⟩

end Evaluation

/-- On a store of rectangular values, an expression in which only rectangular values are written has a rectangular
value; and wherever its evaluation shows or turns an array or brings operands to a common shape, the elements that it
looks for are there. -/
theorem Expression.rectangular_calculate {s : Scope} {e : Expression} (hlibrary : s.library = .standard)
    (hstore : s.store.Rectangular) (he : e.Rectangular) (model : Simulation.Model) :
    (e.calculate s model).value.Rectangular ∧ (e.calculate s model).value.Filled ∧
      ∀ u ∈ e.units, ∀ g, Evaluation.InBounds s g u := by
  have hvalue : (e.calculate s model).value.Rectangular :=
    Evaluation.yields_rectangular_evaluate hlibrary hstore he { effects := { model } }
  exact ⟨hvalue, hvalue.filled, fun u hu =>
    Evaluation.inBounds hlibrary hstore fun w hw => he w (Expression.units_subset e hu hw)⟩

/-- What is read of a formula without faults writes out rectangular values only. -/
theorem Expression.WellFormed.rectangular {e : Expression} (h : e.WellFormed) : e.Rectangular := by
  intro u hu
  rcases h.of_mem_units hu with hunit | ⟨q, rfl⟩ | ⟨r, -, rfl | rfl⟩
  · cases hunit with
    | number p x spelling => simp [written?]
    | text p t spelling => simp [written?]
    | boolean p b spelling => simp [written?]
    | array p columns height hcolumns =>
      rintro _ ⟨⟩
      refine Value.rectangular_of_columns fun c hc => ⟨(hcolumns c hc).1, fun v hv => ?_⟩
      have hmember := (hcolumns c hc).2 v hv
      cases v <;> first | (simp; done) | cases hmember
    | _ => rintro _ ⟨⟩
  · rintro _ ⟨⟩
  · rintro _ ⟨⟩
  · rintro _ ⟨⟩

/-- A formula that builds arrays of different shapes, on a sheet with an array in a cell. -/
theorem Expression.rectangular_transpose_choice : ∃ e,
    (Formula.parse {} "=TRANSPOSE(IF(A1:B2,INDIRECT(\"A1:A2\"),\x7b1,2;3,4\x7d))").expression = some e ∧
      ∃ store : Store, store.read ⟨0, 0⟩ = .array [[.number 1], [.number 2]] ∧ store.Rectangular ∧ e.Rectangular ∧
        ∀ (clock : Clock) (model : Simulation.Model),
          (e.calculate { store, library := .standard, clock, position := ⟨5, 5⟩ } model).value.Rectangular := by
  obtain ⟨e, he⟩ := Option.isSome_iff_exists.1 (by decide +kernel :
    (Formula.parse {} "=TRANSPOSE(IF(A1:B2,INDIRECT(\"A1:A2\"),\x7b1,2;3,4\x7d))").expression.isSome = true)
  have hrectangular := (Formula.wellFormed_of_parse (by decide +kernel) he).rectangular
  have hread (p : Position) : (({} : Store).setValue ⟨0, 0⟩ (.array [[.number 1], [.number 2]])).read p =
      if ⟨0, 0⟩ = p then .array [[.number 1], [.number 2]] else .undefined := by
    rw [Store.read, Store.setValue, Store.cell?_update]
    by_cases hp : ⟨0, 0⟩ = p
    · rw [if_pos hp, if_pos hp]
      rfl
    · rw [if_neg hp, if_neg hp, Store.cell?_empty]
  have hstore : (({} : Store).setValue ⟨0, 0⟩ (.array [[.number 1], [.number 2]])).Rectangular := fun p => by
    rw [hread p]
    split
    · exact Value.rectangular_of_columns (n := 1) (by simp)
    · exact Value.rectangular_undefined
  refine ⟨e, he, _, (hread ⟨0, 0⟩).trans (if_pos rfl), hstore, hrectangular, fun clock model => ?_⟩
  have hlibrary (store : Store) : ({ store, library := .standard, clock, position := ⟨5, 5⟩ } : Scope).library =
      Library.standard := by dsimp only
  exact (Expression.rectangular_calculate (hlibrary _) hstore hrectangular model).1

end Spreadsheet
