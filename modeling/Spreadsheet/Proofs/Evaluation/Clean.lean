import Spreadsheet.Proofs.Evaluation.Upholds
import Spreadsheet.Proofs.Formula.WellFormed
import Spreadsheet.Proofs.Function.Demand

/-!
Evaluations of well-formed expressions. The error of an expression that cannot be evaluated arises in malformed
expressions only: on a clean store and with clean functions, such as those of the standard library, a well-formed
expression never gives it, so a formula that is read without faults never does.
-/

namespace Spreadsheet

/-! ### Values -/

/-- An error other than that of an expression that cannot be evaluated. -/
def CellError.Clean (e : CellError) : Prop := e.code ≠ .expr

/-- A value none of whose scalars is the error of an expression that cannot be evaluated. -/
def Value.Clean (v : Value) : Prop := ∀ e, .error e ∈ v.flatten → e.Clean

/-- Values all of which are clean. -/
def Value.AllClean (vs : List Value) : Prop := ∀ v ∈ vs, v.Clean

/-- The demand that errors are clean. -/
def Demand.clean : Demand where
  number _ := True
  error := CellError.Clean
  finite _ _ := trivial
  sound _ h := h

theorem Value.meets_clean_iff {v : Value} : v.Meets .clean ↔ v.Clean := by
  constructor
  · exact fun h e he => h (.error e) he
  · intro h u hu
    cases u with
    | error e => exact h e hu
    | complex z => exact ⟨trivial, trivial⟩
    | _ => trivial

theorem Value.clean_undefined : undefined.Clean := meets_clean_iff.1 meets_undefined

/-- A store in which no cell holds an unclean value. -/
def Store.Clean (s : Store) : Prop := ∀ p, (s.read p).Clean

theorem Store.meets_clean_iff {s : Store} : s.Meets .clean ↔ s.Clean := forall_congr' fun _ => Value.meets_clean_iff

/-! ### Functions -/

/-- A function that gives clean values for clean arguments in clean stores, and whose defaults are clean. -/
structure Function.Clean (f : Function) : Prop where
  defaults : ∀ p ∈ f.parameters, ∀ v ∈ p.default, v.Clean
  apply : ∀ site vs, site.store.Clean → Value.AllClean vs → Yields Value.Clean (f.apply site vs)

/-- A library all of whose functions are clean. -/
def Library.Clean (l : Library) : Prop := ∀ name f, l.find? name = some f → f.Clean

theorem Function.meets_clean_iff {f : Function} : f.Meets .clean ↔ f.Clean := by
  have hvalue : Value.Meets .clean = Value.Clean := funext fun _ => propext Value.meets_clean_iff
  constructor
  · intro h
    refine ⟨fun p hp v hv => hvalue ▸ h.defaults p hp v hv, fun site vs hstore hvs => hvalue ▸ ?_⟩
    exact h.apply site vs (Store.meets_clean_iff.2 hstore) ⟨trivial, trivial⟩ fun v hv => Value.meets_clean_iff.2 (hvs v hv)
  · intro h
    refine ⟨fun p hp v hv => hvalue ▸ h.defaults p hp v hv, fun site vs hstore _ hvs => hvalue ▸ ?_⟩
    exact h.apply site vs (Store.meets_clean_iff.1 hstore) fun v hv => Value.meets_clean_iff.1 (hvs v hv)

/-- The standard library is clean. -/
theorem Library.clean_standard : Library.standard.Clean := fun _ _ h =>
  Function.meets_clean_iff.1 (meets_of_standard h fun _ _ => trivial)

/-! ### Evaluations -/

variable {s : Scope} {e u : Expression}

/-- Simulations are clean, since their samples are numbers. -/
theorem Simulation.Model.meets_clean (m : Model) : m.Meets .clean := fun _ _ _ _ _ => trivial

/-- A unit that makes sense makes no unclean value. -/
theorem Expression.WellFormed.unitMeets (h : u.WellFormed) (hlibrary : s.library.Clean) :
    Evaluation.UnitMeets .clean s u := by
  cases h with
  | number p x spelling => exact Value.meets_number.2 trivial
  | text p t spelling => exact Value.meets_text t
  | boolean p b spelling => exact Value.meets_boolean b
  | unary p t a ht _ => exact .inl ht
  | binary p t a b ht hcolon _ _ => exact .inl (Operator.meaning?_isSome t ht hcolon)
  | call p name arguments _ =>
    exact fun f hf => ⟨Function.meets_clean_iff.2 (hlibrary name f hf), fun _ _ _ _ => Simulation.Model.meets_clean _⟩
  | group p a _ => exact .inl rfl
  | array p columns height hcolumns =>
    refine Value.meets_array.2 fun c hc v hv => ?_
    have hmember := (hcolumns c hc).2 v hv
    cases v with
    | number x => exact Value.meets_number.2 trivial
    | text t => exact Value.meets_text t
    | boolean b => exact Value.meets_boolean b
    | undefined => exact Value.meets_undefined
    | _ => cases hmember
  | _ => trivial

theorem Expression.WellFormed.clean_calculate (h : e.WellFormed) (hstore : s.store.Clean)
    (hlibrary : s.library.Clean) (model : Simulation.Model) : (e.calculate s model).value.Clean := by
  refine Value.meets_clean_iff.1 (meets_calculate (Store.meets_clean_iff.2 hstore) ⟨trivial, trivial⟩
    model.meets_clean fun u hu => ?_).1
  rcases h.of_mem_units hu with hunit | ⟨q, rfl⟩ | ⟨r, -, rfl | rfl⟩
  · exact hunit.unitMeets hlibrary
  · trivial
  · trivial
  · trivial

/-- A formula without faults is read as an expression that makes sense at every depth. On a store without cells that
hold the error of an expression that cannot be evaluated, and with a library whose functions do not make it, such as
the standard one, its value does not hold that error either. -/
theorem Formula.clean_of_parse {locale : Locale} {text : String} {e : Expression}
    (herror : (parse locale text).error = none) (he : (parse locale text).expression = some e) :
    e.WellFormed ∧ ∀ (s : Scope) (model : Simulation.Model), s.store.Clean →
      s.library = Library.standard ∨ s.library.Clean → (e.calculate s model).value.Clean := by
  have hwell := wellFormed_of_parse herror he
  refine ⟨hwell, fun s model hstore hlibrary => ?_⟩
  have hclean : s.library.Clean := hlibrary.elim (fun h => h ▸ Library.clean_standard) id
  exact hwell.clean_calculate hstore hclean model

/-- A formula with an argument that is left out, an array and a range, on a sheet without cells. -/
theorem Formula.clean_choice_of_array : ∃ e, (parse {} "=IF(A1:B2>1,, -\x7b1,\"x\";2\x7d%3)").expression = some e ∧
    e.WellFormed ∧ ∀ (clock : Clock) (model : Simulation.Model),
      (e.calculate { store := {}, library := Library.standard, clock, position := ⟨0, 0⟩ } model).value.Clean := by
  obtain ⟨e, he⟩ := Option.isSome_iff_exists.1
    (by decide +kernel : (parse {} "=IF(A1:B2>1,, -\x7b1,\"x\";2\x7d%3)").expression.isSome = true)
  obtain ⟨hwell, hclean⟩ := clean_of_parse (by decide +kernel) he
  have hempty : Store.Clean {} := fun p => by
    rw [Store.read, Store.cell?_empty]
    exact Value.clean_undefined
  exact ⟨e, he, hwell, fun clock model =>
    hclean { store := {}, library := Library.standard, clock, position := ⟨0, 0⟩ } model hempty (.inl (by dsimp only))⟩

end Spreadsheet
