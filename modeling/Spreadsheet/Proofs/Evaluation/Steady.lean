import Spreadsheet.Proofs.Evaluation.Along
import Spreadsheet.Proofs.Evaluation.Mentions

/-!
Steady expressions. The value of an expression that calls no random, clock or simulation function depends
on cells only, so it is the same at all times and whatever the state of the simulation.
-/

namespace Spreadsheet

/-- A function whose calls are not calculated anew in each pass and do not ask for samples. -/
structure Function.Steady (f : Function) : Prop where
  volatile : f.volatile = false
  simulated : f.volatileInSimulation = false
  samples : ∀ i, f.passing i ≠ .samples

/-- An expression all of whose calls are of steady functions. -/
def Expression.Steady (library : Library) (e : Expression) : Prop :=
  ∀ position name args, .call position name args ∈ e.units → ∀ f, library.find? name = some f → f.Steady

theorem Function.not_steady_randomNumbers : ∀ f ∈ Function.randomNumbers, ¬f.Steady := by
  simp only [Function.randomNumbers, List.forall_mem_cons]
  refine ⟨fun h => ?_, fun h => ?_, fun h => ?_, fun h => ?_, by simp⟩
  · cases h.volatile
  · cases h.volatile
  · cases h.simulated
  · exact h.samples 0 rfl

/-- The steady functions of the standard library are local, whatever the time and the state of the simulation. -/
theorem Library.isLocal_of_steady {M : Simulation.Model → Simulation.Model → Prop} {T : Clock → Clock → Prop}
    {name : String} {f : Function} (hf : Library.standard.find? name = some f) (hsteady : f.Steady) : f.Local M T := by
  rcases Library.standard_cases hf with hpure | hrandom | hindirect
  · exact hpure.isLocal (.inr ⟨hsteady.simulated, fun ⟨i, hi⟩ => hsteady.samples i hi⟩) (.inl hsteady.volatile)
  · exact absurd hsteady (Function.not_steady_randomNumbers f hrandom)
  · exact Function.isLocal_indirect f hindirect

namespace Expression

open Dependencies

mutual

/-- A walk that passes over some parts visits no other units. -/
theorem walk_subset_units (enter : Expression → Bool) (e : Expression) : e.walk enter ⊆ e.units := by
  intro u hu
  unfold units
  unfold walk at hu ⊢
  rw [List.mem_cons] at hu ⊢
  refine hu.imp_right fun hu => ?_
  split at hu
  · rw [if_pos rfl]
    cases e with
    | unary position symbol a => exact walk_subset_units enter a hu
    | binary position symbol a b =>
      rw [List.mem_append] at hu ⊢
      exact hu.imp (fun hu => walk_subset_units enter a hu) fun hu => walk_subset_units enter b hu
    | call position name args => exact walkList_subset_units enter args hu
    | group position items explicit => exact walkList_subset_units enter items hu
    | range position r => exact hu
    | _ => cases hu
  · cases hu

theorem walkList_subset_units (enter : Expression → Bool) (es : List Expression) :
    walkList enter es ⊆ walkList (fun _ => true) es := by
  cases es with
  | nil => exact List.Subset.refl _
  | cons e es =>
    intro u hu
    unfold walkList at hu ⊢
    rw [List.mem_append] at hu ⊢
    exact hu.imp (fun hu => walk_subset_units enter e hu) fun hu => walkList_subset_units enter es hu

end

section

variable (s : Scope) (store' : Store) (clock' : Clock) (model model' : Simulation.Model) (e : Expression)

/-- A steady expression comes to the same in two stores that agree on what it mentions and on the areas that both
evaluations report, at all times. -/
theorem steady_congr (hlibrary : s.library = Library.standard) (hsteady : e.Steady s.library)
    (hnames : ∀ (name : String) a, s.names[name]? = some a → a.Ordered)
    (hmentioned : ∀ p, (ofExpression s.names s.sheet e).Mentions p → s.store.AgreeAt store' p)
    (hextent : ∀ a ∈ (ofExpression s.names s.sheet e).areas,
      a.isBounded = true ∨ store'.rows = s.store.rows ∧ store'.columns = s.store.columns)
    (hreported : ∀ a ∈ (e.calculate s model).areas,
      a ∈ (e.calculate { s with store := store', clock := clock' } model').areas → s.store.AgreeOn store' a) :
    (e.calculate { s with store := store', clock := clock' } model').value = (e.calculate s model).value ∧
      (e.calculate { s with store := store', clock := clock' } model').areas = (e.calculate s model).areas := by
  have hunits (u : Expression) (hu : u ∈ e.walk entersUnit) :
      Evaluation.UnitLocal (fun _ _ => True) (fun _ _ => True) s store' u := by
    refine Evaluation.unitLocal_of_dependencies hnames hmentioned hextent
      (fun position name args hcall f hf => ?_) hu
    have hunit := walk_subset_units _ e hu
    rw [hcall] at hunit
    have hf' := hsteady position name args hunit f hf
    rw [hlibrary] at hf
    exact Library.isLocal_of_steady hf hf'
  have hfollows : Follows (Evaluation.sideBySide fun _ _ => True) (s.store.AgreeOn store') (Evaluation.evaluate s e)
      (Evaluation.evaluate { s with store := store', clock := clock' } e) :=
    Evaluation.follows_evaluate (fun _ => trivial) trivial e hunits
  have hstart : (Evaluation.sideBySide fun _ _ => True).related { effects := { model } }
      { effects := { model := model' } } := ⟨rfl, rfl, rfl, trivial⟩
  obtain ⟨hvalue, -, -, hareas, -⟩ := hfollows.agrees _ _ hstart hreported
  exact ⟨hvalue, hareas⟩

/-- The value of a steady expression is the same in two stores that agree on the cells that it mentions and on
those of the areas that the first evaluation reports, when all areas that it refers to are bounded, at all times. -/
theorem value_congr (hlibrary : s.library = Library.standard) (hsteady : e.Steady s.library)
    (hnames : ∀ (name : String) a, s.names[name]? = some a → a.Ordered)
    (hmentioned : ∀ p, (ofExpression s.names s.sheet e).Mentions p → s.store.AgreeAt store' p)
    (hbounded : ∀ a ∈ (ofExpression s.names s.sheet e).areas, a.isBounded = true)
    (hreported : ∀ a ∈ (e.calculate s model).areas, ∀ p, a.contains p = true → s.store.AgreeAt store' p)
    (hbounded' : ∀ a ∈ (e.calculate { s with store := store', clock := clock' } model').areas, a.isBounded = true) :
    (e.calculate { s with store := store', clock := clock' } model').value = (e.calculate s model).value :=
  (steady_congr s store' clock' model model' e hlibrary hsteady hnames hmentioned
    (fun a ha => .inl (hbounded a ha)) fun a ha ha' => ⟨hreported a ha, .inl (hbounded' a ha')⟩).1

end

end Expression

/-! ### Direct expressions

An expression all of whose calls are of functions that refer to no areas by themselves reports no areas: all that it
reads is mentioned in it. Of the standard functions only `INDIRECT` refers to areas.
-/

/-- A function that refers to no areas by itself. -/
def Function.Direct (f : Function) : Prop :=
  ∀ site vs (effects : Effects), ((f.apply site vs).run effects).2.areas = effects.areas

/-- An expression all of whose calls are of direct functions. -/
def Expression.Direct (library : Library) (e : Expression) : Prop :=
  ∀ position name args, .call position name args ∈ e.units → ∀ f, library.find? name = some f → f.Direct

/-- The steady functions of the standard library are direct, apart from `INDIRECT`. -/
theorem Library.direct_of_steady {name : String} {f : Function} (hf : Library.standard.find? name = some f)
    (hsteady : f.Steady) (hname : f.name ≠ "INDIRECT") : f.Direct := by
  rcases Library.standard_cases hf with ⟨g, hg, -⟩ | hrandom | hindirect
  · intro site vs effects
    rw [hg]
    rfl
  · exact absurd hsteady (Function.not_steady_randomNumbers f hrandom)
  · rw [Function.indirect, List.mem_singleton] at hindirect
    exact absurd (congrArg Function.name hindirect) hname

/-- The same areas have been referred to. -/
def Effects.SameAreas (e e' : Effects) : Prop := e'.areas = e.areas

instance : IsPreorder Effects Effects.SameAreas where
  refl _ := rfl
  trans _ _ _ h h' := Eq.trans h' h

/-- Direct expressions report no areas. -/
theorem Expression.Direct.areas_calculate {s : Scope} {e : Expression} (h : e.Direct s.library)
    (model : Simulation.Model) : (e.calculate s model).areas = [] := by
  have hunits : ∀ u ∈ e.units, Evaluation.UnitAlong Effects.SameAreas s u := fun u hu =>
    ⟨fun position name args f hcall hf => h position name args (hcall ▸ hu) f hf, fun _ _ _ _ => rfl⟩
  exact Evaluation.along_evaluate e hunits { effects := { model } }

end Spreadsheet
