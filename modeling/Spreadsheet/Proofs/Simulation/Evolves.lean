import Spreadsheet.Proofs.Evaluation.Along
import Spreadsheet.Proofs.Function.Standard

/-!
Simulations while cells are calculated. Functions draw random numbers and do nothing else to a simulation; evaluations
register cells besides, in the preparing pass only. So what has been recorded stays as it is until the next trial.
-/

namespace Spreadsheet

variable {cells : Position → Prop} {p : Position}

/-! ### Models -/

namespace Simulation.Model

variable {m m' : Model}

/-- The second model comes from the first one by drawing random numbers and, in a preparing pass, by registering some
of the given cells. -/
structure Evolves (cells : Position → Prop) (m m' : Model) : Prop where
  phase : m'.phase = m.phase
  iteration : m'.iteration = m.iteration
  iterations : m'.iterations = m.iterations
  samples : ∀ p : Position, m'.samples[p]? = m.samples[p]? ∨ m.phase = .preparing ∧ cells p ∧ m.samples[p]? = none ∧
    m'.samples[p]? = some (Array.replicate m.iterations 0)

instance : IsPreorder Model (Evolves cells) where
  refl m := ⟨rfl, rfl, rfl, fun _ => .inl rfl⟩
  trans m m' m'' h h' := by
    refine ⟨h'.phase.trans h.phase, h'.iteration.trans h.iteration, h'.iterations.trans h.iterations, fun p => ?_⟩
    have hp' := h'.samples p
    rw [h.phase, h.iterations] at hp'
    rcases h.samples p with hp | ⟨hphase, hcell, hnone, hp⟩
    · rw [← hp]
      exact hp'
    · rcases hp' with hp' | ⟨-, -, hnone', -⟩
      · exact .inr ⟨hphase, hcell, hnone, hp'.trans hp⟩
      · rw [hp] at hnone'
        cases hnone'

/-- Outside preparing passes no samples change. -/
theorem Evolves.samples_eq (h : m.Evolves cells m') (hphase : m.phase ≠ .preparing) (p : Position) :
    m'.samples[p]? = m.samples[p]? :=
  (h.samples p).resolve_right fun hp => hphase hp.1

theorem evolves_generator (m : Model) (generator : Generator) : m.Evolves cells { m with generator } :=
  ⟨rfl, rfl, rfl, fun _ => .inl rfl⟩

theorem evolves_register (hphase : m.phase = .preparing) (hp : cells p) : m.Evolves cells (m.register p) := by
  unfold register
  split
  · exact refl_of (Evolves cells) m
  · rename_i hnew
    refine ⟨rfl, rfl, rfl, fun q => ?_⟩
    simp only [Std.TreeMap.getElem?_insert, Std.LawfulEqCmp.compare_eq_iff_eq]
    split
    · rename_i hq
      subst hq
      exact .inr ⟨hphase, hp, Std.TreeMap.getElem?_eq_none (by simpa using hnew), rfl⟩
    · exact .inl rfl

end Simulation.Model

/-! ### Functions -/

namespace Effects

/-- Random numbers have been drawn, and nothing else has been done to the simulation. -/
def Draws (e e' : Effects) : Prop := ∃ generator, e'.model = { e.model with generator }

instance : IsPreorder Effects Draws where
  refl e := ⟨e.model.generator, rfl⟩
  trans _ _ _ := by
    rintro ⟨_, h⟩ ⟨generator, h'⟩
    exact ⟨generator, by rw [h', h]⟩

/-- The simulation has evolved. -/
def Evolve (cells : Position → Prop) (e e' : Effects) : Prop := e.model.Evolves cells e'.model

instance : IsPreorder Effects (Evolve cells) where
  refl e := refl_of (Simulation.Model.Evolves cells) e.model
  trans _ _ _ h h' := trans_of (Simulation.Model.Evolves cells) h h'

theorem Draws.evolve {e e' : Effects} (h : e.Draws e') : e.Evolve cells e' := by
  obtain ⟨generator, h⟩ := h
  rw [Evolve, h]
  exact e.model.evolves_generator generator

end Effects

namespace Function

/-- A function that does nothing to a simulation but draw random numbers. -/
def Sparing (f : Function) : Prop := ∀ site vs, Along Effects.Draws (f.apply site vs)

theorem IsPure.sparing {f : Function} (hf : f.IsPure) : f.Sparing := by
  obtain ⟨g, hg, -⟩ := hf
  intro site vs
  rw [hg]
  exact .pure _

theorem draws_random : Along Effects.Draws Action.random := fun _ => ⟨_, rfl⟩

theorem draws_between (x y : Float) : Along Effects.Draws (between x y) := draws_random.bind fun _ => .pure _

theorem draws_ofTwoNumbersM {f : Float → Float → Action Value} (hf : ∀ x y, Along Effects.Draws (f x y))
    (vs : List Value) : Along Effects.Draws (ofTwoNumbersM f vs) := by
  refine .elementwiseM (fun xs => ?_) _
  split
  · exact hf _ _
  · exact .pure _

theorem sparing_randomNumbers : ∀ f ∈ randomNumbers, f.Sparing := by
  simp only [randomNumbers, List.forall_mem_cons]
  exact ⟨fun _ _ => draws_random.bind fun _ => .pure _, fun _ vs => draws_ofTwoNumbersM draws_between vs,
    fun _ vs => draws_ofTwoNumbersM draws_between vs, (isPure_plain _ _ _ _).sparing, by simp⟩

theorem draws_readText (site : CallSite) (text : String) : Along Effects.Draws (readText site text) := by
  have hrefer (a : Area) : Along Effects.Draws (Action.refer a) := fun e => ⟨e.model.generator, rfl⟩
  unfold readText
  split
  · exact .pure _
  · split
    · exact (hrefer _).bind fun _ => .pure _
    · exact .pure _

theorem sparing_indirect : ∀ f ∈ indirect, f.Sparing := by
  simp only [indirect, List.forall_mem_cons]
  exact ⟨fun site vs => Along.elementwiseM (fun xs => draws_readText site (argument xs 0).toText) (vs.take 1), by simp⟩

end Function

/-- A library of functions that do nothing to a simulation but draw random numbers. -/
def Library.Sparing (l : Library) : Prop := ∀ name f, l.find? name = some f → f.Sparing

theorem Library.sparing_standard : Library.standard.Sparing := fun _ f hf => by
  rcases standard_cases hf with hpure | hrandom | hindirect
  · exact hpure.sparing
  · exact Function.sparing_randomNumbers f hrandom
  · exact Function.sparing_indirect f hindirect

/-! ### Expressions -/

namespace Expression

variable {s : Scope} {e : Expression}

/-- Whether all cells that an expression mentions are among the given ones. -/
def MentionsOnly (cells : Position → Prop) (e : Expression) : Prop :=
  ∀ m p, .cell m ∈ e.units → m.target.position? = some p → cells p

theorem unitAlong_of_mentionsOnly (hlibrary : s.library.Sparing) (h : e.MentionsOnly cells) :
    ∀ u ∈ e.units, Evaluation.UnitAlong (Effects.Evolve cells) s u := fun u hu => by
  refine ⟨fun _ name _ f _ hf site vs effects => (hlibrary name f hf site vs effects).evolve,
    fun p hp effects hphase => ?_⟩
  cases u with
  | cell m => exact Simulation.Model.evolves_register hphase (h m p hu hp)
  | _ => cases hp

/-- The calculation of an expression draws random numbers and, in a preparing pass, registers cells that it mentions. -/
theorem evolves_calculate (hlibrary : s.library.Sparing) (h : e.MentionsOnly cells) (model : Simulation.Model) :
    model.Evolves cells (e.calculate s model).model :=
  Evaluation.along_evaluate e (unitAlong_of_mentionsOnly hlibrary h) { effects := { model } }

theorem evolves_callArguments (hlibrary : s.library.Sparing) (h : e.MentionsOnly cells) (model : Simulation.Model) :
    model.Evolves cells (e.callArguments s model).2 := by
  unfold callArguments
  split
  · split
    · exact Evaluation.along_evaluateArguments _ 0 _ (fun a ha u hu =>
        unitAlong_of_mentionsOnly hlibrary h u (units_argument ha hu)) { effects := { model }, calls := 1 }
    · exact refl_of (Simulation.Model.Evolves cells) model
  · exact refl_of (Simulation.Model.Evolves cells) model

end Expression

end Spreadsheet
