import Mathlib.Order.Defs.Unbundled
import Spreadsheet.Evaluation
import Spreadsheet.Proofs.Expression.Units

/-!
What evaluations do to their effects. A reflexive and transitive relation holds between the effects before and after
the evaluation of an expression if it holds for what each function does that is called, and for each cell that is
registered.
-/

namespace Spreadsheet

section

variable {σ α β γ : Type} {R : σ → σ → Prop}

/-- Every run of an action leads from a state to a related one. -/
def Along (R : σ → σ → Prop) (x : StateM σ α) : Prop := ∀ t, R t (x.run t).2

namespace Along

theorem map {x : StateM σ α} (f : α → β) (hx : Along R x) : Along R (f <$> x) := fun t => hx t

variable [IsPreorder σ R]

theorem pure (a : α) : Along R (Pure.pure a) := fun t => refl_of R t

theorem bind {x : StateM σ α} {f : α → StateM σ β} (hx : Along R x) (hf : ∀ a, Along R (f a)) :
    Along R (x >>= f) := fun t => trans_of R (hx t) (hf (x.run t).1 (x.run t).2)

theorem mapM {f : γ → StateM σ α} (hf : ∀ c, Along R (f c)) (cs : List γ) : Along R (cs.mapM f) := by
  induction cs with
  | nil => exact pure []
  | cons c cs ih =>
    rw [List.mapM_cons]
    exact (hf c).bind fun a => ih.bind fun as => pure (a :: as)

theorem elementwiseM {f : List Value → StateM σ Value} (hf : ∀ vs, Along R (f vs)) (vs : List Value) :
    Along R (Function.elementwiseM f vs) := by
  unfold Function.elementwiseM
  split
  · exact (mapM (fun c => mapM (fun r => hf _) _) _).bind fun columns => pure (Value.array columns)
  · exact hf vs

end Along

end

namespace Evaluation

variable {α : Type} {s : Scope} {E : Effects → Effects → Prop}

/-- The effects at two points of an evaluation are related. -/
def OnEffects (E : Effects → Effects → Prop) (g g' : Progress) : Prop := E g.effects g'.effects

instance [IsPreorder Effects E] : IsPreorder Progress (OnEffects E) where
  refl g := refl_of E g.effects
  trans _ _ _ h h' := trans_of E h h'

/-- What a unit does by itself keeps effects related: what the function does that it calls, and that the cell which
it is gets registered. -/
structure UnitAlong (E : Effects → Effects → Prop) (s : Scope) (u : Expression) : Prop where
  call : ∀ position name args f, u = .call position name args → s.library.find? name = some f →
    ∀ site vs, Along E (f.apply site vs)
  cell : ∀ p, sampledCell? u = some p → ∀ e : Effects, e.model.phase = .preparing →
    E e { e with model := e.model.register p }

variable [IsPreorder Effects E]

theorem along_countCall : Along (OnEffects E) countCall := fun g => refl_of E g.effects

theorem along_noteVolatile (f : Function) : Along (OnEffects E) (noteVolatile f) := fun g => refl_of E g.effects

/-- An argument that asks for samples is evaluated, in a preparing pass once its cell has been registered, or the samples
that there are are passed for it. -/
theorem run_samplesValue (e : Expression) (x : Step Value) (g : Progress) :
    (samplesValue e x).run g = x.run g ∨
    (∃ p, sampledCell? e = some p ∧ g.effects.model.phase = .preparing ∧
      (samplesValue e x).run g = x.run { g with effects.model := g.effects.model.register p }) ∨
    ∃ p, (samplesValue e x).run g = (g.effects.model.collected p, g) := by
  cases hcell : sampledCell? e with
  | none => exact .inl (by simp [samplesValue, hcell])
  | some p =>
    cases hphase : g.effects.model.phase with
    | preparing => exact .inr (.inl ⟨p, rfl, rfl, by simp [samplesValue, hphase, hcell]⟩)
    | idle =>
      refine .inr (.inr ⟨p, ?_⟩)
      simp [samplesValue, hphase, hcell]
      rfl
    | running => exact .inl (by simp [samplesValue, hphase, hcell])

theorem along_samplesValue {e : Expression} (he : UnitAlong E s e) {x : Step Value} (hx : Along (OnEffects E) x) :
    Along (OnEffects E) (samplesValue e x) := by
  intro g
  rcases run_samplesValue e x g with hrun | ⟨p, hcell, hphase, hrun⟩ | ⟨p, hrun⟩
  · rw [hrun]
    exact hx g
  · have hregister : OnEffects E g { g with effects.model := g.effects.model.register p } :=
      he.cell p hcell g.effects hphase
    rw [hrun]
    exact trans_of (OnEffects E) hregister (hx _)
  · rw [hrun]
    exact refl_of E g.effects

theorem along_passArgument (passing : Passing) {e : Expression} (he : UnitAlong E s e) {x : Step Value}
    (hx : Along (OnEffects E) x) : Along (OnEffects E) (passArgument s passing e x) := by
  cases passing with
  | value => exact hx.map some
  | label => exact .pure _
  | metadata => exact .pure _
  | samples => exact (along_samplesValue he hx).map some

theorem along_applyFunction {f : Function} (hf : ∀ site vs, Along E (f.apply site vs)) (index : Nat)
    (arguments : Option (List Value)) : Along (OnEffects E) (applyFunction s f index arguments) := by
  unfold applyFunction
  cases arguments with
  | none => exact .pure _
  | some vs =>
    simp only
    split
    · exact .pure _
    · exact fun g => hf _ _ g.effects

mutual

/-- The effects of an evaluation are related if those of all units are. -/
theorem along_evaluate (e : Expression) (h : ∀ u ∈ e.units, UnitAlong E s u) :
    Along (OnEffects E) (evaluate s e) := by
  cases e with
  | literal position v spelling => rw [evaluate]; exact .pure _
  | complex position z spelling => rw [evaluate]; exact .pure _
  | imaginary position x spelling => rw [evaluate]; exact .pure _
  | array position columns => rw [evaluate]; exact .pure _
  | missing position => rw [evaluate]; exact .pure _
  | operator position symbol => rw [evaluate]; exact .pure _
  | identifier position name => rw [evaluate]; exact .pure _
  | cell m => rw [evaluate]; exact .pure _
  | range position r => rw [evaluate]; exact .pure _
  | unary position symbol a =>
    rw [evaluate]
    exact (along_evaluate a fun u hu => h u (Expression.units_operand hu)).bind fun v => .pure _
  | binary position symbol a b =>
    rw [evaluate]
    exact (along_evaluate a fun u hu => h u (Expression.units_left hu)).bind fun v =>
      (along_evaluate b fun u hu => h u (Expression.units_right hu)).bind fun w => .pure _
  | call position name args =>
    rw [evaluate]
    refine along_countCall.bind fun index => ?_
    cases hf : s.library.find? name with
    | none => exact .pure _
    | some f =>
      refine (along_noteVolatile f).bind fun _ => ?_
      refine (along_evaluateArguments f 0 args fun a ha u hu => h u (Expression.units_argument ha hu)).bind fun vs => ?_
      exact along_applyFunction ((h _ (Expression.mem_units _)).call position name args f rfl hf) index vs
  | group position items explicit =>
    match items with
    | [] => simp only [evaluate]; exact .pure _
    | [e] =>
      rw [evaluate]
      exact along_evaluate e fun u hu => h u (Expression.units_item (List.mem_singleton_self e) hu)
    | e :: e' :: es => simp only [evaluate]; exact .pure _

/-- So are those of the evaluation of arguments. -/
theorem along_evaluateArguments (f : Function) (i : Nat) (es : List Expression)
    (h : ∀ a ∈ es, ∀ u ∈ a.units, UnitAlong E s u) : Along (OnEffects E) (evaluateArguments s f i es) := by
  cases es with
  | nil => rw [evaluateArguments]; exact .pure _
  | cons e es =>
    rw [evaluateArguments]
    have he := h e List.mem_cons_self
    refine (along_passArgument (f.passing i) (he e e.mem_units) (along_evaluate e he)).bind fun v => ?_
    cases v with
    | none => exact .pure _
    | some v =>
      exact (along_evaluateArguments f (i + 1) es fun a ha => h a (List.mem_cons_of_mem _ ha)).bind fun vs => .pure _

end

end Evaluation

end Spreadsheet
