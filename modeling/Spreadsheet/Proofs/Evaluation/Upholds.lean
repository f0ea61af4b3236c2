import Spreadsheet.Proofs.Evaluation.Along
import Spreadsheet.Proofs.Function.Demand

/-!
What holds of all values that an evaluation comes to. A property of values that the cells have, and that each unit of an
expression hands on from its parts to itself, holds of the value of the expression; a property of the effects that no
unit breaks holds all along. So an expression whose units write out only what is demanded, and call only functions that
keep the demand, has a value that is as demanded, on a sheet of such cells, samples and times.
-/

namespace Spreadsheet

section

variable {σ α β : Type} {I : σ → Prop} {P : α → Prop} {Q : β → Prop}

/-- From each state with the first property the action leads to one with it, and gives something with the second. -/
def Upholds (I : σ → Prop) (P : α → Prop) (x : StateM σ α) : Prop := ∀ t, I t → P (x.run t).1 ∧ I (x.run t).2

namespace Upholds

theorem pure {a : α} (h : P a) : Upholds I P (Pure.pure a) := fun _ ht => ⟨h, ht⟩

theorem bind {x : StateM σ α} {f : α → StateM σ β} (hx : Upholds I P x) (hf : ∀ a, P a → Upholds I Q (f a)) :
    Upholds I Q (x >>= f) := fun t ht => hf _ (hx t ht).1 _ (hx t ht).2

theorem map {x : StateM σ α} {f : α → β} (hx : Upholds I P x) (hf : ∀ a, P a → Q (f a)) : Upholds I Q (f <$> x) :=
  fun t ht => ⟨hf _ (hx t ht).1, (hx t ht).2⟩

/-- Where nothing is asked of states, only the results matter. -/
theorem yields {x : StateM σ α} (hx : Upholds (fun _ => True) P x) : Yields P x := fun t => (hx t trivial).1

end Upholds

theorem Yields.upholds {x : StateM σ α} (hx : Yields P x) (hI : ∀ t, I t → I (x.run t).2) : Upholds I P x :=
  fun t ht => ⟨hx t, hI t ht⟩

end

namespace Evaluation

variable {I : Effects → Prop} {Q : Value → Prop} {s : Scope} {e : Expression}

/-- The effects at a point of an evaluation have the property. -/
def Sees (I : Effects → Prop) (g : Progress) : Prop := I g.effects

/-- What evaluations in the scope start from: the values of cells and those that evaluations make by themselves have the
property, and registering a cell does not break that of the effects. -/
structure Grounds (I : Effects → Prop) (Q : Value → Prop) (s : Scope) : Prop where
  undefined : Q .undefined
  text : ∀ t, Q (.text t)
  boolean : ∀ b, Q (.boolean b)
  error : ∀ e : CellError, e.code ≠ .expr → Q (.error e)
  complex : ∀ z, Q (Value.ofComplex z)
  read : ∀ p, Q (s.store.read p)
  area : ∀ a, Q ((s.store.readArea? a).getD (.ofCode .ref))
  metadata : ∀ p format, Q (.metadata p (s.store.read p) format)
  samples : ∀ (e : Effects) p, I e → Q (e.model.collected p)
  register : ∀ (e : Effects) p, I e → I { e with model := e.model.register p }

/-- A unit has the property if its parts do, and what it calls breaks none. -/
def UnitUpholds (I : Effects → Prop) (Q : Value → Prop) (s : Scope) : Expression → Prop
  | .literal _ v _ => Q v
  | .array _ columns => Q (.array columns)
  | .operator _ _ => Q (.ofCode .expr)
  | .unary _ symbol _ => ∀ v, Q v → Q (Operator.applySign symbol v)
  | .binary _ symbol _ _ => ∀ v w, Q v → Q w → Q (Operator.applyBinary symbol v w)
  | .call _ name _ => ∀ f, s.library.find? name = some f → (∀ p ∈ f.parameters, ∀ v ∈ p.default, Q v) ∧
      ∀ index vs, (∀ v ∈ vs, Q v) → Upholds I Q (f.apply ⟨s.position, index, s.store, s.sheet, s.clock⟩ vs)
  | .group _ items _ => items.length ≠ 1 → Q (.ofCode .expr)
  | _ => True

/-! ### References -/

theorem Grounds.areaValue (h : Grounds I Q s) (a : Area) : Q (areaValue s a) := by
  unfold Evaluation.areaValue
  split
  · exact h.area a
  · exact h.error _ (by simp)

theorem Grounds.nameValue (h : Grounds I Q s) (name : String) : Q (nameValue s name (Evaluation.areaValue s)) := by
  unfold Evaluation.nameValue
  simp only
  split
  · exact h.boolean true
  · split
    · exact h.boolean false
    · split
      · exact h.areaValue _
      · exact h.error _ (by simp [CellError.explained])

theorem Grounds.cellValue (h : Grounds I Q s) (a : Reference) : Q (cellValue s a) := by
  unfold Evaluation.cellValue
  split
  · split
    · exact h.read _
    · exact h.error _ (by simp)
  · exact h.error _ (by simp)

theorem Grounds.metadata? (h : Grounds I Q s) (e : Expression) : ∀ v ∈ metadata? s e, Q v := by
  unfold Evaluation.metadata?
  simp only
  split
  · split
    · intro v hv
      obtain ⟨p, -, rfl⟩ := Option.map_eq_some_iff.1 hv
      exact h.metadata p _
    · rintro v ⟨⟩
  · rintro v ⟨⟩

/-! ### Calls -/

theorem Grounds.samplesValue (h : Grounds I Q s) (e : Expression) {x : Step Value} (hx : Upholds (Sees I) Q x) :
    Upholds (Sees I) Q (samplesValue e x) := by
  intro g hg
  rcases run_samplesValue e x g with hrun | ⟨p, -, -, hrun⟩ | ⟨p, hrun⟩
  · rw [hrun]
    exact hx g hg
  · rw [hrun]
    exact hx _ (h.register g.effects p hg)
  · rw [hrun]
    exact ⟨h.samples g.effects p hg, hg⟩

/-- What reaches a function of an argument. -/
theorem Grounds.passArgument (h : Grounds I Q s) (passing : Passing) (e : Expression) {x : Step Value}
    (hx : Upholds (Sees I) Q x) : Upholds (Sees I) (fun v => ∀ w ∈ v, Q w) (passArgument s passing e x) := by
  have hsome : ∀ v : Value, Q v → ∀ w ∈ some v, Q w := by
    rintro v hv _ ⟨⟩
    exact hv
  cases passing with
  | value => exact hx.map hsome
  | label => exact .pure (hsome _ (h.text _))
  | metadata => exact .pure (h.metadata? e)
  | samples => exact (h.samplesValue e hx).map hsome

theorem Grounds.fillDefaults (h : Grounds I Q s) {ps : List Parameter} (hps : ∀ p ∈ ps, ∀ v ∈ p.default, Q v)
    {vs : List Value} (hvs : ∀ v ∈ vs, Q v) : ∀ v ∈ Function.fillDefaults ps vs, Q v := by
  fun_induction Function.fillDefaults ps vs with
  | case1 vs => exact hvs
  | case2 p ps rest d hd ih =>
    rw [List.forall_mem_cons] at hps
    exact List.forall_mem_cons.2 ⟨hps.1 d hd, ih hps.2 hvs⟩
  | case3 => exact hvs
  | case4 p ps rest _ _ ih =>
    exact List.forall_mem_cons.2 ⟨h.undefined, ih (List.forall_mem_cons.1 hps).2 hvs⟩
  | case5 p ps v vs ih =>
    rw [List.forall_mem_cons] at hps hvs
    refine List.forall_mem_cons.2 ⟨?_, ih hps.2 hvs.2⟩
    split
    · cases hdefault : p.default with
      | none => exact hvs.1
      | some d => exact hps.1 d hdefault
    · exact hvs.1

theorem Grounds.applyFunction (h : Grounds I Q s) {p : Nat} {name : String} {args : List Expression} {f : Function}
    (hunit : UnitUpholds I Q s (.call p name args)) (hf : s.library.find? name = some f) (index : Nat)
    {arguments : Option (List Value)} (harguments : ∀ vs ∈ arguments, ∀ v ∈ vs, Q v) :
    Upholds (Sees I) Q (applyFunction s f index arguments) := by
  obtain ⟨hdefaults, happly⟩ := hunit f hf
  unfold Evaluation.applyFunction
  split
  · exact .pure (h.error _ (by simp))
  · rename_i vs
    simp only
    split
    · exact .pure (h.error _ (by simp))
    · exact fun g hg => happly index _ (h.fillDefaults hdefaults (harguments vs rfl)) g.effects hg

/-! ### Expressions -/

mutual

/-- The value of an expression has the property if all units hand it on. -/
theorem upholds_evaluate (hs : Grounds I Q s) (e : Expression) (h : ∀ u ∈ e.units, UnitUpholds I Q s u) :
    Upholds (Sees I) Q (evaluate s e) := by
  have hself := h e (Expression.mem_units e)
  cases e with
  | literal p v spelling => rw [evaluate]; exact .pure hself
  | array p columns => rw [evaluate]; exact .pure hself
  | complex p z spelling => rw [evaluate]; exact .pure (hs.complex z)
  | imaginary p x spelling => rw [evaluate]; exact .pure (hs.complex _)
  | missing p => rw [evaluate]; exact .pure hs.undefined
  | operator p symbol => rw [evaluate]; exact .pure hself
  | identifier p name => rw [evaluate]; exact .pure (hs.nameValue name)
  | cell m => rw [evaluate]; exact .pure (hs.cellValue m.target)
  | range p r => rw [evaluate]; exact .pure (hs.areaValue r.area)
  | unary p symbol a =>
    rw [evaluate]
    exact (upholds_evaluate hs a fun u hu => h u (Expression.units_operand hu)).bind fun v hv => .pure (hself v hv)
  | binary p symbol a b =>
    rw [evaluate]
    exact (upholds_evaluate hs a fun u hu => h u (Expression.units_left hu)).bind fun v hv =>
      (upholds_evaluate hs b fun u hu => h u (Expression.units_right hu)).bind fun w hw => .pure (hself v w hv hw)
  | call p name args =>
    rw [evaluate]
    have hcount : Upholds (Sees I) (fun _ => True) countCall := fun g hg => ⟨trivial, hg⟩
    refine hcount.bind fun index _ => ?_
    cases hf : s.library.find? name with
    | none => exact .pure (hs.error _ (by simp [CellError.explained]))
    | some f =>
      have hnote : Upholds (Sees I) (fun _ => True) (noteVolatile f) := fun g hg => ⟨trivial, hg⟩
      refine hnote.bind fun _ _ => ?_
      exact (upholds_evaluateArguments hs f 0 args fun a ha u hu => h u (Expression.units_argument ha hu)).bind
        fun vs hvs => hs.applyFunction hself hf index hvs
  | group p items explicit =>
    match items with
    | [] => simp only [evaluate]; exact .pure (hself (by simp))
    | [e] =>
      rw [evaluate]
      exact upholds_evaluate hs e fun u hu => h u (Expression.units_item (List.mem_singleton_self e) hu)
    | e :: e' :: es => simp only [evaluate]; exact .pure (hself (by simp))

/-- So have arguments. -/
theorem upholds_evaluateArguments (hs : Grounds I Q s) (f : Function) (i : Nat) (es : List Expression)
    (h : ∀ a ∈ es, ∀ u ∈ a.units, UnitUpholds I Q s u) :
    Upholds (Sees I) (fun vs => ∀ ws ∈ vs, ∀ v ∈ ws, Q v) (evaluateArguments s f i es) := by
  cases es with
  | nil =>
    rw [evaluateArguments]
    refine .pure ?_
    rintro _ ⟨⟩
    exact fun _ hv => absurd hv List.not_mem_nil
  | cons e es =>
    rw [List.forall_mem_cons] at h
    rw [evaluateArguments]
    refine (hs.passArgument (f.passing i) e (upholds_evaluate hs e h.1)).bind fun v hv => ?_
    cases v with
    | none => exact .pure (by rintro _ ⟨⟩)
    | some v =>
      refine (upholds_evaluateArguments hs f (i + 1) es h.2).bind fun vs hvs => .pure fun ws hws => ?_
      obtain ⟨us, hus, rfl⟩ := Option.map_eq_some_iff.1 hws
      exact List.forall_mem_cons.2 ⟨hv v rfl, hvs us hus⟩

end

end Evaluation

end Spreadsheet

/-! ### Demands on the values of expressions -/

namespace Spreadsheet

variable {D : Demand}

/-- All samples of a simulation are as demanded. -/
def Simulation.Model.Meets (D : Demand) (m : Simulation.Model) : Prop :=
  ∀ (p : Position) (xs : Array Float), m.samples[p]? = some xs → ∀ x ∈ xs, D.number x

namespace Simulation.Model

variable {m : Model}

/-- The samples of a cell that are read. -/
theorem Meets.collected (h : m.Meets D) (p : Position) : (m.collected p).Meets D := by
  unfold Model.collected
  split
  · rename_i xs hxs
    rw [Value.meets_array, List.forall_mem_singleton]
    exact List.forall_mem_map.2 fun x hx => Value.meets_number.2 (h p xs hxs x (by simpa using hx))
  · exact Value.meets_undefined

/-- A cell that is registered has zeros for samples. -/
theorem Meets.register (h : m.Meets D) (p : Position) : (m.register p).Meets D := by
  unfold Model.register
  split
  · exact h
  · intro q xs hxs x hx
    simp only [Std.TreeMap.getElem?_insert] at hxs
    split at hxs
    · cases hxs
      rw [(Array.mem_replicate.1 hx).2]
      exact D.number_default.1
    · exact h q xs hxs x hx

end Simulation.Model

namespace Evaluation

variable {s : Scope}

/-- The effects of an evaluation, the samples of the simulation among them, are as demanded. -/
def EffectsMeet (D : Demand) (e : Effects) : Prop := e.model.Meets D

/-- What a unit writes out or makes by itself is as demanded, and so is what the function that it calls makes. -/
def UnitMeets (D : Demand) (s : Scope) : Expression → Prop
  | .literal _ v _ => v.Meets D
  | .array _ columns => (Value.array columns).Meets D
  | .operator _ _ => D.error ⟨.expr, none⟩
  | .unary _ symbol _ => (symbol = "+" ∨ symbol = "-") ∨ D.error ⟨.expr, none⟩
  | .binary _ symbol _ _ => (Operator.meaning? symbol).isSome = true ∨ D.error ⟨.expr, none⟩
  | .call _ name _ => ∀ f, s.library.find? name = some f → f.Meets D ∧
      ∀ site vs e, EffectsMeet D e → EffectsMeet D ((f.apply site vs).run e).2
  | .group _ items _ => items.length = 1 ∨ D.error ⟨.expr, none⟩
  | _ => True

theorem grounds_of_meets (hstore : s.store.Meets D) : Grounds (EffectsMeet D) (Value.Meets D) s where
  undefined := Value.meets_undefined
  text := Value.meets_text
  boolean := Value.meets_boolean
  error e he := Value.meets_error.2 (D.sound e he)
  complex := Value.meets_ofComplex
  read := hstore
  area := hstore.readArea?
  metadata p _ := Value.meets_metadata.2 (hstore p)
  samples _ p h := Simulation.Model.Meets.collected h p
  register _ p h := Simulation.Model.Meets.register h p

theorem UnitMeets.upholds (hstore : s.store.Meets D) (hclock : s.clock.Meets D) {u : Expression}
    (h : UnitMeets D s u) : UnitUpholds (EffectsMeet D) (Value.Meets D) s u := by
  cases u with
  | literal p v spelling => exact h
  | array p columns => exact h
  | operator p symbol => exact Value.meets_error.2 h
  | unary p symbol a => exact fun v hv => Operator.meets_applySign h hv
  | binary p symbol a b => exact fun v w hv hw => Operator.meets_applyBinary h hv hw
  | call p name args =>
    intro f hf
    obtain ⟨hmeets, hkeeps⟩ := h f hf
    exact ⟨hmeets.defaults, fun index vs hvs => (hmeets.apply _ vs hstore hclock hvs).upholds (hkeeps _ vs)⟩
  | group p items explicit => exact fun hne => Value.meets_error.2 (h.resolve_left hne)
  | _ => trivial

end Evaluation

/-- The value of an expression is as demanded, and so are the samples afterwards. -/
theorem Expression.meets_calculate {s : Scope} {e : Expression} {model : Simulation.Model} (hstore : s.store.Meets D)
    (hclock : s.clock.Meets D) (hmodel : model.Meets D) (h : ∀ u ∈ e.units, Evaluation.UnitMeets D s u) :
    (e.calculate s model).value.Meets D ∧ (e.calculate s model).model.Meets D :=
  Evaluation.upholds_evaluate (Evaluation.grounds_of_meets hstore) e (fun u hu => (h u hu).upholds hstore hclock)
    { effects := { model } } hmodel

end Spreadsheet
