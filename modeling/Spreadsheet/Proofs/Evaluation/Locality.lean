import Spreadsheet.Evaluation
import Spreadsheet.Proofs.Evaluation.Follows
import Spreadsheet.Proofs.Function.Standard

/-!
Evaluations read only what is known. An evaluation reads the cells and areas that the expression mentions
and the areas that it reports; in two stores that agree on these it gives the same and leaves the same
behind, at all times that the functions do not tell apart.
-/

namespace Spreadsheet

namespace Evaluation

variable {M : Simulation.Model → Simulation.Model → Prop} {T : Clock → Clock → Prop} {s : Scope} {store' : Store}
  {clock' : Clock}

/-- The progress of two evaluations, which differ in their models only. -/
def sideBySide (M : Simulation.Model → Simulation.Model → Prop) : SideBySide Progress where
  areas g := g.effects.areas
  related g g' := g'.calls = g.calls ∧ g'.volatile = g.volatile ∧
    (effectsSideBySide M).related g.effects g'.effects

/-- What a unit of an expression reads by itself is the same in both stores, and what it calls is local. -/
def UnitLocal (M : Simulation.Model → Simulation.Model → Prop) (T : Clock → Clock → Prop) (s : Scope)
    (store' : Store) : Expression → Prop
  | .cell m => ∀ p, m.target.position? = some p → m.target.isOnSheet s.sheet = true →
    s.store.AgreeAt store' p
  | .range _ r => r.first.target.isOnSheet s.sheet = true → s.store.AgreeOn store' r.area
  | .identifier _ name => ∀ a, s.names[Text.upper name]? = some a →
    a.Ordered ∧ s.store.AgreeOn store' a
  | .call _ name _ => ∀ f, s.library.find? name = some f → f.Local M T
  | _ => True

/-! ### References -/

theorem areaValue_congr {a : Area} (hordered : a.Ordered)
    (h : a.first.isOnSheet s.sheet = true → s.store.AgreeOn store' a) :
    areaValue { s with store := store', clock := clock' } a = areaValue s a := by
  unfold areaValue
  by_cases hsheet : a.first.isOnSheet s.sheet = true
  · simp only [hsheet, if_true]
    rw [Store.readArea?_congr hordered (h hsheet)]
  · simp only [hsheet, Bool.false_eq_true, if_false]

theorem nameValue_congr {name : String} {position : Nat}
    (h : UnitLocal M T s store' (.identifier position name)) :
    nameValue { s with store := store', clock := clock' } name (areaValue { s with store := store', clock := clock' }) =
      nameValue s name (areaValue s) := by
  unfold nameValue
  cases hname : s.names[Text.upper name]? with
  | none => rfl
  | some a =>
    obtain ⟨hordered, hagree⟩ := h a hname
    simp only [areaValue_congr hordered fun _ => hagree]

theorem cellValue_congr {m : Mention} (h : UnitLocal M T s store' (.cell m)) :
    cellValue { s with store := store', clock := clock' } m.target = cellValue s m.target := by
  unfold cellValue
  cases hp : m.target.position? with
  | none => rfl
  | some p =>
    by_cases hsheet : m.target.isOnSheet s.sheet = true
    · simp only [hsheet, if_true]
      exact (h p hp hsheet).value
    · simp only [hsheet, Bool.false_eq_true, if_false]

/-- The metadata of a reference is that of a cell which the reference mentions. -/
theorem metadata?_congr {e : Expression} (h : UnitLocal M T s store' e) :
    metadata? { s with store := store', clock := clock' } e = metadata? s e := by
  have hcell {a : Reference} (hagree : a.isOnSheet s.sheet = true → ∀ p, a.position? = some p →
      s.store.AgreeAt store' p) : (if a.isOnSheet s.sheet then
        a.position?.map fun p => Value.metadata p (store'.read p) ((store'.cell? p).bind Cell.format)
      else none) = if a.isOnSheet s.sheet then
        a.position?.map fun p => Value.metadata p (s.store.read p) ((s.store.cell? p).bind Cell.format)
      else none := by
    split
    · rename_i hsheet
      cases hp : a.position? with
      | none => rfl
      | some p =>
        have hp := hagree hsheet p hp
        simp only [Option.map_some, hp.value, hp.format]
    · rfl
  cases e with
  | cell m => exact hcell fun hsheet p hp => h p hp hsheet
  | range position r => exact hcell fun hsheet p hp => (h hsheet).cells p (Area.contains_between hp)
  | _ => rfl

/-! ### Arguments and calls -/

/-- The model as it is at some point of an evaluation. -/
def currentModel : Step Simulation.Model := modifyGet fun g => (g.effects.model, g)

/-- Replaces the model. -/
def replaceModel (model : Simulation.Model) : Step Unit :=
  modify fun g => { g with effects.model := model }

theorem samplesValue_eq (e : Expression) (value : Step Value) :
    samplesValue e value = currentModel >>= fun model =>
      match model.phase, sampledCell? e with
      | .preparing, some p => replaceModel (model.register p) >>= fun _ => value
      | .idle, some p => pure (model.collected p)
      | _, _ => value := rfl

theorem follows_samplesValue (hM : ∀ m, M m m) (hsame : ∀ m m', M m m' → m' = m) {P : Area → Prop}
    {x x' : Step Value} (e : Expression) (hx : Follows (sideBySide M) P x x') :
    Follows (sideBySide M) P (samplesValue e x) (samplesValue e x') := by
  have hcurrent : Follows (sideBySide M) P currentModel currentModel :=
    ⟨fun _ => List.Subset.refl _, fun _ => List.Subset.refl _, fun _ _ hg _ => ⟨hsame _ _ hg.2.2.2, hg⟩⟩
  have hreplace (model : Simulation.Model) :
      Follows (sideBySide M) P (replaceModel model) (replaceModel model) :=
    ⟨fun _ => List.Subset.refl _, fun _ => List.Subset.refl _, fun _ _ hg _ => ⟨rfl, hg.1, hg.2.1, hg.2.2.1, hM model⟩⟩
  rw [samplesValue_eq, samplesValue_eq]
  refine hcurrent.bind fun model => ?_
  split
  · exact (hreplace _).bind fun _ => hx
  · exact .pure _
  · exact hx

/-- What reaches a function of an argument. -/
theorem follows_passArgument (hM : ∀ m, M m m) {f : Function} (hf : f.Local M T) (i : Nat) {e : Expression}
    (hunit : UnitLocal M T s store' e) {P : Area → Prop} {x x' : Step Value}
    (hx : Follows (sideBySide M) P x x') :
    Follows (sideBySide M) P (passArgument s (f.passing i) e x)
      (passArgument { s with store := store', clock := clock' } (f.passing i) e x') := by
  cases hpassing : f.passing i with
  | value => exact hx.map some
  | label => exact .pure_of_eq rfl
  | metadata => exact .pure_of_eq (metadata?_congr hunit)
  | samples => exact (follows_samplesValue hM (hf.samples ⟨i, hpassing⟩) e hx).map some

theorem follows_countCall {P : Area → Prop} : Follows (sideBySide M) P countCall countCall where
  grows _ := List.Subset.refl _
  grows' _ := List.Subset.refl _
  agrees _ _ hg _ := ⟨congrArg (· + 1) hg.1, congrArg (· + 1) hg.1, hg.2⟩

theorem follows_noteVolatile {f : Function}
    (hf : ∀ m m', M m m' → f.isVolatile m'.isActive = f.isVolatile m.isActive) {P : Area → Prop} :
    Follows (sideBySide M) P (noteVolatile f) (noteVolatile f) where
  grows _ := List.Subset.refl _
  grows' _ := List.Subset.refl _
  agrees g g' hg _ := by
    refine ⟨rfl, hg.1, ?_, hg.2.2⟩
    change (g'.volatile || f.isVolatile g'.effects.model.isActive) =
      (g.volatile || f.isVolatile g.effects.model.isActive)
    rw [hg.2.1, hf _ _ hg.2.2.2]

theorem follows_act {P : Area → Prop} {x x' : Action α} (hx : Follows (effectsSideBySide M) P x x') :
    Follows (sideBySide M) P (act x) (act x') where
  grows g := hx.grows g.effects
  grows' g := hx.grows' g.effects
  agrees g g' hg hP := by
    obtain ⟨hvalue, heffects⟩ := hx.agrees g.effects g'.effects hg.2.2 hP
    exact ⟨hvalue, hg.1, hg.2.1, heffects⟩

theorem follows_applyFunction {f : Function} {P : Area → Prop}
    (hf : ∀ site : CallSite, site.store = s.store → site.clock = s.clock → ∀ vs, Follows (effectsSideBySide M) P
      (f.apply site vs) (f.apply { site with store := store', clock := clock' } vs))
    (index : Nat) (arguments : Option (List Value)) :
    Follows (sideBySide M) P (applyFunction s f index arguments)
      (applyFunction { s with store := store', clock := clock' } f index arguments) := by
  unfold applyFunction
  cases arguments with
  | none => exact .pure _
  | some vs =>
    simp only
    split
    · exact .pure _
    · exact follows_act (hf ⟨s.position, index, s.store, s.sheet, s.clock⟩ rfl rfl _)

/-! ### Expressions -/

/-- What a unit does by itself follows, if the units satisfy a condition: it has the same value, and of each call what
is done for its arguments and for the function follows. -/
structure Compatible (view : SideBySide Progress) (P : Area → Prop) (s s' : Scope) (Q : Expression → Prop) : Prop where
  library : s'.library = s.library
  cell : ∀ m, Q (.cell m) → cellValue s' m.target = cellValue s m.target
  range : ∀ p r, Q (.range p r) → areaValue s' r.area = areaValue s r.area
  name : ∀ p name, Q (.identifier p name) → nameValue s' name (areaValue s') = nameValue s name (areaValue s)
  count : Follows view P countCall countCall
  volatile : ∀ p name args f, Q (.call p name args) → s.library.find? name = some f →
    Follows view P (noteVolatile f) (noteVolatile f)
  argument : ∀ p name args f i e x x', Q (.call p name args) → s.library.find? name = some f → args[i]? = some e → Q e →
    Follows view P x x' → Follows view P (passArgument s (f.passing i) e x) (passArgument s' (f.passing i) e x')
  apply : ∀ p name args f index vs, Q (.call p name args) → s.library.find? name = some f →
    Follows view P (applyFunction s f index vs) (applyFunction s' f index vs)

section

variable {view : SideBySide Progress} {P : Area → Prop} {s' : Scope} {Q : Expression → Prop}

mutual

/-- Of two evaluations of an expression the second follows the first if what each unit does follows. -/
theorem Compatible.follows_evaluate (h : Compatible view P s s' Q) (e : Expression)
    (hQ : ∀ u ∈ e.walk Dependencies.entersUnit, Q u) : Follows view P (evaluate s e) (evaluate s' e) := by
  have hself : Q e := hQ e (by unfold Expression.walk; exact List.mem_cons_self)
  cases e with
  | literal position v spelling => rw [evaluate, evaluate]; exact .pure _
  | complex position z spelling => rw [evaluate, evaluate]; exact .pure _
  | imaginary position x spelling => rw [evaluate, evaluate]; exact .pure _
  | array position columns => rw [evaluate, evaluate]; exact .pure _
  | missing position => rw [evaluate, evaluate]; exact .pure _
  | operator position symbol => rw [evaluate, evaluate]; exact .pure _
  | identifier position name =>
    rw [evaluate, evaluate]
    exact .pure_of_eq (h.name position name hself)
  | cell m =>
    rw [evaluate, evaluate]
    exact .pure_of_eq (h.cell m hself)
  | range position r =>
    rw [evaluate, evaluate]
    exact .pure_of_eq (h.range position r hself)
  | unary position symbol a =>
    rw [evaluate, evaluate]
    refine (h.follows_evaluate a fun u hu => hQ u ?_).bind fun v => .pure _
    unfold Expression.walk
    exact List.mem_cons_of_mem _ hu
  | binary position symbol a b =>
    rw [evaluate, evaluate]
    have hleft (u : Expression) (hu : u ∈ a.walk Dependencies.entersUnit) : Q u := by
      refine hQ u ?_
      unfold Expression.walk
      exact List.mem_cons_of_mem _ (List.mem_append_left _ hu)
    have hright (u : Expression) (hu : u ∈ b.walk Dependencies.entersUnit) : Q u := by
      refine hQ u ?_
      unfold Expression.walk
      exact List.mem_cons_of_mem _ (List.mem_append_right _ hu)
    exact (h.follows_evaluate a hleft).bind fun v => (h.follows_evaluate b hright).bind fun w => .pure _
  | call position name args =>
    rw [evaluate, evaluate, h.library]
    refine h.count.bind fun index => ?_
    cases hf : s.library.find? name with
    | none => exact .pure _
    | some f =>
      have hargs (u : Expression) (hu : u ∈ Expression.walkList Dependencies.entersUnit args) : Q u := by
        refine hQ u ?_
        unfold Expression.walk
        exact List.mem_cons_of_mem _ hu
      refine (h.volatile position name args f hself hf).bind fun _ => ?_
      exact (h.follows_evaluateArguments hself hf [] args (List.nil_append args) hargs).bind fun vs =>
        h.apply position name args f index vs hself hf
  | group position items explicit =>
    have hitems (u : Expression) (hu : u ∈ Expression.walkList Dependencies.entersUnit items) : Q u := by
      refine hQ u ?_
      unfold Expression.walk
      exact List.mem_cons_of_mem _ hu
    match items with
    | [] => simp only [evaluate]; exact .pure _
    | [e] =>
      rw [evaluate, evaluate]
      refine h.follows_evaluate e fun u hu => hitems u ?_
      unfold Expression.walkList
      exact List.mem_append_left _ hu
    | e :: e' :: es => simp only [evaluate]; exact .pure _

/-- So do the evaluations of arguments, behind those that have been evaluated. -/
theorem Compatible.follows_evaluateArguments (h : Compatible view P s s' Q) {p : Nat} {name : String}
    {args : List Expression} {f : Function} (hcall : Q (.call p name args)) (hf : s.library.find? name = some f)
    (done es : List Expression) (hargs : done ++ es = args)
    (hQ : ∀ u ∈ Expression.walkList Dependencies.entersUnit es, Q u) :
    Follows view P (evaluateArguments s f done.length es) (evaluateArguments s' f done.length es) := by
  cases es with
  | nil => rw [evaluateArguments, evaluateArguments]; exact .pure _
  | cons e es =>
    have hfirst (u : Expression) (hu : u ∈ e.walk Dependencies.entersUnit) : Q u := by
      refine hQ u ?_
      unfold Expression.walkList
      exact List.mem_append_left _ hu
    have hrest (u : Expression) (hu : u ∈ Expression.walkList Dependencies.entersUnit es) : Q u := by
      refine hQ u ?_
      unfold Expression.walkList
      exact List.mem_append_right _ hu
    have hself : Q e := hfirst e (by unfold Expression.walk; exact List.mem_cons_self)
    have hindex : args[done.length]? = some e := by rw [← hargs]; simp
    rw [evaluateArguments, evaluateArguments]
    refine (h.argument p name args f _ e _ _ hcall hf hindex hself (h.follows_evaluate e hfirst)).bind fun v => ?_
    cases v with
    | none => exact .pure _
    | some v =>
      have hnext := h.follows_evaluateArguments hcall hf (done ++ [e]) es (by rw [← hargs]; simp) hrest
      rw [List.length_append] at hnext
      exact hnext.bind fun vs => .pure _

end

end

/-- What local units do follows in stores that agree on what the units read. -/
theorem compatible_of_local (hM : ∀ m, M m m) (hT : T s.clock clock') :
    Compatible (sideBySide M) (s.store.AgreeOn store') s { s with store := store', clock := clock' }
      (UnitLocal M T s store') where
  library := rfl
  cell _ hunit := cellValue_congr hunit
  range _ _ hunit := areaValue_congr (Area.ordered_between _ _) hunit
  name _ _ hunit := nameValue_congr hunit
  count := follows_countCall
  volatile _ _ _ f hcall hf := follows_noteVolatile (hcall f hf).volatile
  argument _ _ _ f i _ _ _ hcall hf _ hunit hx := follows_passArgument hM (hcall f hf) i hunit hx
  apply _ _ _ f index vs hcall hf := by
    refine follows_applyFunction (fun site hstore hclock vs => ?_) index vs
    rw [← hstore]
    exact (hcall f hf).apply site store' clock' vs (hclock ▸ hT)

/-- Of two evaluations of an expression the second follows the first if its units are local. -/
theorem follows_evaluate (hM : ∀ m, M m m) (hT : T s.clock clock') (e : Expression)
    (h : ∀ u ∈ e.walk Dependencies.entersUnit, UnitLocal M T s store' u) :
    Follows (sideBySide M) (s.store.AgreeOn store') (evaluate s e)
      (evaluate { s with store := store', clock := clock' } e) :=
  (compatible_of_local hM hT).follows_evaluate e h

end Evaluation

end Spreadsheet
