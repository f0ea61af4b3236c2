import Spreadsheet.Proofs.Area
import Spreadsheet.Proofs.Evaluation.Indirect
import Spreadsheet.Proofs.Evaluation.Steady
import Spreadsheet.Proofs.Sheet.Composed

/-!
Dependencies that cover what is reported. An area that is covered is read in all of its cells, and whatever areas are
added to dependencies are covered by them from then on. So a formula whose dependencies have been replaced is not asked
about again by an evaluation that reports no other areas.
-/

namespace Spreadsheet

namespace Dependencies

variable {d d' : Dependencies} {a : Area} {as : List Area}

/-- What is covered stays covered when more is read. -/
theorem covers_mono (h : Within d d') (hcovers : d.covers a = true) : d'.covers a = true := by
  rw [covers, Bool.or_eq_true] at hcovers ⊢
  rcases hcovers with hcell | harea
  · obtain ⟨p, hp, hmem⟩ := (Option.any_eq_true ..).1 hcell
    have hmem' : p ∈ d'.cells := h.cells (by simpa using hmem)
    exact .inl ((Option.any_eq_true ..).2 ⟨p, hp, by simpa using hmem'⟩)
  · obtain ⟨outer, houter, hwithin⟩ := List.any_eq_true.1 harea
    exact .inr (List.any_eq_true.2 ⟨outer, h.areas houter, hwithin⟩)

theorem covers_of_cell? {p : Position} (hcell : a.cell? = some p) (hp : p ∈ d.cells) : d.covers a = true := by
  rw [covers, hcell, Bool.or_eq_true]
  exact .inl (by simpa using hp)

theorem axisContains_low {low high : Option Nat} (h : Area.AxisOrdered low high) {x : Nat} (hx : low = some x) :
    Area.axisContains low high x = true := by
  subst hx
  cases high <;> simp_all [Area.AxisOrdered, Area.axisContains]

theorem axisContains_high {low high : Option Nat} (h : Area.AxisOrdered low high) {x : Nat} (hx : high = some x) :
    Area.axisContains low high x = true := by
  subst hx
  cases low <;> simp_all [Area.AxisOrdered, Area.axisContains]

/-- An area lies within itself: its corners do, where they are cells, and an infinite one is compared with itself. -/
theorem within_self (hordered : a.Ordered) : within a a = true := by
  unfold within
  split
  · rename_i p q hp hq
    obtain ⟨htop, hleft⟩ := Reference.row_column_of_position? hp
    obtain ⟨hbottom, hright⟩ := Reference.row_column_of_position? hq
    have hfirst : a.contains p = true := by
      rw [Area.contains, Bool.and_eq_true]
      exact ⟨axisContains_low hordered.rows htop, axisContains_low hordered.columns hleft⟩
    have hlast : a.contains q = true := by
      rw [Area.contains, Bool.and_eq_true]
      exact ⟨axisContains_high hordered.rows hbottom, axisContains_high hordered.columns hright⟩
    rw [hfirst, hlast, Bool.and_self]
  · simp [Reference.samePlace]

theorem covers_of_mem (hordered : a.Ordered) (ha : a ∈ d.areas) : d.covers a = true := by
  rw [covers, Bool.or_eq_true]
  exact .inr (List.any_eq_true.2 ⟨a, ha, within_self hordered⟩)

/-- An area that is added is covered, as a cell if it is one. -/
theorem covers_addArea (d : Dependencies) (hordered : a.Ordered) : (d.addArea a).covers a = true := by
  cases hcell : a.cell? with
  | some p =>
    refine covers_of_cell? hcell ?_
    rw [addArea, hcell]
    exact mem_addCell d p
  | none =>
    refine covers_of_mem hordered ?_
    simp only [addArea, hcell]
    split
    · rename_i hmem
      simpa using hmem
    · exact List.mem_append_right _ (List.mem_singleton_self a)

/-- All areas that are added one after the other are covered in the end. -/
theorem covers_foldl_addArea (d : Dependencies) (hordered : ∀ a ∈ as, a.Ordered) :
    ∀ a ∈ as, (as.foldl addArea d).covers a = true := by
  induction as generalizing d with
  | nil => exact fun a ha => absurd ha List.not_mem_nil
  | cons b as ih =>
    obtain ⟨hb, has⟩ := List.forall_mem_cons.1 hordered
    refine List.forall_mem_cons.2 ⟨?_, ih (d.addArea b) has⟩
    exact covers_mono (Environment.within_foldl_addArea _ as) (covers_addArea d hb)

end Dependencies

/-! ### Reported areas -/

/-- Areas that are reported on the way are ordered if those before were. -/
def Effects.KeepsOrdered (e e' : Effects) : Prop := (∀ a ∈ e.areas, a.Ordered) → ∀ a ∈ e'.areas, a.Ordered

instance : IsPreorder Effects Effects.KeepsOrdered where
  refl _ := id
  trans _ _ _ h h' := fun horiginal => h' (h horiginal)

namespace Function

open Effects (KeepsOrdered)

theorem along_readText (site : CallSite) (text : String) : Along KeepsOrdered (readText site text) := by
  unfold readText
  split
  · exact .pure _
  · rename_i area harea
    split
    · intro e horiginal a ha
      have ha : a ∈ e.areas ++ [area] := ha
      rcases List.mem_append.1 ha with ha | ha
      · exact horiginal a ha
      · rw [List.mem_singleton.1 ha]
        exact ordered_of_areaOfText? harea
    · exact .pure _

theorem along_between (x y : Float) : Along KeepsOrdered (between x y) := fun _ => id

theorem along_ofTwoNumbersM {f : Float → Float → Action Value} (hf : ∀ x y, Along KeepsOrdered (f x y))
    (vs : List Value) : Along KeepsOrdered (ofTwoNumbersM f vs) := by
  refine .elementwiseM (fun xs => ?_) _
  split
  · exact hf _ _
  · exact .pure _

theorem along_randomNumbers : ∀ f ∈ randomNumbers, ∀ site vs, Along KeepsOrdered (f.apply site vs) := by
  simp only [randomNumbers, List.forall_mem_cons]
  exact ⟨fun _ _ _ => id, fun _ vs => along_ofTwoNumbersM along_between vs,
    fun _ vs => along_ofTwoNumbersM along_between vs, fun _ _ _ => id, by simp⟩

theorem along_indirect : ∀ f ∈ indirect, ∀ site vs, Along KeepsOrdered (f.apply site vs) := by
  simp only [indirect, List.forall_mem_cons]
  exact ⟨fun site vs => .elementwiseM (fun xs => along_readText site _) _, by simp⟩

end Function

/-- Whatever the standard functions refer to is an area between two corners. -/
theorem Library.along_standard {name : String} {f : Function} (hf : standard.find? name = some f) (site : CallSite)
    (vs : List Value) : Along Effects.KeepsOrdered (f.apply site vs) := by
  rcases standard_cases hf with ⟨g, hg, -⟩ | hrandom | hindirect
  · rw [hg]
    exact .pure _
  · exact Function.along_randomNumbers f hrandom site vs
  · exact Function.along_indirect f hindirect site vs

/-- With the standard functions an evaluation reports only areas between two corners. -/
theorem Expression.ordered_of_reported {s : Scope} (hlibrary : s.library = .standard) (e : Expression)
    (model : Simulation.Model) : ∀ a ∈ (e.calculate s model).areas, a.Ordered := by
  have hunits : ∀ u ∈ e.units, Evaluation.UnitAlong Effects.KeepsOrdered s u := fun u _ =>
    ⟨fun position name args f _ hf => Library.along_standard (hlibrary ▸ hf), fun _ _ _ _ => id⟩
  exact Evaluation.along_evaluate e hunits { effects := { model } } fun a ha => absurd ha List.not_mem_nil

/-! ### Formulas whose dependencies have been replaced -/

namespace Environment

variable {env env' : Environment} {v w : Vertex} {e e' : Expression} {c c' c₁ : Contents} {d : Dependencies}

/-- The areas that an evaluation of the formula of a vertex reports. -/
def reportedAreas (env : Environment) (v : Vertex) (e : Expression) (c : Contents) : List Area :=
  (e.calculate (env.scope c.store v.position) c.model).areas

/-- What is reported does not depend on what a vertex is known to read. -/
theorem reportedAreas_dependencies (env : Environment) (v : Vertex) (e : Expression) (c : Contents) (d : Dependencies) :
    env.reportedAreas { v with dependencies := d } e c = env.reportedAreas v e c := rfl

/-- `INDIRECT` of a text reports the area that the text names, unless that is of another sheet. -/
theorem reportedAreas_indirect {text : String} {a : Area} (hlibrary : env.library = .standard)
    (harea : Function.areaOfText? text = some a) (v : Vertex) (c : Contents) (p q : Nat) (spelling : Option String) :
    env.reportedAreas v (.call p "INDIRECT" [.literal q (.text text) spelling]) c =
      if a.first.isOnSheet env.settings.name then [a] else [] := by
  obtain ⟨f, hf, -⟩ := Option.map_eq_some_iff.1 (Library.name_find?_standard "INDIRECT" List.mem_cons_self).2
  have hindirect : f ∈ Function.indirect := Library.mem_indirect_of_find? hf
  have hfound : env.library.find? "INDIRECT" = some f := by rw [hlibrary, hf]
  exact (Evaluation.run_indirect (s := env.scope c.store v.position) hfound hindirect harea p q spelling
    { effects := { model := c.model } }).2

/-- A calculation asks for other dependencies unless all that is reported is covered. -/
theorem run_calculate (env : Environment) (v : Vertex) (e : Expression) (c : Contents) :
    (env.handler.calculate v e).run c =
      (if (env.reportedAreas v e c).all v.dependencies.covers then
          .value (e.calculate (env.scope c.store v.position) c.model).value
            (e.calculate (env.scope c.store v.position) c.model).volatile
        else .rewire ((env.reportedAreas v e c).foldl .addArea (env.dependencies e)),
      { c with model := (e.calculate (env.scope c.store v.position) c.model).model }) := rfl

theorem calculate_of_covers (h : ∀ a ∈ env.reportedAreas v e c, v.dependencies.covers a = true) :
    ∃ x volatile c', (env.handler.calculate v e).run c = (.value x volatile, c') := by
  have hall : (env.reportedAreas v e c).all v.dependencies.covers = true := List.all_eq_true.2 h
  rw [run_calculate, hall, if_pos rfl]
  exact ⟨_, _, _, rfl⟩

theorem calculate_of_not_covers {a : Area} (ha : a ∈ env.reportedAreas v e c) (h : v.dependencies.covers a = false) :
    ∃ c', (env.handler.calculate v e).run c =
      (.rewire ((env.reportedAreas v e c).foldl .addArea (env.dependencies e)), c') := by
  have hall : (env.reportedAreas v e c).all v.dependencies.covers = false := List.all_eq_false.2 ⟨a, ha, by simp [h]⟩
  rw [run_calculate, hall, if_neg Bool.false_ne_true]
  exact ⟨_, rfl⟩

theorem ordered_reportedAreas (hlibrary : env.library = .standard) : ∀ a ∈ env.reportedAreas v e c, a.Ordered :=
  Expression.ordered_of_reported (s := env.scope c.store v.position) hlibrary e c.model

/-- Dependencies that a calculation asked for cover what it reported. -/
theorem covers_of_rewire (h : (env.handler.calculate v e).run c = (.rewire d, c'))
    (hordered : ∀ a ∈ env.reportedAreas v e c, a.Ordered) : ∀ a ∈ env.reportedAreas v e c, d.covers a = true := by
  rw [calculate_rewire_eq h]
  exact Dependencies.covers_foldl_addArea _ hordered

/-- The cells of an area that is covered are among the cells that are read or within an area that is. Areas that are
added to any dependencies are covered from then on; so a formula whose dependencies have been replaced because of what
an evaluation reported gets its value from every later evaluation that reports none but these areas. Areas are given by
their top left and bottom right corners, as those are that standard functions report. -/
theorem calculate_covered :
    (∀ (d : Dependencies) (a : Area) (p : Position), d.covers a = true → a.contains p = true →
      p ∈ d.cells ∨ ∃ outer ∈ d.areas, outer.contains p = true) ∧
    (∀ (d : Dependencies) (as : List Area), (∀ a ∈ as, a.Ordered) → ∀ a ∈ as, (as.foldl .addArea d).covers a = true) ∧
    ∀ (env : Environment) (v : Vertex) (e : Expression) (c c' : Contents) (d : Dependencies),
      (env.handler.calculate v e).run c = (.rewire d, c') →
      (env.library = .standard ∨ ∀ a ∈ env.reportedAreas v e c, a.Ordered) →
      ∀ (env' : Environment) (w : Vertex) (e' : Expression) (c₁ : Contents), w.dependencies = d →
        env'.reportedAreas w e' c₁ ⊆ env.reportedAreas v e c →
        ∃ x volatile c₂, (env'.handler.calculate w e').run c₁ = (.value x volatile, c₂) := by
  refine ⟨fun d a p hcovers hp => Dependencies.mentions_of_covers hcovers hp,
    fun d as hordered => Dependencies.covers_foldl_addArea d hordered, ?_⟩
  intro env v e c c' d hrewire hareas env' w e' c₁ hw hsubset
  have hordered : ∀ a ∈ env.reportedAreas v e c, a.Ordered := by
    rcases hareas with hlibrary | hordered
    · exact ordered_reportedAreas hlibrary
    · exact hordered
  refine calculate_of_covers fun a ha => ?_
  rw [hw]
  exact covers_of_rewire hrewire hordered a (hsubset ha)

/-- The formula `INDIRECT("a:a")` in a cell that is not known to read anything asks for the whole column, once; the
column then takes in its seventh cell, alone and as an area. -/
theorem calculate_covered_column :
    let env : Environment := { library := .standard, clock := default }
    let e : Expression := .call 0 "INDIRECT" [.literal 9 (.text "a:a") none]
    let column : Area := .between { column := some 0 } { column := some 0 }
    let c : Contents := { model := .ofSeed 1 }
    let v : Vertex := { position := ⟨0, 1⟩, content := .formula e }
    env.reportedAreas v e c = [column] ∧ (Dependencies.addArea {} column).covers (.single ⟨6, 0⟩) = true ∧
      (∃ outer ∈ (Dependencies.addArea {} column).areas, outer.contains ⟨6, 0⟩ = true) ∧
      (Dependencies.addArea {} column).covers column = true ∧
      ∃ d c', (env.handler.calculate v e).run c = (.rewire d, c') ∧
        ∃ x volatile c₂, (env.handler.calculate { v with dependencies := d } e).run c = (.value x volatile, c₂) := by
  intro env e column c v
  obtain ⟨hsound, hadded, honce⟩ := calculate_covered
  have hlibrary : env.library = .standard := by dsimp only [env]
  have harea : Function.areaOfText? "a:a" = some column := by decide
  have hreported : env.reportedAreas v e c = [column] := reportedAreas_indirect hlibrary harea v c 0 9 none
  have hordered : column.Ordered := Area.ordered_between _ _
  have hseventh : (Dependencies.addArea {} column).covers (.single ⟨6, 0⟩) = true := by decide
  have hcolumn : (Dependencies.addArea {} column).covers column = true :=
    hadded {} [column] (List.forall_mem_singleton.2 hordered) column (List.mem_singleton_self column)
  have hcell : (⟨6, 0⟩ : Position) ∉ (Dependencies.addArea {} column).cells := by decide
  have hwithin := (hsound _ _ ⟨6, 0⟩ hseventh (by decide)).resolve_left hcell
  obtain ⟨d, c', hrewire⟩ : ∃ d c', (env.handler.calculate v e).run c = (.rewire d, c') :=
    ⟨_, calculate_of_not_covers (hreported ▸ List.mem_singleton_self column) (by decide)⟩
  have hagain := honce env v e c c' d hrewire (.inl hlibrary) env { v with dependencies := d } e c rfl
    (reportedAreas_dependencies env v e c d ▸ List.Subset.refl _)
  exact ⟨hreported, hseventh, hwithin, hcolumn, d, c', hrewire, hagain⟩

end Environment

end Spreadsheet
