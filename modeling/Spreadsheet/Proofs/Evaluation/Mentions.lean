import Spreadsheet.Proofs.Evaluation.Locality
import Spreadsheet.Proofs.Store

/-!
The cells that formulas mention. All that the units of an expression read is among its dependencies, so
stores that agree on the dependencies agree on what the units read.
-/

namespace Spreadsheet

namespace Dependencies

variable {d d' : Dependencies} {p : Position} {a : Area} {names : Std.TreeMap String Area} {sheet : String}

/-- Whether a cell is among what is read: as a cell, or within one of the areas. -/
def Mentions (d : Dependencies) (p : Position) : Prop :=
  p ∈ d.cells ∨ ∃ a ∈ d.areas, a.contains p = true

/-- The second dependencies take in the first ones. -/
structure Within (d d' : Dependencies) : Prop where
  cells : d.cells ⊆ d'.cells
  areas : d.areas ⊆ d'.areas

theorem Within.refl (d : Dependencies) : Within d d := ⟨List.Subset.refl _, List.Subset.refl _⟩

theorem Within.trans {d₁ d₂ d₃ : Dependencies} (h : Within d₁ d₂) (h' : Within d₂ d₃) : Within d₁ d₃ :=
  ⟨List.Subset.trans h.cells h'.cells, List.Subset.trans h.areas h'.areas⟩

theorem Within.mentions (h : Within d d') (hp : d.Mentions p) : d'.Mentions p := by
  rcases hp with hp | ⟨a, ha, hp⟩
  · exact .inl (h.cells hp)
  · exact .inr ⟨a, h.areas ha, hp⟩

theorem not_mentions_empty : ¬Mentions {} p := by
  simp [Mentions]

theorem within_addCell (d : Dependencies) (p : Position) : Within d (d.addCell p) := by
  unfold addCell
  split
  · exact .refl d
  · exact ⟨List.subset_append_left _ _, List.Subset.refl _⟩

theorem within_addArea (d : Dependencies) (a : Area) : Within d (d.addArea a) := by
  unfold addArea
  split
  · exact within_addCell d _
  · split
    · exact .refl d
    · exact ⟨List.Subset.refl _, List.subset_append_left _ _⟩

theorem within_addUnit (d : Dependencies) (u : Expression) : Within d (d.addUnit names sheet u) := by
  unfold addUnit
  split
  · split
    · split
      · exact within_addCell d _
      · exact .refl d
    · exact .refl d
  · split
    · exact within_addArea d _
    · exact .refl d
  · split
    · exact within_addArea d _
    · exact .refl d
  · exact .refl d

theorem within_foldl_addUnit (d : Dependencies) (us : List Expression) :
    Within d (us.foldl (addUnit names sheet) d) := by
  induction us generalizing d with
  | nil => exact .refl d
  | cons u us ih => exact (within_addUnit d u).trans (ih _)

theorem mem_addCell (d : Dependencies) (p : Position) : p ∈ (d.addCell p).cells := by
  unfold addCell
  split
  · rename_i h
    simpa using h
  · simp

/-- The only cell of an area of one cell. -/
theorem eq_of_cell? (ha : a.cell? = some p) {q : Position}
    (hq : a.contains q = true) : q = p := by
  obtain ⟨⟨top, left, _, _, _⟩, ⟨bottom, right, _, _, _⟩⟩ := a
  unfold Area.cell? at ha
  split at ha
  · rename_i hsize
    cases top <;> cases left <;> cases bottom <;> cases right <;> simp [Area.size?] at hsize
    simp only [Area.topLeft?, Reference.position?, Option.some.injEq] at ha
    subst ha
    simp only [Area.contains, Area.axisContains, Bool.and_eq_true, decide_eq_true_eq] at hq
    cases q
    simp only [Position.mk.injEq] at hq ⊢
    omega
  · cases ha

theorem isBounded_of_cell? (ha : a.cell? = some p) : a.isBounded = true := by
  obtain ⟨⟨top, left, _, _, _⟩, ⟨bottom, right, _, _, _⟩⟩ := a
  unfold Area.cell? at ha
  split at ha
  · rename_i hsize
    cases top <;> cases left <;> cases bottom <;> cases right <;> simp [Area.size?] at hsize
    rfl
  · cases ha

/-- The cells of an area that has been added are among what is read. -/
theorem mentions_addArea (d : Dependencies) (hp : a.contains p = true) :
    (d.addArea a).Mentions p := by
  unfold addArea
  split
  · rename_i q hq
    rw [eq_of_cell? hq hp]
    exact .inl (mem_addCell d q)
  · split
    · rename_i h
      exact .inr ⟨a, by simpa using h, hp⟩
    · exact .inr ⟨a, by simp, hp⟩

theorem mem_areas_addArea (d : Dependencies) (a : Area) :
    a.isBounded = true ∨ a ∈ (d.addArea a).areas := by
  unfold addArea
  split
  · rename_i q hq
    exact .inl (isBounded_of_cell? hq)
  · split
    · rename_i h
      exact .inr (by simpa using h)
    · exact .inr (by simp)

theorem axisContains_of_bounds {low high low' high' : Option Nat} {top bottom x : Nat} (hlow : low = some top)
    (hhigh : high = some bottom) (htop : Area.axisContains low' high' top = true)
    (hbottom : Area.axisContains low' high' bottom = true) (hx : Area.axisContains low high x = true) :
    Area.axisContains low' high' x = true := by
  subst hlow hhigh
  cases low' <;> cases high' <;> simp_all [Area.axisContains]
  omega

/-- An area within another one has all its cells there. -/
theorem contains_of_within {outer : Area} (h : within outer a = true) (hp : a.contains p = true) :
    outer.contains p = true := by
  obtain ⟨⟨top, left, _, _, _⟩, ⟨bottom, right, _, _, _⟩⟩ := a
  unfold within at h
  rw [Area.contains, Bool.and_eq_true] at hp ⊢
  split at h
  · rename_i q r hq hr
    cases top <;> cases left <;> cases hq
    cases bottom <;> cases right <;> cases hr
    simp only [Area.contains, Bool.and_eq_true] at h
    exact ⟨axisContains_of_bounds rfl rfl h.1.1 h.2.1 hp.1, axisContains_of_bounds rfl rfl h.1.2 h.2.2 hp.2⟩
  · simp only [Reference.samePlace, Bool.and_eq_true, beq_iff_eq] at h
    rw [h.1.1, h.1.2, h.2.1, h.2.2]
    exact hp

/-- The cells of an area that is covered are among what is read. -/
theorem mentions_of_covers (h : d.covers a = true) (hp : a.contains p = true) : d.Mentions p := by
  rw [covers, Bool.or_eq_true] at h
  rcases h with h | h
  · obtain ⟨q, hq, hmem⟩ := (Option.any_eq_true ..).1 h
    rw [eq_of_cell? hq hp]
    exact .inl (by simpa using hmem)
  · obtain ⟨outer, houter, hwithin⟩ := List.any_eq_true.1 h
    exact .inr ⟨outer, houter, contains_of_within hwithin hp⟩

/-- What a unit reads by itself is among the dependencies of an expression with that unit. -/
theorem within_ofExpression {e u : Expression} (hu : u ∈ e.walk entersUnit) :
    ∃ d : Dependencies, Within (d.addUnit names sheet u) (ofExpression names sheet e) := by
  obtain ⟨before, after, hsplit⟩ := List.append_of_mem hu
  refine ⟨before.foldl (addUnit names sheet) {}, ?_⟩
  rw [ofExpression, hsplit, List.foldl_append, List.foldl_cons]
  exact within_foldl_addUnit _ after

end Dependencies

namespace Evaluation

open Dependencies

variable {M : Simulation.Model → Simulation.Model → Prop} {T : Clock → Clock → Prop} {s : Scope} {store' : Store}
  {e u : Expression}

/-- Stores that agree on the dependencies of an expression agree on what its units read. -/
theorem unitLocal_of_dependencies (hnames : ∀ (name : String) a, s.names[name]? = some a → a.Ordered)
    (hcells : ∀ p, (ofExpression s.names s.sheet e).Mentions p → s.store.AgreeAt store' p)
    (hextent : ∀ a ∈ (ofExpression s.names s.sheet e).areas,
      a.isBounded = true ∨ store'.rows = s.store.rows ∧ store'.columns = s.store.columns)
    (hcalls : ∀ position name args, u = .call position name args → ∀ f, s.library.find? name = some f →
      f.Local M T)
    (hu : u ∈ e.walk entersUnit) : UnitLocal M T s store' u := by
  obtain ⟨d, hd⟩ : ∃ d : Dependencies, Within (d.addUnit s.names s.sheet u) (ofExpression s.names s.sheet e) :=
    within_ofExpression hu
  have harea {a : Area} (ha : d.addUnit s.names s.sheet u = d.addArea a) :
      s.store.AgreeOn store' a := by
    rw [ha] at hd
    refine ⟨fun p hp => hcells p (hd.mentions (mentions_addArea d hp)), ?_⟩
    rcases mem_areas_addArea d a with hb | hmem
    · exact .inl hb
    · exact hextent a (hd.areas hmem)
  cases u with
  | cell m =>
    intro p hp hsheet
    refine hcells p (hd.mentions (.inl ?_))
    simp only [addUnit, hp, hsheet, if_true]
    exact mem_addCell d p
  | range position r =>
    intro hsheet
    exact harea (by simp [addUnit, hsheet])
  | identifier position name =>
    intro a ha
    exact ⟨hnames _ a ha, harea (by simp only [addUnit, ha])⟩
  | call position name args => exact hcalls position name args rfl
  | _ => trivial

end Evaluation

namespace Expression

open Dependencies

theorem calculate_eq (s : Scope) (model : Simulation.Model) (e : Expression) :
    e.calculate s model =
      { value := ((Evaluation.evaluate s e).run { effects := { model } }).1
        volatile := ((Evaluation.evaluate s e).run { effects := { model } }).2.volatile
        areas := ((Evaluation.evaluate s e).run { effects := { model } }).2.effects.areas
        model := ((Evaluation.evaluate s e).run { effects := { model } }).2.effects.model } := rfl

/-- The value of an expression depends on the cells that it mentions and on those of the areas that its
evaluation reports, and on no other cell: in a store that agrees on these the evaluation comes to the same. -/
theorem calculate_congr (s : Scope) (store' : Store) (model : Simulation.Model) (e : Expression)
    (hlibrary : s.library = Library.standard)
    (hnames : ∀ (name : String) a, s.names[name]? = some a → a.Ordered)
    (hrows : store'.rows = s.store.rows) (hcolumns : store'.columns = s.store.columns)
    (hmentioned : ∀ p, (ofExpression s.names s.sheet e).Mentions p → s.store.AgreeAt store' p)
    (hreported : ∀ a ∈ (e.calculate s model).areas, ∀ p, a.contains p = true → s.store.AgreeAt store' p) :
    e.calculate { s with store := store' } model = e.calculate s model := by
  have hunits (u : Expression) (hu : u ∈ e.walk entersUnit) : Evaluation.UnitLocal Eq Eq s store' u := by
    refine Evaluation.unitLocal_of_dependencies hnames hmentioned (fun a _ => .inr ⟨hrows, hcolumns⟩)
      (fun position name args _ f hf => ?_) hu
    rw [hlibrary] at hf
    exact Library.isLocal_standard hf
  have hfollows := Evaluation.follows_evaluate (fun m => rfl) (rfl : s.clock = s.clock) e hunits
  have hstart : (Evaluation.sideBySide Eq).related { effects := { model } } { effects := { model } } :=
    ⟨rfl, rfl, rfl, rfl⟩
  obtain ⟨hvalue, hcalls, hvolatile, hareas, hmodel⟩ :=
    hfollows.agrees _ _ hstart fun a ha _ => ⟨hreported a ha, .inr ⟨hrows, hcolumns⟩⟩
  rw [calculate_eq, calculate_eq, hvalue, hvolatile, hareas, ← hmodel]

/-- A store with a number in one cell. -/
def storeOf (x : Float) : Store := Store.setValue {} ⟨1, 1⟩ (.number x)

theorem agreeAt_storeOf {x y : Float} {p : Position} (hp : p ≠ ⟨1, 1⟩) :
    (storeOf x).AgreeAt (storeOf y) p := by
  have hcell (z : Float) : (storeOf z).cell? p = none := by
    rw [storeOf, Store.setValue, Store.cell?_update_of_ne _ _ hp, Store.cell?_empty]
  constructor <;> simp [Store.read, hcell]

/-- A cell of a sheet with a number in another cell. -/
def scopeOf (x : Float) : Scope :=
  { store := storeOf x, library := .standard, clock := ⟨0, 0⟩, position := ⟨2, 2⟩ }

/-- The negation of a cell does not depend on another cell. -/
theorem calculate_congr_negation :
    (Expression.unary 0 "-" (.cell ⟨.ofPosition ⟨0, 0⟩, "A1", 1⟩)).calculate
        { scopeOf 1 with store := storeOf 2 } (.ofSeed 1) =
      (Expression.unary 0 "-" (.cell ⟨.ofPosition ⟨0, 0⟩, "A1", 1⟩)).calculate (scopeOf 1) (.ofSeed 1) := by
  have hlibrary : (scopeOf 1).library = Library.standard := by simp only [scopeOf]
  have hnames (name : String) (a : Area) (h : (scopeOf 1).names[name]? = some a) : a.Ordered := by
    simp [scopeOf] at h
  have hrows : (storeOf 2).rows = (scopeOf 1).store.rows := by simp [scopeOf, storeOf, Store.setValue, Store.update]
  have hcolumns : (storeOf 2).columns = (scopeOf 1).store.columns := by
    simp [scopeOf, storeOf, Store.setValue, Store.update]
  refine calculate_congr (scopeOf 1) (storeOf 2) _ _ hlibrary hnames hrows hcolumns
    (fun p hp => agreeAt_storeOf ?_) fun a ha => ?_
  · have hdependencies : ofExpression (scopeOf 1).names (scopeOf 1).sheet
        (.unary 0 "-" (.cell ⟨.ofPosition ⟨0, 0⟩, "A1", 1⟩)) = { cells := [⟨0, 0⟩] } := rfl
    rw [hdependencies] at hp
    rintro rfl
    simp [Mentions] at hp
  · have hareas : ((Expression.unary 0 "-" (.cell ⟨.ofPosition ⟨0, 0⟩, "A1", 1⟩)).calculate
        (scopeOf 1) (.ofSeed 1)).areas = [] := by
      rw [calculate_eq, Evaluation.evaluate, Evaluation.evaluate]
      rfl
    rw [hareas] at ha
    cases ha

end Expression

end Spreadsheet
