import Spreadsheet.Proofs.Sheet.Command
import Spreadsheet.Proofs.Sheet.Contained
import Spreadsheet.Proofs.Sheet.Evolves
import Spreadsheet.Proofs.Sheet.Recording

/-!
The extent of a sheet. As long as no deletion strands a cell, all cells lie within the extent whatever is done to a
sheet, so that references to whole rows and columns read every cell in them and insertions move no cell off the sheet.
-/

namespace Spreadsheet

open Spreadsheet.Graph

namespace Sheet

variable {s s' : Sheet} {p : Position} {a : Area} {text : String} {x : Axis} {start count : Nat}

/-! ### Edits of sheets -/

theorem covers_eraseAll (s : Sheet) (ps : List Position) : s.store.Covers (ps.foldl erase s).store := by
  induction ps generalizing s with
  | nil => exact .refl _
  | cons p ps ih => exact (Store.Covers.adjust s.store p Cell.reset).trans (ih (s.erase p))

theorem covers_detach (hs : s.detach p = .ok s') : s.store.Covers s'.store := by
  unfold detach at hs
  split at hs
  · cases hs
    exact .refl _
  · split at hs
    · cases hs
      exact covers_eraseAll s _
    · cases hs

theorem covers_clear (hs : s.clear p = .ok s') : s.store.Covers s'.store := by
  unfold clear at hs
  split at hs
  · cases hs
    exact .adjust s.store p Cell.reset
  · split at hs
    · cases hs
      exact covers_eraseAll s _
    · cases hs

theorem covers_rebuild (s : Sheet) : s.store.Covers s.rebuild.store := by
  have hrun (cells : List (Position × Cell)) (s : Sheet) :
      s.store.Covers (cells.foldl (fun s pc => s.reinstall pc.1 pc.2) s).store := by
    induction cells generalizing s with
    | nil => exact .refl _
    | cons pc cells ih =>
      refine .trans ?_ (ih (s.reinstall pc.1 pc.2))
      unfold reinstall
      split
      · exact .refl _
      · split
        · split
          · exact .refl _
          · exact .refl _
        · exact .adjust s.store pc.1 _
  exact hrun s.store.toList { s with graph := {} }

theorem covers_moved (s : Sheet) (x : Axis) (store : Store) (start : Nat) (f : Nat → Nat) :
    store.Covers (s.moved x store start f).store :=
  (Store.Covers.mapCells store fun c => { c with area := c.area.map (x.moveArea start f) }).trans
    (covers_rebuild { s with store := _ })

theorem contained_enlistAll (h : s.store.Contained) {ps : List Position} (hps : ∀ p ∈ ps, p.Countable) :
    (ps.foldl (fun s p => s.enlist a p) s).store.Contained := by
  induction ps generalizing s with
  | nil => exact h
  | cons p ps ih =>
    have hfirst := h.update (hps p List.mem_cons_self) fun c => { c.reset with area := some a }
    exact ih (s := s.enlist a p) hfirst fun q hq => hps q (List.mem_cons_of_mem p hq)

theorem contained_setValue {v : Value} (h : s.store.Contained) (hp : p.Countable) (hs : s.setValue p v = .ok s') :
    s'.store.Contained := by
  unfold setValue at hs
  cases hd : s.detach p with
  | error err =>
    rw [hd] at hs
    cases hs
  | ok s₁ =>
    rw [hd] at hs
    cases hs
    exact (h.covers (covers_detach hd)).update hp (·.setValue v)

theorem contained_setFormula (h : s.store.Contained) (hp : p.Countable) (hs : s.setFormula p text = .ok s') :
    s'.store.Contained := by
  unfold setFormula at hs
  cases hparse : s.parse text with
  | error err =>
    rw [hparse] at hs
    cases hs
  | ok e =>
    cases hd : s.detach p with
    | error err =>
      rw [hparse, hd] at hs
      cases hs
    | ok s₁ =>
      rw [hparse, hd] at hs
      cases hs
      exact (h.covers (covers_detach hd)).update hp (·.setFormula text)

theorem contained_setInput (h : s.store.Contained) (hp : p.Countable) (hs : s.setInput p text = .ok s') :
    s'.store.Contained := by
  unfold setInput at hs
  split at hs
  · exact h.covers (covers_clear hs)
  · simp only at hs
    split at hs
    · exact contained_setFormula h hp hs
    · exact contained_setValue h hp hs

theorem contained_setArray (h : s.store.Contained) (hordered : a.Ordered) (hmembers : ∀ p ∈ a.members, p.Countable)
    (hs : s.setArray a text = .ok s') : s'.store.Contained := by
  unfold setArray at hs
  split at hs
  · rename_i head hbounded hhead
    have hcountable := hmembers head ((Area.mem_members hbounded).2 (Area.contains_topLeft hordered hhead))
    cases hparse : s.parse text with
    | error err =>
      rw [hparse] at hs
      cases hs
    | ok e =>
      rw [hparse] at hs
      simp only [bind, Except.bind] at hs
      split at hs
      · cases hs
      · cases hs
        refine (contained_enlistAll ?_ hmembers).update hcountable (·.setFormula text)
        split
        · exact h
        · exact h.covers (covers_eraseAll s _)
  · cases hs

theorem contained_insert (h : s.store.Contained) (hs : s.insert x start count = .ok s') : s'.store.Contained := by
  unfold Sheet.insert at hs
  split at hs
  · cases hs
    exact h
  · split at hs
    · cases hs
    · simp only at hs
      split at hs
      · cases hs
      · rename_i hroom
        cases hs
        refine (h.insert fun hlt => ?_).covers (covers_moved ..)
        have hlast : x.last ≤ Row.last := by cases x <;> decide
        simp only [hlt, decide_true, Bool.true_and, decide_eq_true_eq] at hroom
        unfold Row.last at hlast
        unfold Store.extentBound
        omega

theorem contained_delete (h : s.store.Contained) (hstrands : ¬x.Strands s.store start count)
    (hs : s.delete x start count = .ok s') : s'.store.Contained := by
  unfold Sheet.delete at hs
  split at hs
  · cases hs
    exact h
  · split at hs
    · cases hs
    · cases hs
      exact ((Store.contained_delete_iff h).2 hstrands).covers (covers_moved ..)

/-! ### Passes -/

theorem spans_run {env : Environment} {p : Graph.Pass Contents} (h : p.Underway) (limit steps : Nat) :
    p.state.store.Spans (p.run env.handler limit steps).state.store := by
  induction steps generalizing p with
  | zero =>
    unfold Pass.run
    cases p.queue with
    | nil => exact .refl _
    | cons i rest => exact .refl _
  | succ steps ih =>
    unfold Pass.run
    cases hq : p.queue with
    | nil => exact .refl _
    | cons i rest =>
      have hl := Pass.looked_step (p := p.taken rest) h.cycles env.handler limit i
      exact (spans_looked hl).trans (ih (h.step hq env.handler limit))

/-- A pass makes a sheet no smaller. -/
theorem Kept.spans_recalculate {uncut : Prop} (h : s.Kept uncut) : s.store.Spans s.recalculate.2.store :=
  spans_run (h.markVolatile.firm.toSound.underway s.toContents) s.settings.limits.rebuilds s.settings.limits.steps

theorem Kept.covers_recalculate {uncut : Prop} (h : s.Kept uncut) : s.store.Covers s.recalculate.2.store :=
  .of_alike h.spans_recalculate h.alike_recalculate

end Sheet

/-! ### Sheets none of whose cells has been stranded -/

/-- Whether the cells that an operation is about can be counted and, if it is a deletion, it strands none. -/
def Operation.Spares (s : Sheet) : Operation → Prop
  | .setValue p _ => p.Countable
  | .setFormula p _ => p.Countable
  | .setInput p _ => p.Countable
  | .setArray a _ => (∃ b c, a = .between b c) ∧ ∀ p ∈ a.members, p.Countable
  | .delete x start count => ¬x.Strands s.store start count
  | _ => True

namespace Sheet

/-- The sheets that come about while no deletion strands a cell, wherever passes have been cut short. -/
inductive Spared : Sheet → Prop
  | empty (settings : Settings) (library : Library) (clock : Clock) : Spared (.empty settings library clock)
  | operation {s s' : Sheet} {reply : Reply} (op : Operation) (h : Spared s) (hspares : op.Spares s)
    (hs : op.apply s = .ok (reply, s')) : Spared s'
  | defineName {s : Sheet} (name : String) (a : Area) (h : Spared s) : Spared (s.defineName name a)
  | removeName {s s' : Sheet} {name : String} (h : Spared s) (hs : s.removeName? name = some s') : Spared s'
  | rebuild {s : Sheet} (h : Spared s) : Spared s.rebuild
  | recalculate {s : Sheet} (h : Spared s) : Spared s.recalculate.2
  | startSimulation {s : Sheet} (iterations : Nat) (h : Spared s) : Spared (s.startSimulation iterations).2
  | elapse {s : Sheet} (clock : Clock) (model : Simulation.Model) (h : Spared s) : Spared { s with clock, model }

variable {s s' : Sheet} {p q : Position} {c : Cell} {a : Area} {x : Axis} {start count : Nat} {uncut : Prop}

/-- Operations keep all cells within the extent, and a sheet one that can be attained. -/
theorem Attained.operation (h : s.Attained False) (hs : s.store.Contained) {op : Operation} (hspares : op.Spares s)
    {reply : Reply} (happly : op.apply s = .ok (reply, s')) : s'.Attained False ∧ s'.store.Contained := by
  -- an operation that gives nothing but the sheet
  have hdone {result : Except SheetError Sheet} {reply : Reply}
      (hresult : result.map (Reply.done, ·) = .ok (reply, s')) : result = .ok s' := by
    cases result <;> cases hresult
    rfl
  cases op with
  | setValue p v => exact ⟨h.setValue (hdone happly), contained_setValue hs hspares (hdone happly)⟩
  | setFormula p text => exact ⟨h.setFormula (hdone happly), contained_setFormula hs hspares (hdone happly)⟩
  | setInput p text => exact ⟨h.setInput (hdone happly), contained_setInput hs hspares (hdone happly)⟩
  | setArray a text =>
    obtain ⟨⟨b, c, rfl⟩, hmembers⟩ := hspares
    exact ⟨h.setArray (hdone happly),
      contained_setArray hs (Area.ordered_between b c) hmembers (hdone happly)⟩
  | clear p => exact ⟨h.clear (hdone happly), hs.covers (covers_clear (hdone happly))⟩
  | insert x start count => exact ⟨h.insert (hdone happly), contained_insert hs (hdone happly)⟩
  | delete x start count => exact ⟨h.delete (hdone happly), contained_delete hs hspares (hdone happly)⟩
  | evaluate text p =>
    simp only [Operation.apply, evaluate] at happly
    cases hparse : s.parse text with
    | error err =>
      rw [hparse] at happly
      cases happly
    | ok e =>
      rw [hparse] at happly
      cases happly
      exact ⟨h.elapse s.clock _, hs⟩
  | runTrial =>
    cases hrun : s.runTrial with
    | error err =>
      simp only [Operation.apply, hrun] at happly
      cases happly
    | ok result =>
      simp only [Operation.apply, hrun] at happly
      cases happly
      refine ⟨h.runTrial hrun False.elim, ?_⟩
      unfold Sheet.runTrial at hrun
      split at hrun
      · cases hrun
        exact hs.covers h.kept.covers_recalculate
      · cases hrun
  | endSimulation =>
    cases hend : s.endSimulation with
    | error err =>
      simp only [Operation.apply, hend] at happly
      cases happly
    | ok result =>
      simp only [Operation.apply, hend] at happly
      cases happly
      refine ⟨h.endSimulation hend, ?_⟩
      unfold Sheet.endSimulation at hend
      split at hend
      · cases hend
        exact hs
      · cases hend
  | loadSamples data =>
    have hload := hdone happly
    refine ⟨h.loadSamples hload, ?_⟩
    unfold Sheet.loadSamples at hload
    split at hload
    · cases hload
      exact hs
    · cases hload

theorem Spared.invariant (h : s.Spared) : s.Attained False ∧ s.store.Contained := by
  induction h with
  | empty settings library clock => exact ⟨.empty settings library clock False.elim, .empty⟩
  | operation op _ hspares hs ih => exact ih.1.operation ih.2 hspares hs
  | @defineName s name a _ ih =>
    have hrebuild := covers_rebuild { s with names := s.names.insert (Text.upper name) a }
    exact ⟨ih.1.defineName name a False.elim, ih.2.covers hrebuild⟩
  | @removeName s s' name _ hs ih =>
    refine ⟨ih.1.removeName hs, ?_⟩
    unfold Sheet.removeName? at hs
    split at hs
    · cases hs
      exact ih.2.covers (covers_rebuild { s with names := s.names.erase (Text.upper name) })
    · cases hs
  | rebuild _ ih => exact ⟨ih.1.rebuild, ih.2.covers (covers_rebuild _)⟩
  | recalculate _ ih => exact ⟨ih.1.recalculate False.elim, ih.2.covers ih.1.kept.covers_recalculate⟩
  | @startSimulation s iterations _ ih =>
    refine ⟨ih.1.startSimulation iterations False.elim, ?_⟩
    have hprepared := ih.1.kept.markFormulas.elapse s.clock (s.preparing iterations).model
    have hpass := ih.2.covers hprepared.covers_recalculate
    unfold Sheet.startSimulation
    simp only
    split
    · exact hpass
    · exact hpass
  | elapse clock model _ ih => exact ⟨ih.1.elapse clock model, ih.2⟩

/-! ### What the extent is relied on for -/

end Sheet

theorem Area.exists_clippedAxis {low high : Option Nat} {count z : Nat} (hordered : AxisOrdered low high)
    (hin : axisContains low high z = true) (hz : z < count) :
    ∃ l h, clippedAxis low high count = (some l, some h) ∧ l ≤ z ∧ z ≤ h := by
  cases low <;> cases high <;> simp only [AxisOrdered] at hordered
  · exact ⟨0, count - 1, rfl, Nat.zero_le _, by omega⟩
  · rename_i l h
    simp only [axisContains, Bool.and_eq_true, decide_eq_true_eq] at hin
    exact ⟨l, h, rfl, hin⟩

/-- The value of a cell in the values of a block, given by its first and its last cell. -/
def Value.inBlock? (v : Value) (first last p : Position) : Option Value :=
  if first = last then some v
  else
    match v with
    | .array columns => (columns[p.column - first.column]?).bind (·[p.row - first.row]?)
    | _ => none

theorem Area.getElem?_span {low high z : Nat} (hlow : low ≤ z) (hhigh : z ≤ high) :
    (Area.span low high)[z - low]? = some z := by
  rw [Area.span, List.getElem?_range' (by omega)]
  congr 1
  omega

/-- The values of a block have the value of each of its cells at its place. -/
theorem Store.inBlock?_readBlock (s : Store) {first last p : Position} (hrow : first.row ≤ p.row ∧ p.row ≤ last.row)
    (hcolumn : first.column ≤ p.column ∧ p.column ≤ last.column) :
    (s.readBlock first last).inBlock? first last p = some (s.read p) := by
  unfold readBlock Value.inBlock?
  split
  · rename_i heq
    subst heq
    obtain rfl : p = first := by
      obtain ⟨row, column⟩ := p
      obtain ⟨row', column'⟩ := first
      simp only at hrow hcolumn
      rw [Position.mk.injEq]
      omega
    rfl
  · have hrows := Area.getElem?_span hrow.1 hrow.2
    have hcolumns := Area.getElem?_span hcolumn.1 hcolumn.2
    rw [min_eq_left (Nat.le_trans hcolumn.1 hcolumn.2), max_eq_right (Nat.le_trans hcolumn.1 hcolumn.2),
      min_eq_left (Nat.le_trans hrow.1 hrow.2), max_eq_right (Nat.le_trans hrow.1 hrow.2)]
    simp only [List.getElem?_map, hcolumns, hrows, Option.map_some, Option.bind_some]

namespace Sheet

variable {s s' : Sheet} {p q : Position} {c : Cell} {a : Area} {x : Axis} {start count : Nat} {uncut : Prop}

theorem onSheet_iff : p.OnSheet ↔ ∀ x : Axis, x.coordinate p ≤ x.last := by
  constructor
  · rintro ⟨hrow, hcolumn⟩ x
    cases x
    · exact hrow
    · exact hcolumn
  · exact fun h => ⟨h .rows, h .columns⟩

/-- The extent of a sheet is what is relied on: that all cells lie within it. -/
structure Encompassed (s : Sheet) : Prop where
  within : ∀ p c, s.store.cell? p = some c → p.row < s.store.rows ∧ p.column < s.store.columns
  /-- A reference, also one to whole rows or columns, has the value of each cell in it at its place in the block to
  which the reference is cut down. -/
  reads : ∀ (a : Area) (p : Position) (c : Cell) (q : Position), a.Ordered → a.first.isOnSheet s.settings.name = true →
    s.store.cell? p = some c → a.contains p = true →
    ∃ first last, (a.resolve s.store.rows s.store.columns).first.position? = some first ∧
      (a.resolve s.store.rows s.store.columns).last.position? = some last ∧
      (Evaluation.areaValue (s.scope s.store q) a).inBlock? first last p = some (s.read p)
  /-- An insertion that is not refused moves no cell off the sheet. -/
  inserts : ∀ x start count s', s.insert x start count = .ok s' →
    (∀ p c, s.store.cell? p = some c → p.OnSheet) → ∀ p c, s'.store.cell? p = some c → p.OnSheet

theorem reads_of_contained (h : s.store.Contained) (hordered : a.Ordered)
    (hsheet : a.first.isOnSheet s.settings.name = true) (hc : s.store.cell? p = some c) (hin : a.contains p = true)
    (q : Position) : ∃ first last, (a.resolve s.store.rows s.store.columns).first.position? = some first ∧
      (a.resolve s.store.rows s.store.columns).last.position? = some last ∧
      (Evaluation.areaValue (s.scope s.store q) a).inBlock? first last p = some (s.read p) := by
  have hrows := a.row_resolve s.store.rows s.store.columns
  have hcolumns := a.column_resolve s.store.rows s.store.columns
  rw [Area.contains, Bool.and_eq_true] at hin
  have hp : p.row < s.store.rows ∧ p.column < s.store.columns :=
    ⟨h.within p c hc .rows, h.within p c hc .columns⟩
  obtain ⟨top, bottom, hrow, hp_row⟩ := Area.exists_clippedAxis hordered.rows hin.1 hp.1
  obtain ⟨left, right, hcolumn, hp_column⟩ := Area.exists_clippedAxis hordered.columns hin.2 hp.2
  rw [hrow, Prod.mk.injEq] at hrows
  rw [hcolumn, Prod.mk.injEq] at hcolumns
  have hfirst : (a.resolve s.store.rows s.store.columns).first.position? = some ⟨top, left⟩ := by
    rw [Reference.position?, hrows.1, hcolumns.1]
  have hlast : (a.resolve s.store.rows s.store.columns).last.position? = some ⟨bottom, right⟩ := by
    rw [Reference.position?, hrows.2, hcolumns.2]
  refine ⟨_, _, hfirst, hlast, ?_⟩
  have hvalue : Evaluation.areaValue (s.scope s.store q) a = s.store.readBlock ⟨top, left⟩ ⟨bottom, right⟩ := by
    unfold Evaluation.areaValue
    rw [show (s.scope s.store q).sheet = s.settings.name from rfl, if_pos hsheet,
      show (s.scope s.store q).store = s.store from rfl, Store.readArea?]
    simp only [hfirst, hlast, Option.getD_some]
  rw [hvalue]
  exact s.store.inBlock?_readBlock hp_row hp_column

theorem inserts_of_contained (h : s.store.Contained) (hs : s.insert x start count = .ok s')
    (hsheet : ∀ p c, s.store.cell? p = some c → p.OnSheet) (q : Position) (c' : Cell)
    (hc' : s'.store.cell? q = some c') : q.OnSheet := by
  unfold Sheet.insert at hs
  split at hs
  · cases hs
    exact hsheet q c' hc'
  · split at hs
    · cases hs
    · simp only at hs
      split at hs
      · cases hs
      · rename_i hroom
        cases hs
        obtain ⟨d, hd⟩ := (covers_moved ..).cell q c' hc'
        obtain ⟨p, hp, hc⟩ := (x.cell?_insert s.store start count).1 hd
        rw [Axis.place_eq_some_iff] at hp
        have hon := onSheet_iff.1 (hsheet p d hc)
        refine onSheet_iff.2 fun y => ?_
        by_cases hy : y = x
        · subst hy
          have hplace := Option.some.inj hp.1
          have hwithin := h.within p d hc y
          have hlast := hon y
          simp only [Bool.and_eq_true, decide_eq_true_eq] at hroom
          rw [Store.afterInsert] at hplace
          split at hplace <;> omega
        · rw [hp.2 y hy]
          exact hon y

theorem encompassed_of_contained (h : s.store.Contained) : s.Encompassed where
  within p c hc := ⟨h.within p c hc .rows, h.within p c hc .columns⟩
  reads _ _ _ q hordered hsheet hc hin := reads_of_contained h hordered hsheet hc hin q
  inserts _ _ _ _ hs hsheet := inserts_of_contained h hs hsheet

/-- While no deletion strands a cell, all cells lie within the extent, and a deletion that strands one is the only edit
after which they do not. In sheets that come about in this way references to whole rows and columns read all cells in
them, and insertions move no cell off the sheet. -/
theorem Spared.encompassed {store : Store} (hstore : store.Built) (h : s.Spared) :
    (∀ p c, store.cell? p = some c → p.row < store.rows ∧ p.column < store.columns) ∧
      (∀ e : Store.Edit, e.Fits store → ((e.apply store).Contained ↔ e.Spares store)) ∧ s.Encompassed := by
  have hcontained := hstore.contained
  exact ⟨fun p c hc => ⟨hcontained.within p c hc .rows, hcontained.within p c hc .columns⟩,
    fun _ hfits => Store.contained_edit_iff hcontained hfits, encompassed_of_contained h.invariant.2⟩

/-! ### Sheets without formulas -/

end Sheet

namespace Store

variable {s : Store} {x : Axis} {start count : Nat}

/-- No cell has a formula or belongs to an array formula. -/
def Inert (s : Store) : Prop := ∀ p c, s.cell? p = some c → c.formula? = none ∧ c.area = none

theorem inert_setValue (p : Position) (v : Value) : (Store.setValue {} p v).Inert := by
  intro q c hc
  rw [setValue, cell?_update] at hc
  split at hc
  · cases hc
    exact ⟨rfl, rfl⟩
  · rw [cell?_empty] at hc
    cases hc

theorem Inert.mapArea (h : s.Inert) (f : Area → Area) :
    (s.mapCells fun c => { c with area := c.area.map f }).Inert := by
  intro q c' hc'
  rw [cell?_mapCells] at hc'
  obtain ⟨c, hc, rfl⟩ := Option.map_eq_some_iff.1 hc'
  exact ⟨(h q c hc).1, by simp only [(h q c hc).2, Option.map_none]⟩

theorem Inert.insert (h : s.Inert) : (x.insert s start count).Inert := by
  intro q c hc
  obtain ⟨p, -, hc⟩ := (x.cell?_insert s start count).1 hc
  exact h p c hc

theorem Inert.delete (h : s.Inert) : (x.delete s start count).Inert := by
  intro q c hc
  obtain ⟨p, -, hc⟩ := (x.cell?_delete s start count).1 hc
  exact h p c hc

end Store

namespace Sheet

variable {s : Sheet} {x : Axis} {start count : Nat} {f : Nat → Nat} {store : Store}

theorem findArray?_of_inert (h : s.store.Inert) (cond : Area → Bool) : s.findArray? cond = none := by
  refine List.findSome?_eq_none_iff.2 fun ⟨p, c⟩ hc => ?_
  simp only [(h p c (Store.mem_toList.1 hc)).2, Option.filter_none]

theorem store_rebuild_of_inert (h : s.store.Inert) : s.rebuild.store = s.store := by
  have hrun (cells : List (Position × Cell)) (hcells : ∀ pc ∈ cells, pc.2.formula? = none) (s : Sheet) :
      cells.foldl (fun s pc => s.reinstall pc.1 pc.2) s = s := by
    induction cells generalizing s with
    | nil => rfl
    | cons pc cells ih =>
      rw [List.foldl_cons, reinstall, hcells pc List.mem_cons_self]
      exact ih (fun pc hpc => hcells pc (List.mem_cons_of_mem _ hpc)) s
  have hsame : s.rebuild = { s with graph := {} } :=
    hrun s.store.toList (fun pc hpc => (h pc.1 pc.2 (Store.mem_toList.1 hpc)).1) { s with graph := {} }
  rw [hsame]

theorem store_moved_of_inert (h : store.Inert) :
    (s.moved x store start f).store = store.mapCells fun c => { c with area := c.area.map (x.moveArea start f) } :=
  store_rebuild_of_inert (s := { s with store := store.mapCells _ }) (h.mapArea _)

/-! ### A deletion beyond the last row -/

/-- A sheet with a value at one place. -/
def lone (library : Library) (p : Position) : Sheet :=
  { Sheet.empty {} library default with
    store := Store.setValue {} p (.boolean true)
    graph := (Graph.demote {} p).setDirty p }

/-- The same sheet when rows or columns have been deleted. -/
def pruned (library : Library) (p : Position) (x : Axis) (start count : Nat) : Sheet :=
  (lone library p).moved x (x.delete (lone library p).store start count) start (· - count)

section

variable (library : Library)

theorem setValue_lone (p : Position) :
    (Sheet.empty {} library default).setValue p (.boolean true) = .ok (lone library p) := by
  have hnone : (Sheet.empty {} library default).arrayAt? p = none := by
    simp only [arrayAt?, Sheet.empty, Store.cell?_empty]
    rfl
  simp only [setValue, detach, hnone]
  rfl

theorem inert_lone (p : Position) : (lone library p).store.Inert := Store.inert_setValue p (.boolean true)

theorem delete_lone {count : Nat} (p : Position) (x : Axis) (start : Nat) (hcount : count ≠ 0) :
    (lone library p).delete x start count = .ok (pruned library p x start count) := by
  simp only [Sheet.delete, if_neg hcount, findArray?_of_inert (inert_lone library p)]
  rfl

theorem store_pruned (p : Position) (x : Axis) (start count : Nat) : (pruned library p x start count).store =
    (x.delete (lone library p).store start count).mapCells fun c =>
      { c with area := c.area.map (x.moveArea start (· - count)) } :=
  store_moved_of_inert (inert_lone library p).delete

theorem inert_pruned (p : Position) (x : Axis) (start count : Nat) : (pruned library p x start count).store.Inert := by
  rw [store_pruned]
  exact (inert_lone library p).delete.mapArea _

theorem read_pruned : (pruned library ⟨4, 0⟩ .rows 8 3).read ⟨4, 0⟩ = .boolean true := by rfl

theorem rows_pruned : (pruned library ⟨4, 0⟩ .rows 8 3).store.rows = 2 := by rfl

theorem rows_pruned_above : (pruned library ⟨4, 0⟩ .rows 1 2).store.rows = 3 := by rfl

theorem cell?_lone {p q : Position} {c : Cell} (hc : (lone library p).store.cell? q = some c) : q = p := by
  change (Store.update {} p _).cell? q = some c at hc
  rw [Store.cell?_update] at hc
  split at hc
  · rename_i hq
    exact hq.symm
  · rw [Store.cell?_empty] at hc
    cases hc

theorem insert_pruned : ∃ s', (pruned library ⟨0, 18277⟩ .columns 18278 5).insert .columns 0 1 = .ok s' ∧
    (s'.store.cell? ⟨0, 18278⟩).isSome = true := by
  have hinert := inert_pruned library ⟨0, 18277⟩ .columns 18278 5
  have hextent : Axis.columns.extent (pruned library ⟨0, 18277⟩ .columns 18278 5).store = 18273 := by
    rw [store_pruned]
    rfl
  have hcell : ((lone library ⟨0, 18277⟩).store.cell? ⟨0, 18277⟩).isSome = true := by
    rw [show (lone library ⟨0, 18277⟩).store = Store.update {} ⟨0, 18277⟩ (·.setValue (.boolean true)) from rfl,
      Store.cell?_update_self]
    rfl
  refine ⟨_, by simp [Sheet.insert, findArray?_of_inert hinert, hextent, Axis.last, Column.last]; rfl, ?_⟩
  rw [store_moved_of_inert hinert.insert, store_pruned]
  simpa [Store.cell?_mapCells, Axis.insert, Axis.delete, Store.cell?_insertColumns, Store.cell?_deleteColumns]
    using hcell

theorem areaValue_pruned :
    Evaluation.areaValue ((pruned library ⟨4, 0⟩ .rows 8 3).scope (pruned library ⟨4, 0⟩ .rows 8 3).store ⟨0, 1⟩)
      (.between { column := some 0 } { column := some 0 }) = .array [[.undefined, .undefined]] := by rfl

end

theorem attained_lone (p : Position) : (lone .standard p).Attained True :=
  .setValue (.empty {} .standard default fun _ => rfl) (setValue_lone _ p)

/-- Rows of the sheet are deleted above a value; the column still has the value. -/
theorem encompassed_pruned : Store.Built (Axis.delete .rows (Store.setValue {} ⟨4, 0⟩ (.boolean true)) 1 2) ∧
    (pruned .standard ⟨4, 0⟩ .rows 1 2).Spared ∧ (pruned .standard ⟨4, 0⟩ .rows 1 2).store.rows = 3 ∧
    (pruned .standard ⟨4, 0⟩ .rows 1 2).Encompassed := by
  have hcountable : Position.Countable ⟨4, 0⟩ := fun x => by cases x <;> decide
  have hstrands : ¬Axis.Strands .rows (Store.setValue {} ⟨4, 0⟩ (.boolean true)) 1 2 :=
    Axis.not_strands_of_le (by decide)
  have hbuilt : Store.Built (Axis.delete .rows (Store.setValue {} ⟨4, 0⟩ (.boolean true)) 1 2) :=
    .edit (.delete .rows 1 2) (.edit (.setValue ⟨4, 0⟩ (.boolean true)) .empty hcountable trivial) trivial hstrands
  have hset : (Operation.setValue ⟨4, 0⟩ (.boolean true)).apply (Sheet.empty {} .standard default) =
      .ok (.done, lone .standard ⟨4, 0⟩) := by
    rw [Operation.apply, setValue_lone]
    rfl
  have hdelete : (Operation.delete .rows 1 2).apply (lone .standard ⟨4, 0⟩) =
      .ok (.done, pruned .standard ⟨4, 0⟩ .rows 1 2) := by
    rw [Operation.apply, delete_lone _ _ _ _ (by decide)]
    rfl
  have hspared : (pruned .standard ⟨4, 0⟩ .rows 1 2).Spared :=
    .operation (.delete .rows 1 2)
      (.operation (.setValue ⟨4, 0⟩ (.boolean true)) (.empty {} .standard default) hcountable hset) hstrands hdelete
  exact ⟨hbuilt, hspared, rows_pruned_above _, (Spared.encompassed hbuilt hspared).2.2⟩

theorem attained_pruned (p : Position) (x : Axis) (start : Nat) {count : Nat} (hcount : count ≠ 0) :
    (pruned .standard p x start count).Attained True :=
  .delete (attained_lone p) (delete_lone _ p x start hcount)

/-- Rows beyond the last one are deleted, and the column does not have the value below any more; columns beyond the last
one are deleted, and an insertion moves a value off the sheet. -/
theorem stranded_pruned :
    (∃ s : Sheet, s.Attained True ∧ s.read ⟨4, 0⟩ = .boolean true ∧ s.store.rows = 2 ∧
      Evaluation.areaValue (s.scope s.store ⟨0, 1⟩) (.between { column := some 0 } { column := some 0 }) =
        .array [[.undefined, .undefined]]) ∧
      ∃ s s' : Sheet, s.Attained True ∧ (∀ p c, s.store.cell? p = some c → p.OnSheet) ∧
        s.insert .columns 0 1 = .ok s' ∧ ¬∀ p c, s'.store.cell? p = some c → p.OnSheet := by
  refine ⟨⟨_, attained_pruned ⟨4, 0⟩ .rows 8 (by decide), read_pruned _, rows_pruned _, areaValue_pruned _⟩, ?_⟩
  obtain ⟨s', hs', hcell⟩ := insert_pruned .standard
  obtain ⟨c, hc⟩ := Option.isSome_iff_exists.1 hcell
  refine ⟨_, s', attained_pruned ⟨0, 18277⟩ .columns 18278 (by decide), fun q d hd => ?_, hs', fun hsheet => ?_⟩
  · rw [store_pruned, Store.cell?_mapCells] at hd
    obtain ⟨d', hd', -⟩ := Option.map_eq_some_iff.1 hd
    obtain ⟨p, hp, hc⟩ := (Axis.cell?_delete .columns _ 18278 5).1 hd'
    obtain rfl := cell?_lone _ hc
    obtain rfl : (⟨0, 18277⟩ : Position) = q := Option.some.inj hp
    exact ⟨by decide, by decide⟩
  · exact absurd (hsheet _ c hc).2 (by decide)

end Sheet

end Spreadsheet
