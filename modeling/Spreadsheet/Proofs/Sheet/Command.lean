import Spreadsheet.Function.Standard
import Spreadsheet.Proofs.Simulation.Record
import Spreadsheet.Sheet.Command

/-!
Commands do all or nothing. Every refusal comes before the first change, so each command is the operation that it
stands for, done as a whole or not at all.
-/

namespace Spreadsheet

variable {s s' : Sheet} {p : Position} {a : Area} {e : Expression}

namespace Command

/-! ### Steps -/

section

variable {α β : Type} {x : α} {err : SheetError}

@[simp] theorem on_pure (x : α) (s : Sheet) : (pure x : Command α).on s = (.ok x, s) := rfl

@[simp] theorem on_bind (c : Command α) (k : α → Command β) (s : Sheet) : (c >>= k).on s =
    match c.on s with
    | (.ok x, s') => (k x).on s'
    | (.error e, s') => (.error e, s') := by
  simp only [on, ExceptT.run_bind, StateT.run_bind]
  rcases h : (ExceptT.run c).run s with ⟨_ | _, _⟩ <;> rfl

@[simp] theorem on_map (f : α → β) (c : Command α) (s : Sheet) : (f <$> c).on s =
    ((c.on s).1.map f, (c.on s).2) := by
  rw [map_eq_pure_bind, on_bind]
  rcases c.on s with ⟨_ | _, _⟩ <;> rfl

@[simp] theorem on_get (s : Sheet) : (get : Command Sheet).on s = (.ok s, s) := rfl

@[simp] theorem on_modify (f : Sheet → Sheet) (s : Sheet) : (modify f : Command Unit).on s = (.ok (), f s) := rfl

@[simp] theorem on_modifyGet (f : Sheet → α × Sheet) (s : Sheet) :
    (modifyGet f : Command α).on s = (.ok (f s).1, (f s).2) := rfl

@[simp] theorem on_refuse (err : SheetError) (s : Sheet) : (refuse err : Command α).on s = (.error (.sheet err), s) := rfl

@[simp] theorem on_changeStore (f : Store → Store) (s : Sheet) :
    (changeStore f).on s = (.ok (), { s with store := f s.store }) := rfl

@[simp] theorem on_changeGraph (f : Graph → Graph) (s : Sheet) :
    (changeGraph f).on s = (.ok (), { s with graph := f s.graph }) := rfl

@[simp] theorem on_changeModel (f : Simulation.Model → Simulation.Model) (s : Sheet) :
    (changeModel f).on s = (.ok (), { s with model := f s.model }) := rfl

@[simp] theorem on_askGraph (f : Graph → α × Graph) (s : Sheet) :
    (askGraph f).on s = (.ok (f s.graph).1, { s with graph := (f s.graph).2 }) := rfl

/-- Steps that are never refused, one for each member of a list. -/
theorem on_forM {f : α → Command Unit} {g : Sheet → α → Sheet} (h : ∀ x s, (f x).on s = (.ok (), g s x))
    (xs : List α) (s : Sheet) : (xs.forM f).on s = (.ok (), xs.foldl g s) := by
  induction xs generalizing s with
  | nil => rfl
  | cons x xs ih =>
    change (f x >>= fun _ => xs.forM f).on s = _
    rw [on_bind, h]
    exact ih (g s x)

/-- What an operation gives and leaves if it is done as a whole or not at all. -/
def settle (s : Sheet) : Except SheetError (α × Sheet) → Except Refusal α × Sheet
  | .ok (x, s') => (.ok x, s')
  | .error err => (.error (.sheet err), s)

/-- A change that is done as a whole or not at all. -/
def settleChange (s : Sheet) (result : Except SheetError Sheet) : Except Refusal Unit × Sheet :=
  settle s (result.map ((), ·))

@[simp] theorem on_demand (result : Except SheetError α) (s : Sheet) :
    (demand result).on s = settle s (result.map (·, s)) := by
  cases result <;> rfl

end

/-! ### Edits -/

theorem on_parse (text : String) (s : Sheet) : (parse text).on s = settle s ((s.parse text).map (·, s)) := by
  simp [parse]

theorem on_erase (p : Position) (s : Sheet) : (erase p).on s = (.ok (), s.erase p) := by
  simp [erase, Sheet.erase]

theorem on_eraseArray (a : Area) (s : Sheet) : (eraseArray a).on s = (.ok (), s.eraseArray a) :=
  on_forM on_erase a.members s

theorem on_detach (p : Position) (s : Sheet) : (detach p).on s = settleChange s (s.detach p) := by
  simp only [detach, Sheet.detach, on_bind, on_get]
  cases s.arrayAt? p with
  | none => rfl
  | some a =>
    simp only
    split
    · exact on_eraseArray a s
    · rfl


theorem on_cellsOf (h : a.isBounded = true) (s : Sheet) : (cellsOf a).on s = (.ok a.members, s) := by
  obtain ⟨ps, hps⟩ : ∃ ps, a.cells = .ok ps := by
    simp only [Area.isBounded, Reference.isBounded, Bool.and_eq_true, Option.isSome_iff_exists] at h
    obtain ⟨⟨⟨top, htop⟩, left, hleft⟩, ⟨bottom, hbottom⟩, right, hright⟩ := h
    exact ⟨_, by rw [Area.cells, htop, hleft, hbottom, hright]⟩
  simp [cellsOf, Area.members, hps]

/-- Putting a formula into the graph is not refused once the members of its array can be had. -/
theorem on_install {content : Vertex.Content} (h : ∀ s, (membersOf content).on s = (.ok content.members, s))
    (p : Position) (e : Expression) (s : Sheet) : (install p content e).on s = (.ok (), s.install p content e) := by
  have hmarks (js : List Slot) (s : Sheet) : (js.forM fun j => changeGraph (·.markFrom j)).on s =
      (.ok (), { s with graph := js.foldl Graph.markFrom s.graph }) := by
    rw [on_forM (g := fun s j => { s with graph := s.graph.markFrom j }) fun j s => on_changeGraph _ s]
    induction js generalizing s with
    | nil => rfl
    | cons j js ih => exact ih _
  simp only [install, on_bind, on_get, on_askGraph, on_changeGraph, h, hmarks]
  rfl

theorem on_setValue (p : Position) (v : Value) (s : Sheet) :
    (setValue p v).on s = settleChange s (s.setValue p v) := by
  simp only [setValue, Sheet.setValue, on_bind, on_detach]
  cases s.detach p <;> rfl

theorem on_setFormula (p : Position) (text : String) (s : Sheet) :
    (setFormula p text).on s = settleChange s (s.setFormula p text) := by
  simp only [setFormula, Sheet.setFormula, on_bind, on_parse]
  cases s.parse text with
  | error err => rfl
  | ok e =>
    simp only [Except.map, settle, on_detach]
    cases s.detach p with
    | error err => rfl
    | ok s' => exact on_install (fun _ => rfl) p e _

theorem on_clear (p : Position) (s : Sheet) : (clear p).on s = settleChange s (s.clear p) := by
  simp only [clear, Sheet.clear, on_bind, on_get]
  cases s.arrayAt? p with
  | none => exact on_erase p s
  | some a =>
    simp only
    split
    · exact on_eraseArray a s
    · rfl

theorem on_setInput (p : Position) (text : String) (s : Sheet) :
    (setInput p text).on s = settleChange s (s.setInput p text) := by
  simp only [setInput, Sheet.setInput]
  cases Text.trimChars text.toList with
  | nil => exact on_clear p s
  | cons c cs =>
    simp only
    split
    · exact on_setFormula p _ s
    · exact on_setValue p _ s

/-! ### Array formulas -/

/-- Looking at the cells of an area changes nothing; another array formula among them is a refusal. -/
theorem on_inspect (a : Area) (replaces : Bool) (ps : List Position) (s : Sheet) :
    (ps.foldlM (inspect a) replaces).on s =
      if (ps.filterMap s.arrayAt?).any (· != a) then (.error (.sheet (.arrayOverlap a)), s)
      else (.ok (replaces || !(ps.filterMap s.arrayAt?).isEmpty), s) := by
  induction ps generalizing replaces with
  | nil => simp
  | cons p ps ih =>
    rw [List.foldlM_cons, on_bind]
    cases hp : s.arrayAt? p with
    | none => simp [inspect, hp, ih]
    | some b =>
      by_cases hb : b = a
      · simp [inspect, hp, hb, ih]
      · simp [inspect, hp, hb]

theorem on_enlist (a : Area) (p : Position) (s : Sheet) : (enlist a p).on s = (.ok (), s.enlist a p) := by
  simp [enlist, Sheet.enlist]

theorem on_setArray (a : Area) (text : String) (s : Sheet) :
    (setArray a text).on s = settleChange s (s.setArray a text) := by
  cases hbounded : a.isBounded with
  | false =>
    simp only [setArray, Sheet.setArray, hbounded]
    rfl
  | true =>
    cases hhead : a.topLeft? with
    | none =>
      simp only [setArray, Sheet.setArray, hbounded, hhead]
      rfl
    | some head =>
      simp only [setArray, Sheet.setArray, hbounded, hhead, on_bind, on_parse]
      cases s.parse text with
      | error err => rfl
      | ok e =>
        -- nothing has been changed when the cells are looked at, and nothing is refused after that
        have hfill (s : Sheet) := on_forM (on_enlist a) a.members s
        have hmembers (s : Sheet) : (membersOf (.array e a)).on s = (.ok (Vertex.Content.members (.array e a)), s) :=
          on_cellsOf hbounded s
        have hinstall := on_install hmembers head e
        simp only [Except.map, settle, on_cellsOf hbounded, on_inspect]
        cases (a.members.filterMap s.arrayAt?).any (· != a) with
        | true => rfl
        | false =>
          cases (a.members.filterMap s.arrayAt?).isEmpty with
          | true =>
            simp only [Bool.not_true, Bool.or_self, Bool.false_eq_true, if_false, on_bind, hfill, on_changeStore,
              hinstall]
            rfl
          | false =>
            simp only [Bool.not_false, Bool.or_true, if_true, Bool.false_eq_true, if_false, on_bind,
              on_eraseArray, hfill, on_changeStore, hinstall]
            rfl

/-! ### Rows and columns -/

theorem on_move (x : Axis) (start : Nat) (store : Store → Store) (f : Nat → Nat) (s : Sheet) :
    (move x start store f).on s = (.ok (), s.moved x (store s.store) start f) := by
  simp [move, Sheet.moved]

theorem on_spareArrays (cuts : Area → Bool) (s : Sheet) : (spareArrays cuts).on s =
    match s.findArray? cuts with
    | some a => (.error (.sheet (.arrayOverlap a)), s)
    | none => (.ok (), s) := by
  simp only [spareArrays, on_bind, on_get]
  cases s.findArray? cuts <;> rfl

theorem on_spareCells (x : Axis) (start count : Nat) (s : Sheet) : (spareCells x start count).on s =
    if start < x.extent s.store && x.last < x.extent s.store - 1 + count then
      (.error (.sheet (.outOfBounds count)), s)
    else (.ok (), s) := by
  simp only [spareCells, on_bind, on_get]
  split <;> rfl

theorem on_insert (x : Axis) (start count : Nat) (s : Sheet) :
    (insert x start count).on s = settleChange s (s.insert x start count) := by
  simp only [insert, Sheet.insert]
  split
  · rfl
  · simp only [on_bind, on_spareArrays]
    cases s.findArray? (x.insertCuts start) with
    | some a => rfl
    | none =>
      simp only [on_spareCells]
      cases start < x.extent s.store && x.last < x.extent s.store - 1 + count with
      | true => rfl
      | false => simp only [Bool.false_eq_true, if_false, on_move, settleChange, settle, Except.map]

theorem on_delete (x : Axis) (start count : Nat) (s : Sheet) :
    (delete x start count).on s = settleChange s (s.delete x start count) := by
  simp only [delete, Sheet.delete]
  split
  · rfl
  · simp only [on_bind, on_spareArrays]
    cases s.findArray? (x.deleteCuts start count) with
    | some a => rfl
    | none => simp only [on_move, settleChange, settle, Except.map]

/-! ### Calculations and simulations -/

theorem on_evaluate (text : String) (p : Position) (s : Sheet) :
    (evaluate text p).on s = settle s (s.evaluate text p) := by
  simp only [evaluate, Sheet.evaluate, on_bind, on_parse]
  cases s.parse text <;> rfl

theorem on_record (iteration : Nat) (p : Position) (s : Sheet) :
    (record iteration p).on s = (.ok (), { s with model := s.model.record p iteration (s.read p) }) := by
  simp [record]

/-- Recording the values of cells changes no cell. -/
theorem on_records (iteration : Nat) (ps : List Position) (s : Sheet) : (ps.forM (record iteration)).on s =
    (.ok (), { s with model := ps.foldl (fun m p => m.record p iteration (s.read p)) s.model }) := by
  rw [on_forM (on_record iteration)]
  congr 1
  induction ps generalizing s with
  | nil => rfl
  | cons p ps ih => exact ih _

theorem iteration_records (m : Simulation.Model) (iteration : Nat) (read : Position → Value) (ps : List Position) :
    (ps.foldl (fun m p => m.record p iteration (read p)) m).iteration = m.iteration := by
  rw [Simulation.Model.records_eq]

theorem on_runTrial (s : Sheet) : runTrial.on s = settle s s.runTrial := by
  simp only [runTrial, Sheet.runTrial, on_bind, on_get]
  by_cases hphase : s.model.phase = .running
  · rw [if_neg (not_not_intro hphase), if_pos hphase]
    simp only [on_bind, on_modifyGet, on_get, on_records, on_changeModel, on_pure, settle, iteration_records]
  · rw [if_pos hphase, if_neg hphase]
    rfl

theorem on_endSimulation (s : Sheet) : endSimulation.on s = settle s s.endSimulation := by
  simp only [endSimulation, Sheet.endSimulation, on_bind, on_get]
  cases s.model.isActive <;> rfl

theorem on_loadSamples (data : List Float) (s : Sheet) :
    (loadSamples data).on s = settleChange s (s.loadSamples data) := by
  simp only [loadSamples, Sheet.loadSamples, on_bind, on_demand]
  cases Simulation.Samples.unpack data <;> rfl

end Command

/-! ### Operations -/

/-- What an operation makes of a sheet, or why it is refused. -/
def Operation.apply (s : Sheet) : Operation → Except SheetError (Reply × Sheet)
  | .setValue p v => (s.setValue p v).map (.done, ·)
  | .setFormula p text => (s.setFormula p text).map (.done, ·)
  | .setInput p text => (s.setInput p text).map (.done, ·)
  | .setArray a text => (s.setArray a text).map (.done, ·)
  | .clear p => (s.clear p).map (.done, ·)
  | .insert x start count => (s.insert x start count).map (.done, ·)
  | .delete x start count => (s.delete x start count).map (.done, ·)
  | .evaluate text p => (s.evaluate text p).map fun (v, s) => (.value v, s)
  | .runTrial => s.runTrial.map fun (t, s) => (.tally t, s)
  | .endSimulation => s.endSimulation.map fun (xs, s) => (.samples xs, s)
  | .loadSamples data => (s.loadSamples data).map (.done, ·)

namespace Command

theorem on_done {c : Command Unit} {result : Except SheetError Sheet} (h : c.on s = settleChange s result) :
    (c >>= fun _ => (pure .done : Command Reply)).on s = settle s (result.map (.done, ·)) := by
  rw [on_bind, h]
  cases result <;> rfl

theorem on_reply {α : Type} {c : Command α} {f : α → Reply} {result : Except SheetError (α × Sheet)}
    (h : c.on s = settle s result) :
    (f <$> c).on s = settle s (result.map fun (x, s) => (f x, s)) := by
  rw [on_map, h]
  cases result <;> rfl

/-- Every operation is done as a whole or not at all. -/
theorem on_perform (op : Operation) (s : Sheet) : op.perform.on s = settle s (op.apply s) := by
  cases op with
  | setValue p v => exact on_done (on_setValue p v s)
  | setFormula p text => exact on_done (on_setFormula p text s)
  | setInput p text => exact on_done (on_setInput p text s)
  | setArray a text => exact on_done (on_setArray a text s)
  | clear p => exact on_done (on_clear p s)
  | insert x start count => exact on_done (on_insert x start count s)
  | delete x start count => exact on_done (on_delete x start count s)
  | evaluate text p => exact on_reply (on_evaluate text p s)
  | runTrial => exact on_reply (on_runTrial s)
  | endSimulation => exact on_reply (on_endSimulation s)
  | loadSamples data => exact on_done (on_loadSamples data s)

end Command

/-- An operation that is refused leaves the sheet as it was: its cells, its graph with all marks, its named areas and
its simulation. -/
theorem Operation.unchanged_of_refused {op : Operation} {s s' : Sheet} {e : Refusal}
    (h : op.perform.on s = (.error e, s')) : s' = s := by
  rw [Command.on_perform] at h
  cases hresult : op.apply s with
  | ok result =>
    rw [hresult] at h
    cases h
  | error err =>
    rw [hresult] at h
    exact (Prod.mk.inj h).2.symm

/-- A sheet with an array formula in `A1:A2`. -/
def Sheet.withArray (library : Library) : Sheet :=
  ((Sheet.empty {} library default).enlist (.ofPositions ⟨0, 0⟩ ⟨1, 0⟩) ⟨0, 0⟩).enlist
    (.ofPositions ⟨0, 0⟩ ⟨1, 0⟩) ⟨1, 0⟩

/-- A value for `A2` is refused where `A1:A2` has an array formula. -/
theorem Operation.unchanged_member : ∃ e,
    (Operation.setValue ⟨1, 0⟩ (.boolean true)).perform.on (Sheet.withArray .standard) =
      (.error e, Sheet.withArray .standard) := by
  have hrefused : ((Operation.setValue ⟨1, 0⟩ (.boolean true)).perform.on (Sheet.withArray .standard)).1 =
      .error (.sheet (.arrayMember ⟨1, 0⟩)) := by
    generalize Library.standard = library
    rfl
  exact ⟨_, Prod.ext hrefused (Operation.unchanged_of_refused (Prod.ext hrefused rfl))⟩

end Spreadsheet
