import Spreadsheet.Proofs.Sheet.Confluence
import Spreadsheet.Proofs.Sheet.Sampling

/-!
Simulations that are refused. A sheet with cycles refuses a simulation only after the preparing pass. The samples that
were recorded before are gone then, and what the pass has calculated stays in the cells, even if it has been cut short.
After the next pass this makes no difference to cells that depend on plain formulas only.
-/

namespace Spreadsheet.Sheet

open Spreadsheet.Graph Environment

variable {s s' : Sheet} {n : Nat} {q : Position} {e : SheetError} {uncut : Prop}

/-! ### What is left -/

/-- A simulation is refused if the sheet has cycles after the preparing pass. -/
theorem startSimulation_error (hstart : s.startSimulation n = (.error e, s')) :
    s'.graph.cycleMembers.length ≠ 0 ∧ e = .circularReference s'.graph.cycleMembers.length ∧
      s' = { (s.preparing n).recalculate.2 with
        model := { (s.preparing n).recalculate.2.model with phase := .idle } } := by
  unfold startSimulation at hstart
  simp only at hstart
  split at hstart
  · cases hstart
  · rename_i hcycles
    cases hstart
    exact ⟨hcycles, rfl, rfl⟩

theorem Paused.kept (h : s.Paused) : s.Kept False := ⟨h.toFaithful, h.firm, False.elim⟩

theorem Paused.preparing (h : s.Paused) (n : Nat) : (s.preparing n).Paused :=
  (h.markEach _).elapse s.clock (s.preparing n).model

/-- Two passes show the same if nothing is edited between them, even if the first one is cut short and other random
numbers are drawn. -/
theorem Paused.read_recalculate (h : s.Paused) (h' : s'.Paused) (henv : s'.toEnvironment = s.toEnvironment)
    (halike : s.store.Alike s'.store) (hcut : s.recalculate.1.truncated = false)
    (hcut' : s'.recalculate.1.truncated = false) (hplain : s.PlainAbove q) (hq : ¬s.Exposed s.contentAt q) :
    s'.recalculate.2.read q = s.recalculate.2.read q := by
  have hrested : s.recalculate.2.Rested := by
    obtain ⟨hcoherent, hclean⟩ := h.coherent_recalculate hcut
    exact ⟨hcoherent, hclean⟩
  have hrested' : s'.recalculate.2.Rested := by
    obtain ⟨hcoherent, hclean⟩ := h'.coherent_recalculate hcut'
    exact ⟨hcoherent, hclean⟩
  have hpass : s.store.Alike s.recalculate.2.store := h.kept.alike_recalculate
  have hcontent : s.recalculate.2.contentAt = s.contentAt := funext fun _ => contentAt_of_alike rfl hpass
  refine hrested.read_eq hrested' henv (hpass.symm.trans (halike.trans h'.kept.alike_recalculate))
    (hplain.of_alike rfl hpass) ?_
  rw [hcontent]
  exact hq

/-- The expression `C1`. -/
def ownCell : Expression := .cell ⟨{ row := some 0, column := some 2 }, "C1", 0⟩

/-- The sheet after the formula `C1` has been entered into `C1`. -/
def encircle (s : Sheet) : Sheet :=
  { s with store := s.store.setFormula ⟨0, 2⟩ "C1" }.install ⟨0, 2⟩ (.formula ownCell) ownCell

/-- A sheet with a truth value in `A2`, the formula `A2` in `B1` and the formula `C1` in `C1`. -/
def circling (library : Library) : Sheet := (((empty {} library default).feed ⟨1, 0⟩).reenter).encircle

theorem parse_ownCell : (Formula.parse (.ofDecimal .period) "C1").toExcept = .ok ownCell := by
  have hmention : (Formula.parse (.ofDecimal .period) "C1").toExcept.toOption.bind mention? =
      some ⟨{ row := some 0, column := some 2 }, "C1", 0⟩ := by
    decide +kernel
  exact eq_ok_of_bind hmention fun _ => eq_cell_of_mention?

theorem plain_ownCell (env : Environment) : env.Plain ownCell := by
  have hcall (position : Nat) (name : String) (args : List Expression) :
      Expression.call position name args ∉ ownCell.units := by
    simp [Expression.units, ownCell, Expression.walk]
  refine ⟨fun position name args hmem => absurd hmem (hcall position name args),
    fun position name args hmem => absurd hmem (hcall position name args), fun a ha => ?_⟩
  have hnone : (env.dependencies ownCell).areas = [] := rfl
  rw [hnone] at ha
  cases ha

/-- Entering the formula. -/
theorem run_encircle (hdecimal : s.settings.decimal = .period) (houtside : s.arrayAt? ⟨0, 2⟩ = none) :
    (Edit.formula ⟨0, 2⟩ "C1").run s = s.encircle := by
  refine run_formula houtside ?_
  rw [Environment.parse, Environment.locale, hdecimal, parse_ownCell]

section

variable (library : Library)

theorem arrayAt?_feed : ((empty {} library default).feed ⟨1, 0⟩).arrayAt? ⟨0, 1⟩ = none := by rfl

theorem arrayAt?_reenter : (((empty {} library default).feed ⟨1, 0⟩).reenter).arrayAt? ⟨0, 2⟩ = none := by rfl

theorem cells_circling : (circling library).store.toList.map (fun pc => (pc.2.formula?, pc.2.area)) =
    [(some "A2", none), (some "C1", none), (none, none)] := by rfl

theorem library_circling : (circling library).library = library := by rfl

theorem passes_circling : ((circling library).startSimulation 1).1.toOption.isSome = false ∧
    (circling library).recalculate.1.truncated = false ∧
    ((circling library).startSimulation 1).2.recalculate.1.truncated = false ∧
    (circling library).recalculate.2.read ⟨0, 1⟩ = .boolean true := by
  cbv

end

/-- A simulation is refused if it does not start. -/
theorem exists_refused (h : (s.startSimulation n).1.toOption.isSome = false) :
    ∃ e s', s.startSimulation n = (.error e, s') ∧ s' = (s.startSimulation n).2 := by
  generalize s.startSimulation n = answer at h ⊢
  obtain ⟨result, s'⟩ := answer
  cases result with
  | error e => exact ⟨e, s', rfl, rfl⟩
  | ok tally => cases h

theorem attained_circling : (circling .standard).Attained True := by
  have hfeed : ((empty {} .standard default).feed ⟨1, 0⟩).Attained True := by
    have hempty : (empty {} .standard default).Attained True := .empty {} .standard default fun _ => rfl
    have hrun := hempty.run (.value ⟨1, 0⟩ (.boolean true))
    rwa [run_value (arrayAt?_empty ..)] at hrun
  have hreenter : (((empty {} .standard default).feed ⟨1, 0⟩).reenter).Attained True := by
    have hrun := hfeed.run (.formula ⟨0, 1⟩ "A2")
    rwa [run_reenter rfl (arrayAt?_feed _)] at hrun
  have hrun := hreenter.run (.formula ⟨0, 2⟩ "C1")
  rwa [run_encircle rfl (arrayAt?_reenter _)] at hrun

theorem sparing_circling : (circling .standard).library.Sparing := by
  rw [library_circling]
  exact Library.sparing_standard

theorem mem_cells_circling {p : Position} {c : Cell} (hc : (circling .standard).store.cell? p = some c) :
    (c.formula?, c.area) ∈ [(some "A2", none), (some "C1", none), (none, (none : Option Area))] := by
  rw [← cells_circling .standard]
  exact List.mem_map_of_mem (f := fun pc : Position × Cell => (pc.2.formula?, pc.2.area)) (Store.mem_toList.2 hc)

theorem plainFormulas_circling : (circling .standard).PlainFormulas := by
  intro p e he
  obtain ⟨c, text, hc, -, htext, hparse⟩ := cell_of_expression he
  have hmem := mem_cells_circling hc
  rw [htext] at hmem
  obtain ⟨rfl, -⟩ | ⟨rfl, -⟩ : "A2" = text ∧ c.area = none ∨ "C1" = text ∧ c.area = none := by
    simpa [eq_comm] using hmem
  · rw [parse_eq_below rfl] at hparse
    cases hparse
    exact plain_below _
  · have hlocale : (circling .standard).locale = .ofDecimal .period := rfl
    rw [Environment.parse, hlocale, parse_ownCell] at hparse
    cases hparse
    exact plain_ownCell _

theorem arrayAt?_circling (p : Position) : (circling .standard).arrayAt? p = none := by
  cases harray : (circling .standard).arrayAt? p with
  | none => rfl
  | some a =>
    obtain ⟨c, hc, ha⟩ := arrayAt?_eq_some_iff.1 harray
    have hmem := mem_cells_circling hc
    rw [ha] at hmem
    simp at hmem

section

variable (library : Library)

/-- A sheet in which samples are loaded for `A1`. -/
theorem exists_loaded : ∃ m s, (circling library).loadSamples [0, 0, 1, 4] = .ok s ∧
    s = { circling library with
      model := (circling library).model.setSamples m
      graph := (circling library).graph.markFormulas } ∧ m[(⟨0, 0⟩ : Position)]? = some #[4] := by
  have hblock : Simulation.Block.Spells [0, 0, 1, 4] ⟨⟨0, 0⟩, [4]⟩ :=
    ⟨0, 0, 1, rfl, ⟨by decide, by decide⟩, ⟨by decide, by decide⟩, by decide, by decide⟩
  have hspelled : Simulation.Spelled [0, 0, 1, 4] [⟨⟨0, 0⟩, [4]⟩] := .cons hblock .nil
  obtain ⟨m, hm, hread⟩ := Simulation.unpack_of_spelled hspelled
  exact ⟨m, _, by rw [loadSamples, hm], rfl, hread ⟨0, 0⟩⟩

theorem start_loaded (m : Simulation.Samples) : (({ circling library with
      model := (circling library).model.setSamples m
      graph := (circling library).graph.markFormulas } : Sheet).startSimulation 1).1.toOption.isSome = false := by
  cbv

end

theorem passes_watching : ((watching samplers).encircle.startSimulation 1).1.toOption.isSome = false ∧
    (watching samplers).encircle.recalculate.1.truncated = false ∧
    ((watching samplers).encircle.startSimulation 1).2.recalculate.1.truncated = false ∧
    (watching samplers).encircle.recalculate.2.read ⟨0, 1⟩ = .undefined ∧
    ((watching samplers).encircle.startSimulation 1).2.recalculate.2.read ⟨0, 1⟩ = .array [[.number 7]] := by
  cbv

theorem arrayAt?_watching : (watching samplers).arrayAt? ⟨0, 2⟩ = none := by rfl

theorem attained_encircle_watching : (watching samplers).encircle.Attained False := by
  have hrun := (attained_watching samplers).run (.formula ⟨0, 2⟩ "C1")
  rwa [run_encircle rfl arrayAt?_watching] at hrun

end Spreadsheet.Sheet
