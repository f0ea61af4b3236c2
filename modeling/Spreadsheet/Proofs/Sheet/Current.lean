import Mathlib
import Spreadsheet.Proofs.Evaluation.Steady
import Spreadsheet.Proofs.Sheet.Recalculate
import Spreadsheet.Proofs.Sheet.Structure

/-!
Sheets after a pass. However a sheet has come about, after a pass that has not been cut short each formula
cell shows the error of a cycle, if its vertex is on one or has had its dependencies replaced too often, and
else what its formula comes to with the cells as they are. There are two exceptions: cells that are on a
cycle only since the others on it have failed, and cells that read a member of an array that is on a cycle.
-/

namespace Spreadsheet

/-- All areas that an expression refers to are bounded: those that it is written with, and those that its
evaluation reports. -/
structure Expression.Bounded (s : Scope) (model : Simulation.Model) (e : Expression) : Prop where
  written : ∀ a ∈ (Dependencies.ofExpression s.names s.sheet e).areas, a.isBounded = true
  reported : ∀ a ∈ (e.calculate s model).areas, a.isBounded = true

namespace Sheet

open Spreadsheet.Graph

variable {s s' : Sheet} {p : Position} {i : Slot} {v : Vertex} {e : Expression} {f : Profile}

/-- The cells of a vertex show what its formula comes to with the cells as they are. -/
def Holds (s : Sheet) (p : Position) (content : Vertex.Content) (e : Expression) : Prop :=
  e.Steady s.library → e.Bounded (s.scope s.store p) s.model →
    s.store.Shows p content (e.calculate (s.scope s.store p) s.model).value

/-- An evaluation with cells that agree with the present ones comes to the same as one with these. -/
theorem Consistent.holds (h : s.Consistent) (hf : s.graph.profileAt? p = some f) (he : f.content.expression? = some e)
    (hderived : s.Derived s.store p f) : s.Holds p f.content e := by
  intro hsteady hbounded
  obtain ⟨e', σ, t, m, he', hshows, hreported, hagree⟩ := hderived
  rw [he] at he'
  cases he'
  have hinformed := h.informed p f e hf he
  have hvalue := Expression.value_congr ((s.timed t).scope σ p) s.store s.clock m s.model e h.library hsteady h.names
    (fun x hx => hagree x (hinformed.mentions hx)) hbounded.written
    (fun a ha x hx => hagree x (hreported a ha x hx)) hbounded.reported
  have hscope : s.scope s.store p = { (s.timed t).scope σ p with store := s.store, clock := s.clock } := rfl
  rw [hscope, hvalue]
  exact hshows

/-! ### Sheets that can be reached -/

/-- The sheets that edits and passes make out of empty ones. No pass has been cut short. -/
inductive Reached : Sheet → Prop
  | empty (settings : Settings) (clock : Clock) : Reached (.empty settings .standard clock)
  | setValue {s s' : Sheet} {p : Position} {v : Value} (h : Reached s) (hs : s.setValue p v = .ok s') : Reached s'
  | setFormula {s s' : Sheet} {p : Position} {text : String} (h : Reached s) (hs : s.setFormula p text = .ok s') :
    Reached s'
  | setInput {s s' : Sheet} {p : Position} {text : String} (h : Reached s) (hs : s.setInput p text = .ok s') :
    Reached s'
  | setArray {s s' : Sheet} {a b : Reference} {text : String} (h : Reached s)
    (hs : s.setArray (.between a b) text = .ok s') : Reached s'
  | clear {s s' : Sheet} {p : Position} (h : Reached s) (hs : s.clear p = .ok s') : Reached s'
  | defineName {s : Sheet} (name : String) (a b : Reference) (h : Reached s) :
    Reached (s.defineName name (.between a b))
  | removeName {s s' : Sheet} {name : String} (h : Reached s) (hs : s.removeName? name = some s') : Reached s'
  | insert {s s' : Sheet} {x : Axis} {start count : Nat} (h : Reached s) (hs : s.insert x start count = .ok s') :
    Reached s'
  | delete {s s' : Sheet} {x : Axis} {start count : Nat} (h : Reached s) (hs : s.delete x start count = .ok s') :
    Reached s'
  | recalculate {s : Sheet} (h : Reached s) (hcut : s.recalculate.1.truncated = false) : Reached s.recalculate.2

theorem rebuild_empty (settings : Settings) (library : Library) (clock : Clock) :
    (Sheet.empty settings library clock).rebuild = .empty settings library clock := by
  have hnil : (Sheet.empty settings library clock).store.toList = [] := rfl
  rw [rebuild, hnil]
  rfl

theorem kept_empty {uncut : Prop} (settings : Settings) {library : Library} (clock : Clock)
    (hlibrary : uncut → library = .standard) : (Sheet.empty settings library clock).Kept uncut := by
  have hcell (q : Position) (c : Cell) (hc : (Sheet.empty settings library clock).store.cell? q = some c) : False := by
    simp [Sheet.empty, Store.cell?] at hc
  rw [← rebuild_empty]
  refine kept_rebuild ⟨?_, ?_, ?_, ?_⟩ ?_ fun hu => ⟨hlibrary hu, ?_⟩
  · exact fun q c a hc => (hcell q c hc).elim
  · exact fun q c a _ hc => (hcell q c hc).elim
  · exact fun q c a hc => (hcell q c hc).elim
  · exact fun q c a hc => (hcell q c hc).elim
  · exact fun q c _ hc => (hcell q c hc).elim
  · intro name a hname
    simp [Sheet.empty] at hname

theorem Reached.coherent (h : s.Reached) : s.Coherent := by
  have hkept : s.Kept True := by
    induction h with
    | empty settings clock => exact kept_empty settings clock fun _ => rfl
    | setValue _ hs ih => exact ih.setValue hs
    | setFormula _ hs ih => exact ih.setFormula hs
    | setInput _ hs ih => exact ih.setInput hs
    | setArray _ hs ih => exact ih.setArray (Area.ordered_between _ _) hs
    | clear _ hs ih => exact ih.clear hs
    | defineName name a b _ ih => exact ih.defineName name fun _ => Area.ordered_between a b
    | removeName _ hs ih => exact ih.removeName? hs
    | insert _ hs ih => exact ih.insert hs
    | delete _ hs ih => exact ih.delete hs
    | recalculate _ hcut ih => exact ih.recalculate fun _ => hcut
  exact hkept.coherent trivial

/-! ### Formula cells -/

/-- What the cells of a formula show after a pass. -/
structure Current (s : Sheet) (p : Position) (i : Slot) (v : Vertex) (e : Expression) : Prop where
  /-- The dependencies have been replaced too often. -/
  overrun : s.settings.limits.rebuilds < v.rebuilds → s.store.Shows p v.content Pass.failure
  /-- Without the error, the cycle has come about in the middle of a pass, through vertices that had failed
  on a cycle that leaves the cell out. -/
  looped : s.graph.isOnCycle i = true → v.rebuilds ≤ s.settings.limits.rebuilds →
    s.store.Shows p v.content Pass.failure ∨
      s.graph.Bypassed p ∧ ¬s.WrittenCycle s.graph.contentAt p ∧
        (¬s.graph.ReadsCyclicValue p → s.Holds p v.content e)
  /-- A member of an array that is on a cycle settles before the first one has failed and its cells show the
  error; what reads it may have been calculated in between. -/
  calculated : s.graph.isOnCycle i = false → v.rebuilds ≤ s.settings.limits.rebuilds →
    ¬s.graph.ReadsCyclicValue p → s.Holds p v.content e

theorem Coherent.current (h : s.Coherent) (hclean : ¬s.graph.DirtyAt p) (hi : s.graph.slot? p = some i)
    (hv : s.graph.vertex? i = some v) (he : v.content.expression? = some e) : s.Current p i v e := by
  have hf : s.graph.profileAt? p = some v.profile := by
    rw [profileAt?_of_slot? hi, profile?_of_vertex? hv]
  have hdirty : v.profile.dirty = false := by
    by_contra hd
    exact hclean ⟨v.profile, hf, by simpa using hd⟩
  have hcycle : s.graph.isOnCycle i = true ↔ s.graph.CyclicAt p :=
    isOnCycle_iff.trans (h.orderly.onCycle_iff hi)
  have hsettled := h.settled p v.profile hf hdirty (Option.ne_none_iff_exists'.2 ⟨e, he⟩)
  cases hsettled with
  | overrun hlimit _ hshows =>
    exact ⟨fun _ => hshows, fun _ _ => .inl hshows, fun _ hle => absurd hle (Nat.not_le.2 hlimit)⟩
  | looped hc hshows =>
    refine ⟨fun _ => hshows, fun _ _ => .inl hshows, fun hno _ => ?_⟩
    rw [hcycle.2 hc] at hno
    cases hno
  | calculated hlimit hbypassed hwritten hvalue =>
    have hholds : ¬s.graph.ReadsCyclicValue p → s.Holds p v.content e := fun hreads =>
      h.toConsistent.holds hf he (hvalue.resolve_left hreads)
    refine ⟨fun hlt => absurd hlt (Nat.not_lt.2 hlimit), fun hc _ => ?_, fun _ _ => hholds⟩
    exact .inr ⟨hbypassed (hcycle.1 hc), hwritten, hholds⟩

/-- After a pass over a sheet that has been reached by edits and passes, all formula cells are current. -/
theorem Reached.current_recalculate (h : s.Reached) (hcut : s.recalculate.1.truncated = false) {c : Cell}
    {text : String} (hc : s.recalculate.2.store.cell? p = some c) (hformula : c.formula? = some text) :
    ∃ i v e, s.recalculate.2.graph.slot? p = some i ∧ s.recalculate.2.graph.vertex? i = some v ∧
      s.recalculate.2.parse text = .ok e ∧ v.content = s.recalculate.2.content p c ∧
      v.content.expression? = some e ∧ s.recalculate.2.Current p i v e := by
  obtain ⟨hcoherent, hclean⟩ := h.coherent.recalculate hcut
  obtain ⟨e, hparse⟩ := hcoherent.readable.formula? hc hformula
  have hcontent : (s.recalculate.2.content p c).expression? = some e := by
    rw [content_of_formula hformula hparse]
    cases c.area.filter (·.topLeft? = some p) <;> rfl
  have htied : s.recalculate.2.graph.contentAt p = s.recalculate.2.content p c :=
    (hcoherent.tied p).trans (contentAt_of_cell? hc)
  obtain ⟨f, hf⟩ : ∃ f, s.recalculate.2.graph.profileAt? p = some f := by
    cases hf : s.recalculate.2.graph.profileAt? p with
    | some f => exact ⟨f, rfl⟩
    | none =>
      rw [← htied, Graph.contentAt, hf] at hcontent
      cases hcontent
  obtain ⟨i, v, hi, hv, -, rfl⟩ := hcoherent.orderly.exists_vertex hf
  have hv_content : v.content = s.recalculate.2.content p c := (contentAt_of_profileAt? hf).symm.trans htied
  have he : v.content.expression? = some e := hv_content ▸ hcontent
  exact ⟨i, v, e, hi, hv, hparse, hv_content, he, hcoherent.current (hclean p) hi hv he⟩

/-! ### A cell that reads a member of an array -/

/-- The expression `A2`. -/
def below : Expression := .cell ⟨{ row := some 1, column := some 0 }, "A2", 0⟩

/-- The reference to a cell that an expression is. -/
def mention? : Expression → Option Mention
  | .cell m => some m
  | _ => none

/-- The cells `A1` and `A2`. -/
def pair : Area := .between { row := some 0, column := some 0 } { row := some 1, column := some 0 }

/-- A sheet with the formula `A2` in `B1`. -/
def reading (library : Library) : Sheet :=
  { Sheet.empty {} library default with
    store := Store.setFormula {} ⟨0, 1⟩ "A2"
    graph := Graph.install {} ⟨0, 1⟩ (.formula below) (.ofExpression ∅ "Sheet1" below) }

/-- The same sheet when that formula has been calculated and a value has been entered into `A2`. -/
def fed (library : Library) : Sheet :=
  { (reading library).recalculate.2 with
    store := (reading library).recalculate.2.store.setValue ⟨1, 0⟩ (.boolean true)
    graph := ((reading library).recalculate.2.graph.demote ⟨1, 0⟩).setDirty ⟨1, 0⟩ }

/-- When the value has been entered, the next calculation shows it in `B1` too. -/
example : ((fed .empty).recalculate.2.read ⟨0, 1⟩ == .boolean true) = true := by cbv

/-- The same sheet when the formula `A2` has been entered for both `A1` and `A2`. -/
def looping (library : Library) : Sheet :=
  let s := [⟨0, 0⟩, ⟨1, 0⟩].foldl (fun s p => s.enlist pair p) (fed library)
  { s with store := s.store.setFormula ⟨0, 0⟩ "A2" }.install ⟨0, 0⟩ (.array below pair) below

section

variable (library : Library)

theorem eq_cell_of_mention? {m : Mention} (h : mention? e = some m) : e = .cell m := by
  cases e <;> simp_all [mention?]

/-- Reading has given an expression if its parts are those of the expression. -/
theorem eq_ok_of_bind {α ε : Type} {x : Except ε Expression} {parts : Expression → Option α} {a : α}
    (h : x.toOption.bind parts = some a) (hparts : ∀ e', parts e' = some a → e' = e) : x = .ok e := by
  obtain ⟨e', he, ha⟩ := Option.bind_eq_some_iff.1 h
  cases x with
  | error error => cases he
  | ok e'' =>
    cases he
    rw [hparts _ ha]

theorem parse_below : (Formula.parse (.ofDecimal .period) "A2").toExcept = .ok below := by
  have hmention : (Formula.parse (.ofDecimal .period) "A2").toExcept.toOption.bind mention? =
      some ⟨{ row := some 1, column := some 0 }, "A2", 0⟩ := by
    decide +kernel
  exact eq_ok_of_bind hmention fun _ => eq_cell_of_mention?

theorem setFormula_reading : (Sheet.empty {} library default).setFormula ⟨0, 1⟩ "A2" = .ok (reading library) := by
  simp only [setFormula, Environment.parse, Environment.locale, Sheet.empty, parse_below]
  rfl

theorem truncated_reading : (reading library).recalculate.1.truncated = false := by
  cbv

theorem setValue_fed : (reading library).recalculate.2.setValue ⟨1, 0⟩ (.boolean true) = .ok (fed library) := by
  have hnone : (reading library).recalculate.2.arrayAt? ⟨1, 0⟩ = none := by cbv
  simp only [setValue, detach, hnone]
  rfl

theorem setArray_looping : (fed library).setArray pair "A2" = .ok (looping library) := by
  have hbounded : pair.isBounded = true := rfl
  have htop : pair.topLeft? = some ⟨0, 0⟩ := rfl
  have hmembers : pair.members = [⟨0, 0⟩, ⟨1, 0⟩] := rfl
  have hfirst : (fed library).arrayAt? ⟨0, 0⟩ = none := by cbv
  have hlast : (fed library).arrayAt? ⟨1, 0⟩ = none := by cbv
  have hparse : (fed library).parse "A2" = .ok below := by
    have hlocale : (fed library).locale = .ofDecimal .period := rfl
    simp only [Environment.parse, hlocale, parse_below]
  unfold setArray
  simp only [hbounded, htop, hmembers, hparse, hfirst, hlast, List.filterMap_cons, List.filterMap_nil]
  rfl

theorem reached_fed : (fed .standard).Reached :=
  .setValue (.recalculate (.setFormula (.empty {} default) (setFormula_reading _)) (truncated_reading _))
    (setValue_fed _)

theorem pass_fed : (fed library).recalculate.1.truncated = false ∧
    (((fed library).recalculate.2.store.cell? ⟨0, 1⟩).bind Cell.formula?) = some "A2" := by
  cbv

end

/-- The cell that reads `A2` is current when a value has been entered there. -/
theorem current_recalculate_fed :
    (fed .standard).Reached ∧ (fed .standard).recalculate.1.truncated = false ∧
      ∃ c, (fed .standard).recalculate.2.store.cell? ⟨0, 1⟩ = some c ∧ c.formula? = some "A2" ∧
        ∃ i v e, (fed .standard).recalculate.2.graph.slot? ⟨0, 1⟩ = some i ∧
          (fed .standard).recalculate.2.graph.vertex? i = some v ∧
          (fed .standard).recalculate.2.parse "A2" = .ok e ∧
          v.content = (fed .standard).recalculate.2.content ⟨0, 1⟩ c ∧ v.content.expression? = some e ∧
          (fed .standard).recalculate.2.Current ⟨0, 1⟩ i v e := by
  obtain ⟨hcut, hcell⟩ := pass_fed .standard
  obtain ⟨c, hc, hformula⟩ := Option.bind_eq_some_iff.1 hcell
  exact ⟨reached_fed, hcut, c, hc, hformula, reached_fed.current_recalculate hcut hc hformula⟩

theorem pass_looping (library : Library) : (looping library).recalculate.1.truncated = false ∧
    (looping library).recalculate.2.graph.slot? ⟨0, 1⟩ = some 0 ∧
    (looping library).recalculate.2.graph.isOnCycle 0 = false ∧
    (looping library).recalculate.2.read ⟨0, 1⟩ = .undefined ∧
    (below.calculate ((looping library).recalculate.2.scope (looping library).recalculate.2.store ⟨0, 1⟩)
      (looping library).recalculate.2.model).value = Pass.failure := by
  cbv

/-- The exception of the cells that read a member of an array is real: when the array has been entered, `B1`
still shows what it did before, although `A2` is on a cycle and shows the error. -/
theorem not_current_looping :
    ∃ s : Sheet, s.Reached ∧ s.recalculate.1.truncated = false ∧
      s.recalculate.2.graph.slot? ⟨0, 1⟩ = some 0 ∧ s.recalculate.2.graph.isOnCycle 0 = false ∧
      s.recalculate.2.read ⟨0, 1⟩ = .undefined ∧
      (below.calculate (s.recalculate.2.scope s.recalculate.2.store ⟨0, 1⟩) s.recalculate.2.model).value =
        Pass.failure :=
  ⟨looping .standard, .setArray reached_fed (setArray_looping _), pass_looping _⟩

end Sheet

end Spreadsheet
