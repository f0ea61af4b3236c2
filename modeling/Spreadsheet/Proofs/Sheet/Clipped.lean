import Spreadsheet.Proofs.Sheet.Recording

/-!
Whole rows and columns. A reference to whole rows or columns is cut down to the extent of the sheet when it is
calculated. The extent can grow later without the formula being calculated again, so what its cells show is what the
formula comes to with the present cells and with the extent that the sheet had when it was calculated last.
-/

namespace Spreadsheet.Sheet

open Spreadsheet.Graph

variable {s : Sheet} {p : Position} {i : Slot} {c v : Vertex} {e : Expression} {text : String} {σ floor : Store}
  {t : Clock} {m : Simulation.Model} {uncut : Prop}

/-- The sheet as if it had the given numbers of rows and columns. -/
def clipped (s : Sheet) (rows columns : Nat) : Sheet := { s with store := { s.store with rows, columns } }

@[simp] theorem clipped_self (s : Sheet) : s.clipped s.store.rows s.store.columns = s := rfl

theorem evaluate_of_parse (hparse : s.parse text = .ok e) (p : Position) :
    s.evaluate text p = .ok ((e.calculate (s.scope s.store p) s.model).value,
      { s with model := (e.calculate (s.scope s.store p) s.model).model }) := by
  simp only [evaluate, hparse]
  rfl

/-- An evaluation with the cells as they are and with the extent that the sheet had when a formula was calculated last
comes to the same as the last calculation. -/
theorem Calculation.clipped (h : Calculation uncut floor s c e σ t m) (hu : uncut) (hs : s.Consistent)
    (hc : s.graph.gist? i = some c) (he : c.content.expression? = some e) (hacyclic : ¬s.graph.CyclicAt c.position)
    (hreads : ¬s.graph.ReadsCyclicValue c.position) (hsteady : e.Steady s.library) :
    s.store.Shows c.position c.content
        (e.calculate (s.scope (s.clipped σ.rows σ.columns).store c.position) s.model).value ∧
      (e.calculate (s.scope (s.clipped σ.rows σ.columns).store c.position) s.model).areas =
        (e.calculate ((s.timed t).scope σ c.position) m).areas := by
  obtain ⟨hshows, hagree⟩ := ((h.value hu).resolve_left hacyclic).resolve_left hreads
  have hinformed := hs.informed _ _ e (hs.wellFormed.profileAt?_of_gist? hc) he
  have hsame (x : Position) (hx : c.dependencies.Mentions x) :
      σ.AgreeAt (s.clipped σ.rows σ.columns).store x :=
    (hagree x hx).trans ⟨rfl, rfl⟩
  obtain ⟨hvalue, hareas⟩ := Expression.steady_congr ((s.timed t).scope σ c.position) (s.clipped σ.rows σ.columns).store
    s.clock m s.model e hs.library hsteady hs.names (fun x hx => hsame x (hinformed.mentions hx))
    (fun _ _ => .inr ⟨rfl, rfl⟩) fun a ha _ =>
      ⟨fun x hx => hsame x (Dependencies.mentions_of_covers (h.covered a ha) hx), .inr ⟨rfl, rfl⟩⟩
  have hscope : s.scope (s.clipped σ.rows σ.columns).store c.position =
      { (s.timed t).scope σ c.position with store := (s.clipped σ.rows σ.columns).store, clock := s.clock } := rfl
  rw [hscope, hvalue, hareas]
  exact ⟨hshows, rfl⟩

/-- What a formula that is on no cycle and has not failed came to when it was last calculated. -/
theorem RecordingAt.calculation (h : RecordingAt uncut floor s i) (hu : uncut) (hwell : s.graph.WellFormed)
    (hclean : ¬s.graph.isDirty i = true) (hv : s.graph.vertex? i = some v) (he : v.content.expression? = some e)
    (hacyclic : s.graph.isOnCycle i = false) (hlimit : v.rebuilds ≤ s.settings.limits.rebuilds) :
    ¬s.graph.CyclicAt v.position ∧ ∃ σ t m, Calculation uncut floor s v.gist e σ t m := by
  rw [isDirty_iff_of_vertex? hv, Bool.not_eq_true] at hclean
  have hcyclic : ¬s.graph.CyclicAt v.position := fun hc => by
    rw [isOnCycle_iff.2 ((hwell.onCycle_iff (hwell.slot?_position hv)).2 hc)] at hacyclic
    cases hacyclic
  refine ⟨hcyclic, ((h.recorded v.gist e (gist?_of_vertex? hv) he hclean).resolve_left fun hfailed => ?_).1⟩
  exact (hfailed.cause hu).elim (Nat.not_lt.2 hlimit) hcyclic

/-- The cells of a formula show what it comes to when it is evaluated on the sheet, as if the sheet had the given
numbers of rows and columns. -/
def ShowsEvaluated (s : Sheet) (p : Position) (content : Vertex.Content) (text : String) (rows columns : Nat) : Prop :=
  ∃ x s', (s.clipped rows columns).evaluate text p = .ok (x, s') ∧ s.store.Shows p content x

/-- The vertex of a cell calculates the formula that stands there. -/
theorem Faithful.expression_vertex (h : s.Faithful) {d : Cell} (hd : s.store.cell? p = some d)
    (hformula : d.formula? = some text) (hi : s.graph.slot? p = some i) (hv : s.graph.vertex? i = some v) :
    v.position = p ∧ ∃ e, s.parse text = .ok e ∧ v.content.expression? = some e := by
  obtain ⟨w, hw, hpos⟩ := h.wellFormed.vertex_of_slot? hi
  rw [hv, Option.some.injEq] at hw
  subst hw
  obtain ⟨e, hparse⟩ := h.readable.formula? hd hformula
  refine ⟨hpos, e, hparse, ?_⟩
  rw [h.content_vertex hv, hpos, contentAt_of_cell? hd, content_of_formula hformula hparse]
  cases d.area.filter (·.topLeft? = some p) <;> rfl

/-- After a pass the cells of a formula show what it comes to with the present cells and with the extent that the
sheet had when the formula was calculated last. If this was in the pass, the extent is the present one, unless the
pass itself has made the sheet larger. -/
theorem Attained.showsEvaluated_recalculate (h : s.Attained True) (hcut : s.recalculate.1.truncated = false) {d : Cell}
    (hd : s.recalculate.2.store.cell? p = some d) (hformula : d.formula? = some text)
    (hi : s.recalculate.2.graph.slot? p = some i) (hv : s.recalculate.2.graph.vertex? i = some v)
    (hacyclic : s.recalculate.2.graph.isOnCycle i = false)
    (hlimit : v.rebuilds ≤ s.recalculate.2.settings.limits.rebuilds)
    (hreads : ¬s.recalculate.2.graph.ReadsCyclicValue p)
    (hsteady : ∀ e, s.recalculate.2.parse text = .ok e → e.Steady s.recalculate.2.library) :
    ∃ rows columns, s.recalculate.2.ShowsEvaluated p v.content text rows columns ∧
      rows ≤ s.recalculate.2.store.rows ∧ columns ≤ s.recalculate.2.store.columns ∧
      (s.graph.markVolatile.isDirty i = true → s.store.rows ≤ rows ∧ s.store.columns ≤ columns) := by
  have hkept := h.kept.recalculate fun _ => hcut
  have hclean := (h.kept.clean_recalculate hcut).1
  have hrecord := h.recorded.recalculate h.kept i
  obtain ⟨rfl, e, hparse, he⟩ := hkept.faithful.expression_vertex hd hformula hi hv
  obtain ⟨hcyclic, σ, t, m, hcalc⟩ :=
    hrecord.calculation trivial hkept.firm.toWellFormed (hclean i) hv he hacyclic hlimit
  have hclipped := hcalc.clipped trivial (hkept.coherent trivial).toConsistent (gist?_of_vertex? hv) he hcyclic hreads
    (hsteady e hparse)
  have hparse' : (s.recalculate.2.clipped σ.rows σ.columns).parse text = .ok e := hparse
  refine ⟨σ.rows, σ.columns, ⟨_, _, evaluate_of_parse hparse' _, hclipped.1⟩, hcalc.spans.2.rows, hcalc.spans.2.columns,
    fun hdirty => ?_⟩
  have hspans := hcalc.spans.1
  rw [if_pos hdirty] at hspans
  exact ⟨hspans.rows, hspans.columns⟩

/-! ### A column in a sheet that grows -/

/-- The range `A:A`. -/
def firstColumn : RangeMention := .between ⟨{ column := some 0 }, "A", 0⟩ ⟨{ column := some 0 }, "A", 2⟩

/-- The range that an expression is. -/
def range? : Expression → Option (Nat × RangeMention)
  | .range p r => some (p, r)
  | _ => none

/-- A sheet with the formula `A:A` in `B1`. -/
def spanning (library : Library) : Sheet :=
  { Sheet.empty {} library default with
    store := Store.setFormula {} ⟨0, 1⟩ "A:A"
    graph := Graph.install {} ⟨0, 1⟩ (.formula (.range 0 firstColumn))
      (.ofExpression ∅ "Sheet1" (.range 0 firstColumn)) }

/-- The same sheet when that formula has been calculated and a value has been entered into `D2`. -/
def grown (library : Library) : Sheet :=
  { (spanning library).recalculate.2 with
    store := (spanning library).recalculate.2.store.setValue ⟨1, 3⟩ (.boolean true)
    graph := ((spanning library).recalculate.2.graph.demote ⟨1, 3⟩).setDirty ⟨1, 3⟩ }

theorem eq_range_of_range? {n : Nat} {r : RangeMention} (h : range? e = some (n, r)) : e = .range n r := by
  unfold range? at h
  split at h
  · cases h
    rfl
  · cases h

theorem parse_firstColumn :
    (Formula.parse (.ofDecimal .period) "A:A").toExcept = .ok (.range 0 firstColumn) := by
  have hrange : (Formula.parse (.ofDecimal .period) "A:A").toExcept.toOption.bind range? = some (0, firstColumn) := by
    decide +kernel
  exact eq_ok_of_bind hrange fun _ => eq_range_of_range?

section

variable (library : Library)

theorem setFormula_spanning : (Sheet.empty {} library default).setFormula ⟨0, 1⟩ "A:A" = .ok (spanning library) := by
  simp only [setFormula, Environment.parse, Environment.locale, Sheet.empty, parse_firstColumn]
  rfl

theorem truncated_spanning : (spanning library).recalculate.1.truncated = false := by
  cbv

theorem setValue_grown : (spanning library).recalculate.2.setValue ⟨1, 3⟩ (.boolean true) = .ok (grown library) := by
  have hnone : (spanning library).recalculate.2.arrayAt? ⟨1, 3⟩ = none := by cbv
  simp only [setValue, detach, hnone]
  rfl

theorem parse_grown : (grown library).recalculate.2.parse "A:A" = .ok (.range 0 firstColumn) := by
  have hlocale : (grown library).recalculate.2.locale = .ofDecimal .period := rfl
  simp only [Environment.parse, hlocale, parse_firstColumn]

theorem pass_grown : (grown library).recalculate.1.truncated = false ∧
    (grown library).recalculate.2.graph.slot? ⟨0, 1⟩ = some 0 ∧
    (grown library).recalculate.2.graph.isOnCycle 0 = false ∧
    ((grown library).recalculate.2.graph.vertex? 0).map Vertex.rebuilds = some 0 ∧
    ((grown library).recalculate.2.store.cell? ⟨0, 1⟩).bind Cell.formula? = some "A:A" ∧
    (grown library).recalculate.2.read ⟨0, 1⟩ = .undefined ∧
    (Expression.calculate ((grown library).recalculate.2.scope (grown library).recalculate.2.store ⟨0, 1⟩)
      (grown library).recalculate.2.model (.range 0 firstColumn)).value = .array [[.undefined, .undefined]] := by
  cbv

theorem not_edge_grown (k l : Slot) : ¬(grown library).recalculate.2.graph.Edge k l := by
  obtain ⟨hsize, hnone⟩ : (grown library).recalculate.2.graph.slots.size = 1 ∧
      (grown library).recalculate.2.graph.dependents 0 = [] := by cbv
  intro hedge
  obtain ⟨v, hv⟩ := hedge.live_source
  have hlt := lt_size_of_vertex? hv
  rw [hsize, Nat.lt_one_iff] at hlt
  rw [hlt, ← mem_dependents_iff, hnone] at hedge
  cases hedge

theorem steady_firstColumn (e : Expression) (he : (grown library).recalculate.2.parse "A:A" = .ok e) :
    e.Steady (grown library).recalculate.2.library := by
  rw [parse_grown, Except.ok.injEq] at he
  subst he
  intro position name args hcall
  rw [Expression.units_range] at hcall
  simp at hcall

end

theorem attained_grown : (grown .standard).Attained True :=
  .setValue (.recalculate (.setFormula (.empty {} .standard default fun _ => rfl) (setFormula_spanning _))
    fun _ => truncated_spanning _) (setValue_grown _)

/-- The column shows what it came to with some extent of the sheet. -/
theorem showsEvaluated_recalculate_grown :
    (grown .standard).Attained True ∧ (grown .standard).recalculate.1.truncated = false ∧
      ∃ v rows columns, (grown .standard).recalculate.2.graph.vertex? 0 = some v ∧
        (grown .standard).recalculate.2.ShowsEvaluated ⟨0, 1⟩ v.content "A:A" rows columns ∧
        rows ≤ (grown .standard).recalculate.2.store.rows ∧ columns ≤ (grown .standard).recalculate.2.store.columns := by
  obtain ⟨hcut, hslot, hcycle, hvertex, hcell, -⟩ := pass_grown .standard
  obtain ⟨d, hd, hformula⟩ := Option.bind_eq_some_iff.1 hcell
  obtain ⟨v, hv, hrebuilds⟩ := Option.map_eq_some_iff.1 hvertex
  have hlimit : v.rebuilds ≤ (grown .standard).recalculate.2.settings.limits.rebuilds := by
    rw [hrebuilds]
    exact Nat.zero_le _
  have hreads : ¬(grown .standard).recalculate.2.graph.ReadsCyclicValue ⟨0, 1⟩ := by
    rintro ⟨m, ⟨k, l, -, -, hedge⟩, -⟩
    exact not_edge_grown _ k l hedge
  obtain ⟨rows, columns, hshows, hrows, hcolumns, -⟩ := attained_grown.showsEvaluated_recalculate hcut hd
    hformula hslot hv hcycle hlimit hreads (steady_firstColumn _)
  exact ⟨attained_grown, hcut, v, rows, columns, hv, hshows, hrows, hcolumns⟩

/-- The extent matters: `B1` still shows a single value after the value in `D2` has made the column longer, though its
formula comes to two values now. -/
theorem not_evaluated_grown :
    ∃ s : Sheet, s.Attained True ∧ s.recalculate.1.truncated = false ∧
      s.recalculate.2.graph.slot? ⟨0, 1⟩ = some 0 ∧ s.recalculate.2.graph.isOnCycle 0 = false ∧
      (s.recalculate.2.graph.vertex? 0).map Vertex.rebuilds = some 0 ∧
      ((s.recalculate.2.store.cell? ⟨0, 1⟩).bind Cell.formula?) = some "A:A" ∧
      s.recalculate.2.read ⟨0, 1⟩ = .undefined ∧
      ∃ s', s.recalculate.2.evaluate "A:A" ⟨0, 1⟩ = .ok (.array [[.undefined, .undefined]], s') := by
  obtain ⟨hcut, hslot, hcycle, hrebuilds, hformula, hread, hvalue⟩ := pass_grown .standard
  refine ⟨grown .standard, attained_grown, hcut, hslot, hcycle, hrebuilds, hformula, hread, ?_⟩
  rw [evaluate_of_parse (parse_grown .standard), hvalue]
  exact ⟨_, rfl⟩

end Spreadsheet.Sheet
