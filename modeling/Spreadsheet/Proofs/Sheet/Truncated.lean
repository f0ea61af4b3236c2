import Spreadsheet.Proofs.Sheet.Command
import Spreadsheet.Proofs.Sheet.Recording

/-!
Passes that are cut short. What reads a dirty vertex is dirty, too, and so marks get to all that depends on an edit. A
pass that is cut short may leave an exception: a vertex on a cycle fails at once, even while its inputs are dirty, and
if these stay dirty, marks that stop at them do not get to it any more. Nothing else makes an exception.
-/

namespace Spreadsheet.Sheet

open Spreadsheet.Graph

variable {s s' : Sheet} {k l : Slot} {op : Operation} {reply : Reply} {moments : List (Pass Contents × Slot)}
  {p : Pass Contents} {uncut : Prop}

/-! ### Moments of a pass -/

/-- The pass over a sheet looks at slots at these moments, until it ends or is cut short. -/
structure Passes (s : Sheet) (moments : List (Pass Contents × Slot)) (p : Pass Contents) : Prop where
  leads : Pass.Leads s.handler s.settings.limits.rebuilds (s.graph.markVolatile.beginPass s.toContents) moments p
  stops : p.queue = [] ∧ moments.length ≤ s.settings.limits.steps ∧ s.recalculate = (p.tally, s.sheetAt p) ∨
    p.queue ≠ [] ∧ moments.length = s.settings.limits.steps ∧ s.recalculate = (p.cut.tally, s.sheetAt p.cut)

theorem exists_passes (s : Sheet) : ∃ moments p, s.Passes moments p := by
  obtain ⟨moments, p, hleads, hstops⟩ := Pass.leads_run s.handler s.settings.limits.rebuilds s.settings.limits.steps
    (s.graph.markVolatile.beginPass s.toContents)
  refine ⟨moments, p, hleads, hstops.imp (fun h => ⟨h.1, h.2.1, ?_⟩) fun h => ⟨h.1, h.2.1, ?_⟩⟩
  · rw [← h.2.2]
    rfl
  · rw [← h.2.2]
    rfl

/-- Cutting a pass short changes no vertex. -/
theorem Passes.vertex? (h : s.Passes moments p) (k : Slot) : s.recalculate.2.graph.vertex? k = p.graph.vertex? k := by
  obtain ⟨-, -, hs⟩ | ⟨-, -, hs⟩ := h.stops <;> rw [hs]
  · rfl
  · rfl

theorem Passes.isDirty (h : s.Passes moments p) (k : Slot) : s.recalculate.2.graph.isDirty k = p.graph.isDirty k :=
  congrArg (Option.any Vertex.dirty) (h.vertex? k)

theorem Passes.edge_iff (h : s.Passes moments p) : s.recalculate.2.graph.Edge k l ↔ p.graph.Edge k l := by
  rw [Edge, Edge, h.vertex?]

theorem Passes.gap_iff (h : s.Passes moments p) : s.recalculate.2.graph.Gap k l ↔ p.graph.Gap k l := by
  constructor
  · exact fun hgap => ⟨h.isDirty k ▸ hgap.dirty, h.edge_iff.1 hgap.edge, h.isDirty l ▸ hgap.clean⟩
  · exact fun hgap => ⟨h.isDirty k ▸ hgap.dirty, h.edge_iff.2 hgap.edge, h.isDirty l ▸ hgap.clean⟩

/-- The pass over a sheet fails the vertex in a slot since it is on a cycle. -/
def FailsOnCycle (s : Sheet) (k : Slot) : Prop :=
  ∃ moments p, s.Passes moments p ∧ Pass.FailsOnCycle s.handler s.settings.limits.rebuilds moments k

/-! ### Gaps -/

theorem gap_beginPass {g : Graph} {state : Contents} : (g.beginPass state).graph.Gap k l ↔ g.Gap k l := by
  constructor
  · exact fun h => ⟨isDirty_beginPass g state k ▸ h.dirty, (edge_beginPass g state).1 h.edge,
      isDirty_beginPass g state l ▸ h.clean⟩
  · exact fun h => ⟨isDirty_beginPass g state k ▸ h.dirty, (edge_beginPass g state).2 h.edge,
      isDirty_beginPass g state l ▸ h.clean⟩

theorem result?_beginPass (g : Graph) (state : Contents) (k : Slot) :
    Pass.result? (g.beginPass state).graph k = Pass.result? g k := by
  rw [Pass.result?, vertex?_beginPass, Option.map_map, Pass.result?]
  refine congrArg (Option.map · (g.vertex? k)) (funext fun v => ?_)
  simp only [Function.comp_apply]
  split <;> rfl

/-- The gaps that a pass leaves have been there before, or the pass has failed a vertex on a cycle. -/
theorem Kept.gap_recalculate (h : s.Kept uncut) (hgap : s.recalculate.2.graph.Gap k l) :
    s.graph.Gap k l ∧ Pass.result? s.recalculate.2.graph l = Pass.result? s.graph l ∨
      s.FailsOnCycle l ∧ Pass.result? s.recalculate.2.graph l = some Pass.failure := by
  obtain ⟨moments, p, hp⟩ := s.exists_passes
  have hu := h.markVolatile.firm.toSound.underway s.toContents
  have hresult : Pass.result? s.recalculate.2.graph l = Pass.result? p.graph l :=
    congrArg (Option.map Vertex.result) (hp.vertex? l)
  rw [hresult]
  rcases hp.leads.gap hu (hp.gap_iff.1 hgap) with ⟨hbegin, hsame⟩ | ⟨hfails, hfailure⟩
  · obtain ⟨hfirst, hgist⟩ := Tightens.markVolatile h.firm.linked k l id (gap_beginPass.1 hbegin)
    rw [hsame, result?_beginPass, Pass.result?_of_gist? hgist]
    exact .inl ⟨hfirst, rfl⟩
  · exact .inr ⟨⟨moments, p, hp, hfails⟩, hfailure⟩

/-- Operations other than passes make no gaps. -/
theorem Kept.gap_of_apply (h : s.Kept uncut) (happly : op.apply s = .ok (reply, s')) (hop : op ≠ .runTrial)
    (hgap : s'.graph.Gap k l) : s.graph.Gap k l := by
  have hcarried {s' : Sheet} (hc : Carried s s') (hgap : s'.graph.Gap k l) : s.graph.Gap k l :=
    (hc.tightens h.firm k l id hgap).1
  -- an operation that gives nothing but the sheet
  have hdone {result : Except SheetError Sheet} (hresult : result.map (Reply.done, ·) = .ok (reply, s')) :
      result = .ok s' := by
    cases result <;> cases hresult
    rfl
  have hmoved {x : Axis} {store : Store} {start : Nat} {f : Nat → Nat} (hs : s.moved x store start f = s') :
      s.graph.Gap k l :=
    absurd (hs ▸ hgap) (closed_iff.1 (closed_rebuild _) k l)
  cases op with
  | setValue p v => exact hcarried (Kept.carried_setValue (hdone happly)) hgap
  | setFormula p text => exact hcarried (h.carried_setFormula (hdone happly)) hgap
  | setInput p text => exact hcarried (h.carried_setInput (hdone happly)) hgap
  | setArray a text => exact hcarried (h.carried_setArray (hdone happly)) hgap
  | clear p => exact hcarried (Kept.carried_clear (hdone happly)) hgap
  | insert x start count =>
    have hs := hdone happly
    unfold Sheet.insert at hs
    split at hs
    · cases hs
      exact hgap
    · split at hs
      · cases hs
      · simp only at hs
        split at hs
        · cases hs
        · exact hmoved (Except.ok.inj hs)
  | delete x start count =>
    have hs := hdone happly
    unfold Sheet.delete at hs
    split at hs
    · cases hs
      exact hgap
    · split at hs
      · cases hs
      · exact hmoved (Except.ok.inj hs)
  | evaluate text p =>
    simp only [Operation.apply, Sheet.evaluate] at happly
    cases hparse : s.parse text with
    | error err =>
      rw [hparse] at happly
      cases happly
    | ok e =>
      rw [hparse] at happly
      cases happly
      exact hgap
  | runTrial => exact absurd rfl hop
  | endSimulation =>
    simp only [Operation.apply, Sheet.endSimulation] at happly
    split at happly
    · cases happly
      exact hcarried (.markFormulas s) hgap
    · cases happly
  | loadSamples data =>
    have hs := hdone happly
    unfold Sheet.loadSamples at hs
    split at hs
    · cases hs
      exact hcarried (.markFormulas s) hgap
    · cases hs

/-- How far marks get in a sheet. -/
structure Propagating (uncut : Prop) (s : Sheet) : Prop where
  /-- What reads a dirty vertex is dirty, unless a pass has been cut short and the reader shows the error of cycles. -/
  closed : ∀ k l, s.graph.isDirty k = true → s.graph.Edge k l →
    s.graph.isDirty l = true ∨ ¬uncut ∧ Pass.result? s.graph l = some Pass.failure
  /-- Operations other than passes make no gaps. -/
  edited : ∀ (op : Operation) reply s', op.apply s = .ok (reply, s') → op ≠ .runTrial →
    ∀ k l, s'.graph.Gap k l → s.graph.Gap k l
  /-- A graph that is built anew has none, and neither has one after names have changed. -/
  rebuilt : s.rebuild.graph.Closed ∧ (∀ name a, (s.defineName name a).graph.Closed) ∧
    ∀ name s', s.removeName? name = some s' → s'.graph.Closed
  /-- A pass makes a gap only if it is cut short, and only where it fails a vertex on a cycle. -/
  passed : ∀ k l, s.recalculate.2.graph.Gap k l → s.recalculate.1.truncated = true ∧
    (s.graph.Gap k l ∨ s.FailsOnCycle l ∧ Pass.result? s.recalculate.2.graph l = some Pass.failure)

/-- Clean readers of dirty vertices show the error of cycles. -/
theorem Attained.result?_of_gap (h : s.Attained uncut) : ∀ k l, s.graph.Gap k l →
    Pass.result? s.graph l = some Pass.failure := by
  refine h.invariant (I := fun s => ∀ k l, s.graph.Gap k l → Pass.result? s.graph l = some Pass.failure)
    (fun s k l hgap => absurd hgap (closed_iff.1 (closed_rebuild s) k l))
    (fun s s' hs _ hcarried ih k l hgap => ?_) (fun s hs ih k l hgap => ?_) fun _ _ _ ih => ih
  · obtain ⟨hfirst, hgist⟩ := hcarried.tightens hs.firm k l id hgap
    rw [Pass.result?_of_gist? hgist]
    exact ih k l hfirst
  · rcases hs.gap_recalculate hgap with ⟨hfirst, hsame⟩ | ⟨-, hfailure⟩
    · rw [hsame]
      exact ih k l hfirst
    · exact hfailure

/-- Whatever is done to a sheet and wherever passes are cut short, what reads a dirty vertex is dirty, or it has been
failed on a cycle by a pass that was cut short. -/
theorem Attained.propagating (h : s.Attained uncut) : s.Propagating uncut where
  closed k l hk hkl := by
    by_cases hl : s.graph.isDirty l = true
    · exact .inl hl
    · exact .inr ⟨fun hu => hl ((h.kept.orderly hu).closed k l hk hkl), h.result?_of_gap k l ⟨hk, hkl, hl⟩⟩
  edited op reply s' happly hop k l hgap := h.kept.gap_of_apply happly hop hgap
  rebuilt := by
    refine ⟨closed_rebuild s, fun name a => closed_rebuild _, fun name s' hs => ?_⟩
    unfold removeName? at hs
    split at hs
    · cases hs
      exact closed_rebuild _
    · cases hs
  passed k l hgap := by
    refine ⟨?_, (h.kept.gap_recalculate hgap).imp_left And.left⟩
    by_contra hcut
    exact (h.kept.clean_recalculate (Bool.eq_false_iff.2 hcut)).1 k hgap.dirty

/-! ### Two cells that read each other -/

/-- The expression `A1`. -/
def leftCell : Expression := .cell ⟨{ row := some 0, column := some 0 }, "A1", 0⟩

/-- The expression `B1`. -/
def rightCell : Expression := .cell ⟨{ row := some 0, column := some 1 }, "B1", 0⟩

/-- A sheet whose passes look at one slot each, with the formula `B1` in `A1`. -/
def halting (library : Library) : Sheet :=
  { Sheet.empty { limits := { steps := 1 } } library default with
    store := Store.setFormula {} ⟨0, 0⟩ "B1"
    graph := Graph.install {} ⟨0, 0⟩ (.formula rightCell) (.ofExpression ∅ "Sheet1" rightCell) }

/-- The same sheet when the formula `A1` has been entered into `B1`. -/
def entangled (library : Library) : Sheet :=
  { halting library with store := (halting library).store.setFormula ⟨0, 1⟩ "A1" }.install ⟨0, 1⟩ (.formula leftCell) leftCell

/-- The same sheet when a pass has been cut short and a value has been entered into `B1`. -/
def disentangled (library : Library) : Sheet :=
  { (entangled library).recalculate.2 with
    store := (entangled library).recalculate.2.store.setValue ⟨0, 1⟩ (.boolean true)
    graph := ((entangled library).recalculate.2.graph.demote ⟨0, 1⟩).setDirty ⟨0, 1⟩ }

section

variable (library : Library)

theorem parse_leftCell : (Formula.parse (.ofDecimal .period) "A1").toExcept = .ok leftCell := by
  have hmention : (Formula.parse (.ofDecimal .period) "A1").toExcept.toOption.bind mention? =
      some ⟨{ row := some 0, column := some 0 }, "A1", 0⟩ := by
    decide +kernel
  exact eq_ok_of_bind hmention fun _ => eq_cell_of_mention?

theorem parse_rightCell : (Formula.parse (.ofDecimal .period) "B1").toExcept = .ok rightCell := by
  have hmention : (Formula.parse (.ofDecimal .period) "B1").toExcept.toOption.bind mention? =
      some ⟨{ row := some 0, column := some 1 }, "B1", 0⟩ := by
    decide +kernel
  exact eq_ok_of_bind hmention fun _ => eq_cell_of_mention?

theorem setFormula_halting :
    (Sheet.empty { limits := { steps := 1 } } library default).setFormula ⟨0, 0⟩ "B1" = .ok (halting library) := by
  simp only [setFormula, Environment.parse, Environment.locale, Sheet.empty, parse_rightCell]
  rfl

theorem setFormula_entangled : (halting library).setFormula ⟨0, 1⟩ "A1" = .ok (entangled library) := by
  have hparse : (halting library).parse "A1" = .ok leftCell := by
    have hlocale : (halting library).locale = .ofDecimal .period := rfl
    simp only [Environment.parse, hlocale, parse_leftCell]
  have hnone : (halting library).arrayAt? ⟨0, 1⟩ = none := by rfl
  simp only [setFormula, hparse, detach, hnone]
  rfl

theorem setValue_disentangled :
    (entangled library).recalculate.2.setValue ⟨0, 1⟩ (.boolean true) = .ok (disentangled library) := by
  have hnone : (entangled library).recalculate.2.arrayAt? ⟨0, 1⟩ = none := by cbv
  simp only [setValue, detach, hnone]
  rfl

theorem pass_entangled : (entangled library).recalculate.2.graph.isDirty 1 = true ∧
    (entangled library).recalculate.2.graph.isDirty 0 = false ∧
    (entangled library).recalculate.2.graph.dependents 1 = [0] := by
  cbv

theorem pass_disentangled : (disentangled library).recalculate.2.graph.dirtyCount = 0 ∧
    (disentangled library).recalculate.2.read ⟨0, 1⟩ = .boolean true ∧
    ((disentangled library).recalculate.2.store.cell? ⟨0, 0⟩).bind Cell.formula? = some "B1" ∧
    (disentangled library).recalculate.2.read ⟨0, 0⟩ = Pass.failure := by
  cbv

end

theorem attained_entangled : (entangled .standard).Attained False :=
  .setFormula (.setFormula (.empty _ .standard default fun _ => rfl) (setFormula_halting _)) (setFormula_entangled _)

theorem gap_entangled : (entangled .standard).recalculate.2.graph.Gap 1 0 := by
  obtain ⟨hdirty, hclean, hdependents⟩ := pass_entangled .standard
  exact ⟨hdirty, mem_dependents_iff.1 (hdependents ▸ List.mem_cons_self), by simp [hclean]⟩

/-- After a pass that has been cut short the clean cell shows the error of cycles. -/
theorem propagating_entangled : (entangled .standard).recalculate.2.Attained False ∧
    (entangled .standard).recalculate.2.graph.Gap 1 0 ∧ (entangled .standard).recalculate.2.Propagating False :=
  have h := attained_entangled.recalculate False.elim
  ⟨h, gap_entangled, h.propagating⟩

/-- `A1` is clean although it reads `B1`, which is dirty. When a value has been entered into `B1` a pass calculates all
that is dirty, and still `A1` shows the error of cycles. -/
theorem not_closed_entangled :
    (∃ s : Sheet, s.Attained False ∧ ¬s.graph.Closed) ∧
      ∃ s s' : Sheet, s.Attained False ∧ s.setValue ⟨0, 1⟩ (.boolean true) = .ok s' ∧
        s'.recalculate.2.graph.dirtyCount = 0 ∧ s'.recalculate.2.read ⟨0, 1⟩ = .boolean true ∧
        (s'.recalculate.2.store.cell? ⟨0, 0⟩).bind Cell.formula? = some "B1" ∧
        s'.recalculate.2.read ⟨0, 0⟩ = Pass.failure := by
  have h := attained_entangled.recalculate False.elim
  exact ⟨⟨_, h, fun hclosed => closed_iff.1 hclosed 1 0 gap_entangled⟩, _, _, h, setValue_disentangled _,
    pass_disentangled _⟩

end Spreadsheet.Sheet
