import Spreadsheet.Proofs.Formula.WellFormed
import Spreadsheet.Proofs.Sheet.Attained
import Spreadsheet.Proofs.Simulation.Evolves
import Spreadsheet.Sheet.Hook

/-!
The simulation of a sheet. Edits leave it as it is; passes and whatever else calculates formulas draw random numbers,
and a preparing pass registers cells that formulas of the sheet mention, all of which lie on the sheet.
-/

namespace Spreadsheet

open Spreadsheet.Graph

/-! ### Cells that formulas mention -/

/-- Whether a cell lies on the sheet. -/
def Position.OnSheet (p : Position) : Prop := p.row ≤ Row.last ∧ p.column ≤ Column.last

namespace Expression

variable {m : Mention} {e : Expression}

theorem onSheet_of_mention (h : m.target.IsCell ∨ m.target.IsRow ∨ m.target.IsColumn) {p : Position}
    (hp : m.target.position? = some p) : p.OnSheet := by
  rcases h with ⟨r, c, hr, hc, hrow, hcolumn⟩ | ⟨r, hr, -, hc, -⟩ | ⟨c, hc, -, hr, -⟩
  · simp only [Reference.position?, hr, hc, Option.some.injEq] at hp
    subst hp
    exact ⟨hrow, hcolumn⟩
  · simp [Reference.position?, hr, hc] at hp
  · simp [Reference.position?, hr, hc] at hp

theorem isReference_of_isRange {r : RangeMention} (h : Formula.IsRange r) :
    (r.first.target.IsCell ∨ r.first.target.IsRow ∨ r.first.target.IsColumn) ∧
      (r.last.target.IsCell ∨ r.last.target.IsRow ∨ r.last.target.IsColumn) := by
  rcases h with h | h | h
  · exact ⟨.inl h.1, .inl h.2⟩
  · exact ⟨.inr (.inl h.1), .inr (.inl h.2)⟩
  · exact ⟨.inr (.inr h.1), .inr (.inr h.2)⟩

/-- A well-formed expression mentions cells on the sheet only. -/
theorem WellFormed.mentionsOnly (h : e.WellFormed) : e.MentionsOnly Position.OnSheet := by
  intro m p hm hp
  refine onSheet_of_mention ?_ hp
  rcases h.of_mem_units hm with hunit | ⟨q, hq⟩ | ⟨r, hr, hcorner⟩
  · cases hunit with
    | cell _ hcell => exact .inl hcell
  · cases hq
  · obtain ⟨hfirst, hlast⟩ := isReference_of_isRange hr
    rcases hcorner with hcorner | hcorner
    · cases hcorner
      exact hfirst
    · cases hcorner
      exact hlast

end Expression

theorem Environment.wellFormed_of_parse {env : Environment} {text : String} {e : Expression}
    (h : env.parse text = .ok e) : e.WellFormed := by
  unfold Environment.parse Formula.Parsed.toExcept at h
  cases herror : (Formula.parse env.locale text).error with
  | some err => simp [herror] at h
  | none =>
    cases he : (Formula.parse env.locale text).expression with
    | none => simp [herror, he] at h
    | some e' =>
      simp only [herror, he, Except.ok.injEq] at h
      subst h
      exact Formula.wellFormed_of_parse herror he

/-! ### Edits -/

namespace Sheet

variable {s s' : Sheet} {p : Position} {text : String} {a : Area}

/-- The functions of a sheet and its simulation. -/
def apparatus (s : Sheet) : Library × Simulation.Model := (s.library, s.model)

theorem apparatus_foldl {α : Type} {f : Sheet → α → Sheet} (hf : ∀ s x, (f s x).apparatus = s.apparatus)
    (xs : List α) (s : Sheet) : (xs.foldl f s).apparatus = s.apparatus := by
  induction xs generalizing s with
  | nil => rfl
  | cons x xs ih => exact (ih _).trans (hf s x)

theorem apparatus_eraseArray (s : Sheet) (a : Area) : (s.eraseArray a).apparatus = s.apparatus := by
  unfold eraseArray
  exact apparatus_foldl (f := erase) (fun _ _ => rfl) a.members s

theorem apparatus_detach (hs : s.detach p = .ok s') : s'.apparatus = s.apparatus := by
  unfold detach at hs
  split at hs
  · cases hs
    rfl
  · split at hs
    · cases hs
      exact apparatus_eraseArray s _
    · cases hs

theorem apparatus_setValue {v : Value} (hs : s.setValue p v = .ok s') : s'.apparatus = s.apparatus := by
  unfold setValue at hs
  cases hd : s.detach p with
  | error err =>
    rw [hd] at hs
    cases hs
  | ok s₁ =>
    rw [hd] at hs
    cases hs
    have hdetached : s₁.apparatus = s.apparatus := apparatus_detach hd
    exact hdetached

theorem apparatus_setFormula (hs : s.setFormula p text = .ok s') : s'.apparatus = s.apparatus := by
  unfold setFormula at hs
  cases hparse : s.parse text with
  | error err =>
    rw [hparse] at hs
    cases hs
  | ok e =>
    cases hd : s.detach p with
    | error err =>
      rw [hparse, hd] at hs
      cases hs
    | ok s₁ =>
      rw [hparse, hd] at hs
      cases hs
      have hdetached : s₁.apparatus = s.apparatus := apparatus_detach hd
      exact hdetached

theorem apparatus_clear (hs : s.clear p = .ok s') : s'.apparatus = s.apparatus := by
  unfold clear at hs
  split at hs
  · cases hs
    rfl
  · split at hs
    · cases hs
      exact apparatus_eraseArray s _
    · cases hs

theorem apparatus_setInput (hs : s.setInput p text = .ok s') : s'.apparatus = s.apparatus := by
  unfold setInput at hs
  split at hs
  · exact apparatus_clear hs
  · simp only at hs
    split at hs
    · exact apparatus_setFormula hs
    · exact apparatus_setValue hs

theorem apparatus_setArray (hs : s.setArray a text = .ok s') : s'.apparatus = s.apparatus := by
  unfold setArray at hs
  split at hs
  · cases hparse : s.parse text with
    | error err =>
      rw [hparse] at hs
      cases hs
    | ok e =>
      rw [hparse] at hs
      simp only [bind, Except.bind] at hs
      split at hs
      · cases hs
      · cases hs
        refine (apparatus_foldl (f := fun s p => s.enlist a p) (fun _ _ => rfl) a.members _).trans ?_
        split
        · rfl
        · exact apparatus_eraseArray s a
  · cases hs

theorem apparatus_reinstall (s : Sheet) (p : Position) (c : Cell) : (s.reinstall p c).apparatus = s.apparatus := by
  unfold reinstall
  split
  · rfl
  · split
    · split <;> rfl
    · rfl

theorem apparatus_rebuild (s : Sheet) : s.rebuild.apparatus = s.apparatus :=
  apparatus_foldl (fun s (p, c) => apparatus_reinstall s p c) _ { s with graph := {} }

theorem apparatus_removeName? {name : String} (hs : s.removeName? name = some s') : s'.apparatus = s.apparatus := by
  unfold removeName? at hs
  split at hs
  · cases hs
    exact apparatus_rebuild _
  · cases hs

theorem apparatus_insert {x : Axis} {start count : Nat} (hs : s.insert x start count = .ok s') :
    s'.apparatus = s.apparatus := by
  unfold insert at hs
  split at hs
  · cases hs
    rfl
  · split at hs
    · cases hs
    · simp only at hs
      split at hs
      · cases hs
      · cases hs
        exact apparatus_rebuild _

theorem apparatus_delete {x : Axis} {start count : Nat} (hs : s.delete x start count = .ok s') :
    s'.apparatus = s.apparatus := by
  unfold delete at hs
  split at hs
  · cases hs
    rfl
  · split at hs
    · cases hs
    · cases hs
      exact apparatus_rebuild _

end Sheet

/-! ### Passes -/

namespace Environment

variable {env : Environment} {cells : Position → Prop} {p : Pass Contents} {i : Slot} {limit : Nat}

theorem model_settle (p : Pass Contents) (i : Slot) (v : Vertex) (x : Value) :
    (p.settle env.handler i v x).state.model = p.state.model := by
  have hspread (a : Area) (c : Contents) : (c.spread a x).model = c.model := by
    unfold Contents.spread
    split
    · rename_i head _
      generalize a.members = ps
      induction ps generalizing c with
      | nil => rfl
      | cons q ps ih => exact ih _
    · rfl
  change ((Pass.deliver env.handler v x).run p.state).2.model = _
  unfold Pass.deliver
  cases v.content with
  | value => rfl
  | formula e => rfl
  | array e a => exact hspread a p.state

/-- A step of a pass calculates one formula at most. -/
theorem evolves_step (hlibrary : env.library.Sparing)
    (hcells : ∀ v e, p.graph.vertex? i = some v → v.expression? = some e → e.MentionsOnly cells) :
    p.state.model.Evolves cells (p.step env.handler limit i).state.model := by
  have hsettle (p' : Pass Contents) (v : Vertex) (x : Value) (h : p.state.model.Evolves cells p'.state.model) :
      p.state.model.Evolves cells (p'.settle env.handler i v x).state.model := by rwa [model_settle]
  have hidle : p.state.model.Evolves cells p.state.model := refl_of _ _
  unfold Pass.step
  simp only
  split
  · exact hidle
  · rename_i v hv
    split
    · split
      · exact hsettle _ v _ hidle
      split
      · exact hidle
      obtain ⟨b, hv⟩ := (upToCycles_refreshCycles p.graph).vertex_of' hv
      unfold Pass.calculate
      split
      · exact hsettle _ v _ hidle
      · rename_i e he
        have hcalculate : p.state.model.Evolves cells ((env.handler.calculate v e).run p.state).2.model :=
          e.evolves_calculate (s := env.scope p.state.store v.position) hlibrary (hcells _ e hv he) p.state.model
        generalize (env.handler.calculate v e).run p.state = answer at hcalculate
        obtain ⟨outcome, state⟩ := answer
        cases outcome with
        | value x volatile => exact hsettle _ v x hcalculate
        | rewire d =>
          unfold Pass.rebuild
          simp only
          split
          · exact hsettle _ v _ hcalculate
          · exact hcalculate
    · exact hidle

/-- A pass calculates formulas of the sheet only; what holds of all formulas while it is under way is known of those. -/
theorem evolves_run (good : Pass Contents → Prop) (hlibrary : env.library.Sparing)
    (hgood : ∀ p i rest, p.queue = i :: rest → good p → good ((p.taken rest).step env.handler limit i))
    (hcells : ∀ p, good p → ∀ i v e, p.graph.vertex? i = some v → v.expression? = some e → e.MentionsOnly cells)
    (hp : good p) (steps : Nat) : p.state.model.Evolves cells (p.run env.handler limit steps).state.model := by
  induction steps generalizing p with
  | zero =>
    unfold Pass.run
    cases p.queue with
    | nil => exact refl_of _ _
    | cons i rest => exact refl_of _ _
  | succ steps ih =>
    unfold Pass.run
    cases hq : p.queue with
    | nil => exact refl_of _ _
    | cons i rest =>
      have hstep : p.state.model.Evolves cells ((p.taken rest).step env.handler limit i).state.model :=
        evolves_step (p := p.taken rest) hlibrary (hcells p hp i)
      exact trans_of (Simulation.Model.Evolves cells) hstep (ih (hgood p i rest hq hp))

end Environment

namespace Sheet

variable {s s' : Sheet} {p : Position} {text : String} {uncut : Prop}

theorem evolves_recalculate (hlibrary : s.library.Sparing) :
    s.model.Evolves (fun _ => True) s.recalculate.2.model :=
  Environment.evolves_run (p := s.graph.markVolatile.beginPass s.toContents) (fun _ => True) hlibrary
    (fun _ _ _ _ _ => trivial) (fun _ _ _ _ _ _ _ _ _ _ _ => trivial) trivial s.settings.limits.steps

/-- The formulas of a faithful sheet are well-formed. -/
theorem Faithful.mentionsOnly (h : s.Faithful) {i : Slot} {v : Vertex} {e : Expression}
    (hv : s.graph.vertex? i = some v) (he : v.expression? = some e) : e.MentionsOnly Position.OnSheet := by
  rw [Vertex.expression?_eq, h.content_vertex hv] at he
  obtain ⟨c, text, -, -, -, hparse⟩ := cell_of_expression he
  exact (Environment.wellFormed_of_parse hparse).mentionsOnly

/-- A pass registers cells on the sheet only. -/
theorem Kept.evolves_recalculate (h : s.Kept uncut) (hlibrary : s.library.Sparing) :
    s.model.Evolves Position.OnSheet s.recalculate.2.model := by
  have hmark := h.markVolatile
  have hu := hmark.firm.toSound.underway s.toContents
  refine Environment.evolves_run (p := s.graph.markVolatile.beginPass s.toContents)
    (fun p => (s.sheetAt p).Faithful ∧ p.Underway) hlibrary (fun p i rest hq hp => ⟨?_, hp.2.step hq _ _⟩)
    (fun p hp i v e hv he => hp.1.mentionsOnly hv he) ⟨hmark.faithful.beginPass hu.wellFormed, hu⟩
    s.settings.limits.steps
  exact (Faithful.step (p := p.taken rest) hp.1 hp.2.cycles i).1

theorem evolves_evaluate (hlibrary : s.library.Sparing) {v : Value} (hs : s.evaluate text p = .ok (v, s')) :
    s'.library = s.library ∧ s.model.Evolves (fun _ => True) s'.model := by
  unfold evaluate at hs
  cases hparse : s.parse text with
  | error err =>
    rw [hparse] at hs
    cases hs
  | ok e =>
    rw [hparse] at hs
    cases hs
    exact ⟨rfl, e.evolves_calculate (s := s.scope s.store p) hlibrary (fun _ _ _ _ => trivial) s.model⟩

theorem evolves_runHook (hlibrary : s.library.Sparing) (p : Position)
    (hook : Function → HookSite → Option HookResult) :
    (s.runHook p hook).2.library = s.library ∧ s.model.Evolves (fun _ => True) (s.runHook p hook).2.model := by
  unfold runHook
  split
  · exact ⟨rfl, refl_of _ _⟩
  · rename_i e _
    exact ⟨rfl, e.evolves_callArguments (s := s.scope s.store p) hlibrary (fun _ _ _ _ => trivial) s.model⟩

end Sheet

end Spreadsheet
