import Spreadsheet.Proofs.Graph.Gaps
import Spreadsheet.Proofs.Graph.Gist
import Spreadsheet.Proofs.Sheet.Attained

/-!
What edits leave of formulas. Whatever is entered, formulas that stay clean are kept as they are, new ones read just
what they mention until they are calculated, marks get as far as they did, and the extent of the sheet does not shrink
unless its graph is built anew.
-/

namespace Spreadsheet

open Spreadsheet.Graph

namespace Store

variable {s s' s'' : Store} {p : Position} {f : Cell → Cell}

/-- The second store has at least as many rows and columns. -/
structure Spans (s s' : Store) : Prop where
  rows : s.rows ≤ s'.rows
  columns : s.columns ≤ s'.columns

namespace Spans

theorem refl (s : Store) : Spans s s := ⟨Nat.le_refl _, Nat.le_refl _⟩

theorem trans (h : Spans s s') (h' : Spans s' s'') : Spans s s'' :=
  ⟨Nat.le_trans h.rows h'.rows, Nat.le_trans h.columns h'.columns⟩

/-- Any store has at least as many rows and columns as the empty one. -/
theorem empty (s : Store) : Spans {} s := ⟨Nat.zero_le _, Nat.zero_le _⟩

theorem update (s : Store) (p : Position) (f : Cell → Cell) : Spans s (s.update p f) :=
  ⟨Nat.le_max_left _ _, Nat.le_max_left _ _⟩

theorem adjust (s : Store) (p : Position) (f : Cell → Cell) : Spans s (s.adjust p f) :=
  ⟨Nat.le_refl _, Nat.le_refl _⟩

end Spans

end Store

/-- Just what a formula mentions. -/
def Environment.Literal (env : Environment) (content : Vertex.Content) (d : Dependencies) : Prop :=
  ∃ e, content.expression? = some e ∧ d = env.dependencies e

namespace Sheet

variable {s s' s'' : Sheet} {p q : Position} {a : Area} {text : String} {uncut : Prop}

/-- The second sheet is the first one after an edit: formulas are kept, though they may have become dirty, or are new
and dirty. -/
structure Carried (s s' : Sheet) : Prop where
  environment : s'.toEnvironment = s.toEnvironment
  renews : Renews s.Literal s.graph s'.graph
  spans : s.store.Spans s'.store
  firm : s.graph.Firm → s'.graph.Firm
  neat : s.graph.Firm → s.graph.Neat → s'.graph.Neat
  /-- No gaps are made. -/
  tightens : s.graph.Firm → Tightens s.graph s'.graph

namespace Carried

theorem refl (s : Sheet) : Carried s s := ⟨rfl, .refl _, .refl _, id, fun _ => id, fun _ => .refl _ _⟩

theorem trans (h : Carried s s') (h' : Carried s' s'') : Carried s s'' where
  environment := h'.environment.trans h.environment
  renews := by
    have hrenews := h'.renews
    rw [h.environment] at hrenews
    exact h.renews.trans hrenews
  spans := h.spans.trans h'.spans
  firm := h'.firm ∘ h.firm
  neat hfirm := h'.neat (h.firm hfirm) ∘ h.neat hfirm
  tightens hfirm := (h.tightens hfirm).trans (h'.tightens (h.firm hfirm))

theorem markFormulas (s : Sheet) : Carried s { s with graph := s.graph.markFormulas } :=
  have hmarks : Marks s.graph s.graph.markFormulas := marks_markEach s.graph _
  ⟨rfl, .of_marks hmarks, .refl _, fun h => h.marks hmarks, fun _ h => h.markEach _, fun h => .markEach h.linked _⟩

/-- A cell that loses its formula, while what is stored of it changes as well. -/
theorem demote {store : Store} (hspans : s.store.Spans store) (p : Position) :
    Carried s { s with store, graph := s.graph.demote p } :=
  ⟨rfl, .demote s.graph p, hspans, fun h => h.demote p, fun _ h => h.demote p, fun h => .demote h.toWellFormed p⟩

theorem setDirty (s : Sheet) (p : Position) : Carried s { s with graph := s.graph.setDirty p } :=
  ⟨rfl, .setDirty s.graph p, .refl _, fun h => h.setDirty p, fun _ h => h.setDirty p, fun h => .setDirty h.linked p⟩

theorem erase (s : Sheet) (p : Position) : Carried s (s.erase p) :=
  (demote (.adjust s.store p _) p).trans (setDirty _ p)

theorem eraseAll (s : Sheet) (ps : List Position) : Carried s (ps.foldl Sheet.erase s) := by
  induction ps generalizing s with
  | nil => exact .refl s
  | cons p ps ih => exact (erase s p).trans (ih _)

theorem enlistAll (s : Sheet) (a : Area) (ps : List Position) :
    Carried s (ps.foldl (fun s p => s.enlist a p) s) := by
  induction ps generalizing s with
  | nil => exact .refl s
  | cons p ps ih =>
    have hfirst : Carried s (s.enlist a p) := demote (.update s.store p fun c => { c.reset with area := some a }) p
    exact hfirst.trans (ih _)

theorem detach (hs : s.detach p = .ok s') : Carried s s' := by
  unfold Sheet.detach at hs
  split at hs
  · cases hs
    exact .refl s
  · split at hs
    · cases hs
      exact eraseAll s _
    · cases hs

/-- Putting a formula into the graph, while what is stored changes as well. -/
theorem install {content : Vertex.Content} {e : Expression} {store : Store} (h : s.graph.Firm)
    (he : content.expression? = some e) (hspans : s.store.Spans store) (p : Position) :
    Carried s ({ s with store }.install p content e) :=
  ⟨rfl, .install h ⟨e, he, rfl⟩ p, hspans, fun _ => h.install p content _, fun _ hneat => hneat.install h p content _,
    fun _ => .install h p content _⟩

/-- Entering a formula. -/
theorem enter {content : Vertex.Content} {e : Expression} (h : s.graph.Firm) (he : content.expression? = some e)
    (p : Position) (text : String) : Carried s ({ s with store := s.store.setFormula p text }.install p content e) :=
  install h he (.update s.store p (·.setFormula text)) p

end Carried

namespace Kept

theorem carried_setValue {v : Value} (hs : s.setValue p v = .ok s') : Carried s s' := by
  unfold Sheet.setValue at hs
  cases hd : s.detach p with
  | error err =>
    rw [hd] at hs
    cases hs
  | ok s₁ =>
    rw [hd] at hs
    cases hs
    exact (Carried.detach hd).trans ((Carried.demote (.update s₁.store p (·.setValue v)) p).trans (.setDirty _ p))

theorem carried_clear (hs : s.clear p = .ok s') : Carried s s' := by
  unfold Sheet.clear at hs
  split at hs
  · cases hs
    exact .erase s p
  · split at hs
    · cases hs
      exact .eraseAll s _
    · cases hs

theorem carried_setFormula (h : s.Kept uncut) (hs : s.setFormula p text = .ok s') : Carried s s' := by
  unfold Sheet.setFormula at hs
  cases hparse : s.parse text with
  | error err =>
    rw [hparse] at hs
    cases hs
  | ok e =>
    cases hd : s.detach p with
    | error err =>
      rw [hparse, hd] at hs
      cases hs
    | ok s₁ =>
      rw [hparse, hd] at hs
      cases hs
      exact (Carried.detach hd).trans (.enter (h.detached hd).edited.firm rfl p text)

theorem carried_setInput (h : s.Kept uncut) (hs : s.setInput p text = .ok s') : Carried s s' := by
  unfold Sheet.setInput at hs
  split at hs
  · exact carried_clear hs
  · simp only at hs
    split at hs
    · exact h.carried_setFormula hs
    · exact carried_setValue hs

theorem carried_setArray (h : s.Kept uncut) (hs : s.setArray a text = .ok s') : Carried s s' := by
  unfold Sheet.setArray at hs
  split at hs
  · rename_i head _ _
    cases hparse : s.parse text with
    | error err =>
      rw [hparse] at hs
      cases hs
    | ok e =>
      rw [hparse] at hs
      simp only [bind, Except.bind] at hs
      split at hs
      · cases hs
      · have herase : Edited uncut (· ∈ a.members) s
              (if (a.members.filterMap s.arrayAt?).isEmpty then s else s.eraseArray a) ∧
            Carried s (if (a.members.filterMap s.arrayAt?).isEmpty then s else s.eraseArray a) := by
          split
          · exact ⟨.refl _ h.firm h.orderly, .refl s⟩
          · exact ⟨(edited_eraseAll h.firm h.orderly a.members).1, .eraseAll s _⟩
        generalize (if (a.members.filterMap s.arrayAt?).isEmpty then s else s.eraseArray a) = s₁ at hs herase
        obtain ⟨hedit, hcarried⟩ := herase
        have hfirm := (edited_enlistAll hedit.firm hedit.orderly a a.members).1.firm
        have henlist := Carried.enlistAll s₁ a a.members
        generalize a.members.foldl (fun s p => s.enlist a p) s₁ = s₂ at hs hfirm henlist
        cases hs
        exact (hcarried.trans henlist).trans (.enter hfirm rfl head text)
  · cases hs

end Kept

/-! ### Graphs that are built anew -/

/-- Putting the formula of a cell into a graph again. -/
theorem Carried.reinstall (h : s.graph.Firm) (p : Position) (c : Cell) : Carried s (s.reinstall p c) := by
  unfold Sheet.reinstall
  split
  · exact .refl s
  · split
    · split
      · exact .install h rfl (.refl s.store) p
      · exact .install h rfl (.refl s.store) p
    · exact ⟨rfl, .refl _, .adjust s.store p _, id, fun _ => id, fun _ => .refl _ _⟩

/-- A graph that is built anew comes from the empty one. -/
theorem carried_rebuild (s : Sheet) : Carried { s with graph := {} } s.rebuild := by
  have hrun (cells : List (Position × Cell)) (s₁ : Sheet) (hfirm : s₁.graph.Firm) :
      Carried s₁ (cells.foldl (fun s pc => s.reinstall pc.1 pc.2) s₁) := by
    induction cells generalizing s₁ with
    | nil => exact .refl s₁
    | cons pc cells ih =>
      have hfirst := Carried.reinstall hfirm pc.1 pc.2
      exact hfirst.trans (ih _ (hfirst.firm hfirm))
  exact hrun s.store.toList { s with graph := {} } (rebuilt_nil s).orderly.toFirm

/-- All formulas of a graph that is built anew are new. -/
theorem renews_rebuild (s : Sheet) :
    s.rebuild.toEnvironment = s.toEnvironment ∧ Renews s.Literal {} s.rebuild.graph :=
  ⟨(carried_rebuild s).environment, (carried_rebuild s).renews⟩

/-- A graph that is built anew has no gaps. -/
theorem closed_rebuild (s : Sheet) : s.rebuild.graph.Closed :=
  have hempty := (rebuilt_nil s).orderly
  ((carried_rebuild s).tightens hempty.toFirm).closed hempty.closed

theorem neat_rebuild (s : Sheet) : s.rebuild.graph.Neat :=
  (carried_rebuild s).neat (rebuilt_nil s).orderly.toFirm ⟨fun _ hk => (List.not_mem_nil hk).elim, .nil⟩

/-! ### Sheets that can be attained -/

/-- What edits, graphs that are built anew, passes and the passing of time keep holds of all sheets that can be
attained. -/
theorem Attained.invariant {I : Sheet → Prop} (hrebuild : ∀ s : Sheet, I s.rebuild)
    (hedit : ∀ s s' : Sheet, s.Kept uncut → Amends uncut s s' → Carried s s' → I s → I s')
    (hpass : ∀ s : Sheet, s.Kept uncut → I s → I s.recalculate.2)
    (helapse : ∀ (s : Sheet) clock model, I s → I { s with clock, model }) (h : s.Attained uncut) : I s := by
  have hmoved {x : Axis} {store : Store} {start : Nat} {f : Nat → Nat} (s : Sheet) : I (s.moved x store start f) :=
    hrebuild _
  have hmarked {s : Sheet} (h : s.Attained uncut) (ih : I s) : I { s with graph := s.graph.markFormulas } :=
    hedit _ _ h.kept h.kept.amends_markFormulas (.markFormulas s) ih
  induction h with
  | empty settings library clock _ =>
    rw [← rebuild_empty]
    exact hrebuild _
  | setValue h hs ih => exact hedit _ _ h.kept (h.kept.amends_setValue hs) (Kept.carried_setValue hs) ih
  | setFormula h hs ih => exact hedit _ _ h.kept (h.kept.amends_setFormula hs) (h.kept.carried_setFormula hs) ih
  | setInput h hs ih => exact hedit _ _ h.kept (h.kept.amends_setInput hs) (h.kept.carried_setInput hs) ih
  | setArray h hs ih =>
    exact hedit _ _ h.kept (h.kept.amends_setArray (Area.ordered_between _ _) hs) (h.kept.carried_setArray hs) ih
  | clear h hs ih => exact hedit _ _ h.kept (h.kept.amends_clear hs) (Kept.carried_clear hs) ih
  | defineName => exact hrebuild _
  | removeName _ hs =>
    unfold Sheet.removeName? at hs
    split at hs
    · cases hs
      exact hrebuild _
    · cases hs
  | insert _ hs ih =>
    unfold Sheet.insert at hs
    simp only at hs
    split at hs
    · cases hs
      exact ih
    · split at hs
      · cases hs
      · split at hs
        · cases hs
        · cases hs
          exact hmoved _
  | delete _ hs ih =>
    unfold Sheet.delete at hs
    split at hs
    · cases hs
      exact ih
    · split at hs
      · cases hs
      · cases hs
        exact hmoved _
  | rebuild => exact hrebuild _
  | recalculate h _ ih => exact hpass _ h.kept ih
  | @startSimulation s iterations h _ ih =>
    have hprepared : I (s.preparing iterations).recalculate.2 :=
      hpass _ (h.kept.markFormulas.elapse s.clock (s.preparing iterations).model) (helapse _ _ _ (hmarked h ih))
    unfold Sheet.startSimulation
    simp only
    split
    · exact helapse _ _ _ hprepared
    · exact helapse _ _ _ hprepared
  | runTrial h hs _ ih =>
    unfold Sheet.runTrial at hs
    split at hs
    · cases hs
      exact helapse _ _ _ (hpass _ h.kept ih)
    · cases hs
  | endSimulation h hs ih =>
    unfold Sheet.endSimulation at hs
    split at hs
    · cases hs
      exact helapse _ _ _ (hmarked h ih)
    · cases hs
  | loadSamples h hs ih =>
    unfold Sheet.loadSamples at hs
    split at hs
    · cases hs
      exact helapse _ _ _ (hmarked h ih)
    · cases hs
  | elapse clock model _ ih => exact helapse _ _ _ ih

end Sheet

end Spreadsheet
