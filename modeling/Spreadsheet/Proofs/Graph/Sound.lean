import Spreadsheet.Proofs.Graph.Rewire

/-!
Sound graphs. A graph is sound when it is well formed, what it keeps about cycles is right and every
dirty vertex is noted for the next pass. Whatever is done to a graph keeps it sound.
-/

namespace Spreadsheet.Graph

variable {g g' : Graph} {i j k l : Slot} {p : Position}

/-- A graph of which nothing has been lost. -/
structure Sound (g : Graph) : Prop extends WellFormed g where
  cycles : g.CyclesKnown
  noted : g.Noted

theorem cyclesKnown_of_stale (h : g.cyclesStale = true) : g.CyclesKnown := by
  intro hfresh
  rw [h] at hfresh
  cases hfresh

/-- Graphs with the same edges have the same cycles. -/
theorem onCycle_congr (h : ∀ k l, g'.Edge k l ↔ g.Edge k l) : g'.OnCycle i ↔ g.OnCycle i := by
  rw [OnCycle, OnCycle, show g'.Edge = g.Edge from funext₂ fun k l => propext (h k l)]

/-- A change that keeps edges and brings nothing new about cycles keeps what is known about them. -/
theorem CyclesKnown.of_edges (h : g.CyclesKnown) (hedge : ∀ k l, g'.Edge k l ↔ g.Edge k l)
    (hstale : g'.cyclesStale = g.cyclesStale)
    (hknown : ∀ k v b, g'.vertex? k = some v → v.onCycle = some b →
      ∃ w, g.vertex? k = some w ∧ w.onCycle = some b) : g'.CyclesKnown := by
  intro hfresh k v b hv hb
  obtain ⟨w, hw, hb'⟩ := hknown k v b hv hb
  rw [onCycle_congr hedge]
  exact h (hstale ▸ hfresh) k w b hw hb'

theorem CyclesKnown.modify (h : g.CyclesKnown) {f : Vertex → Vertex}
    (hcycle : ∀ v, (f v).onCycle = v.onCycle) (hout : ∀ v, (f v).dependents = v.dependents) :
    (g.modify i f).CyclesKnown := by
  refine h.of_edges (fun k l => edge_modify hout) (cyclesStale_modify g i f) fun k v b hv hb => ?_
  rw [vertex?_modify] at hv
  split at hv
  · cases hw : g.vertex? k with
    | none => simp [hw] at hv
    | some w =>
      simp only [hw, Option.map_some, Option.some.injEq] at hv
      subst hv
      exact ⟨w, rfl, (hcycle w).symm.trans hb⟩
  · exact ⟨v, hv, hb⟩

theorem CyclesKnown.marks (h : g.CyclesKnown) (hmarks : Marks g g') : g'.CyclesKnown := by
  refine h.of_edges (fun k l => hmarks.edge_iff) hmarks.cyclesStale fun k v b hv hb => ?_
  rcases hmarks.vertex k with hsame | ⟨w, hw, hmark⟩
  · exact ⟨v, hsame ▸ hv, hb⟩
  · rw [hv] at hmark
    cases hmark
    exact ⟨w, hw, hb⟩

/-- A change under which no vertex becomes dirty and none of the dirty ones is forgotten. -/
theorem Noted.of_dirty (h : g.Noted) (hdirty : ∀ k, g'.isDirty k = true → g.isDirty k = true)
    (hmarked : ∀ k, g'.isDirty k = true → k ∈ g.marked → k ∈ g'.marked) : g'.Noted :=
  fun k hk => hmarked k hk (h k (hdirty k hk))

theorem SameCore.noted (h : SameCore g g') (hg : g.Noted) : g'.Noted :=
  hg.of_dirty (fun k hk => h.isDirty k ▸ hk) fun _ _ hk => h.marked ▸ hk

theorem cyclesStale_clearInputs (hlive : g.Live i) : (g.clearInputs i).cyclesStale = true := by
  obtain ⟨v, hv⟩ := hlive
  rw [clearInputs_eq hv]

theorem cyclesKnown_clearInputs (h : g.CyclesKnown) (i : Slot) : (g.clearInputs i).CyclesKnown := by
  by_cases hlive : g.Live i
  · exact cyclesKnown_of_stale (cyclesStale_clearInputs hlive)
  · rwa [clearInputs_of_dead hlive]

theorem cyclesStale_dropInputs (g : Graph) (js : List Slot) (i : Slot) :
    (g.dropInputs js i).cyclesStale = g.cyclesStale := by
  induction js generalizing g with
  | nil => rfl
  | cons j js ih => exact (ih _).trans (cyclesStale_modify ..)

theorem isolate_of_dead (h : ¬g.Live i) : g.isolate i = g := by
  unfold isolate
  simp only [clearInputs_of_dead h]
  split
  · rfl
  · rename_i v hv
    exact absurd ⟨v, hv⟩ h

theorem cyclesStale_isolate (hlive : g.Live i) : (g.isolate i).cyclesStale = true := by
  unfold isolate
  simp only
  split
  · exact cyclesStale_clearInputs hlive
  · change (dropInputs _ _ _).cyclesStale = true
    rw [cyclesStale_dropInputs, cyclesStale_modify, cyclesStale_clearInputs hlive]

theorem CyclesKnown.isolate (h : g.CyclesKnown) (i : Slot) : (g.isolate i).CyclesKnown := by
  by_cases hlive : g.Live i
  · exact cyclesKnown_of_stale (cyclesStale_isolate hlive)
  · rwa [isolate_of_dead hlive]

theorem CyclesKnown.remove (h : g.CyclesKnown) (hwell : g.WellFormed) (p : Position) : (g.remove p).CyclesKnown := by
  cases hp : g.slot? p with
  | none => rwa [remove_of_none hp]
  | some i =>
    obtain ⟨v, hv, -⟩ := hwell.vertex_of_slot? hp
    refine cyclesKnown_of_stale ?_
    rw [remove_of_slot? hp]
    exact cyclesStale_isolate (g := { g with places := g.places.erase p }) ⟨v, hv⟩

theorem isDirty_isolate (g : Graph) (i k : Slot) : (g.isolate i).isDirty k = g.isDirty k := by
  rw [isDirty_eq_core, core?_isolate, ← isDirty_eq_core, isDirty_clearInputs]

theorem isDirty_remove (hp : g.slot? p = some i) (k : Slot) :
    (g.remove p).isDirty k = true ↔ g.isDirty k = true ∧ k ≠ i := by
  rw [isDirty_eq_core, isDirty_eq_core, core?_remove hp]
  by_cases hk : i = k
  · simp [hk]
  · simp [hk, Ne.symm hk]

theorem marked_remove (hp : g.slot? p = some i) :
    (g.remove p).marked = g.marked.filter (· != i) := by
  rw [remove_of_slot? hp]
  exact congrArg (List.filter (· != i)) (sameFrame_detached g p i).marked

theorem CyclesKnown.rewire (h : g.CyclesKnown) (hwell : g.WellFormed) (i : Slot) (d : Dependencies) :
    (g.rewire i d).CyclesKnown := by
  have hreading := (hwell.extends_reading i d).cyclesKnown (cyclesKnown_clearInputs h i)
  have hknown : ((g.reading i d).modify i (told d)).CyclesKnown :=
    hreading.modify (fun _ => rfl) fun _ => rfl
  exact hknown.marks (marks_markAll _ _)

namespace Sound

theorem empty : Sound {} where
  place p i := by simp [slot?, core?, vertex?]
  free i := by simp
  free_nodup := .nil
  linked i j := by simp [Edge, Input, vertex?]
  cycles := cyclesKnown_of_stale rfl
  noted i hi := by simp [isDirty, vertex?] at hi

theorem marks (h : g.Sound) (hmarks : Marks g g') : g'.Sound :=
  ⟨hmarks.wellFormed h.toWellFormed, h.cycles.marks hmarks, hmarks.noted h.noted⟩

theorem of_extends (h : g.Sound) (hwell : g'.WellFormed) (hext : Extends i g g') : g'.Sound :=
  ⟨hwell, hext.cyclesKnown h.cycles, hext.noted h.noted⟩

/-- A change of what a vertex holds besides its position, its edges and its mark. -/
theorem modify (h : g.Sound) {f : Vertex → Vertex} (hpos : ∀ v, (f v).position = v.position)
    (hin : ∀ v, (f v).inputs = v.inputs) (hout : ∀ v, (f v).dependents = v.dependents)
    (hcycle : ∀ v, (f v).onCycle = v.onCycle) (hdirty : ∀ v, (f v).dirty = true → v.dirty = true) :
    (g.modify i f).Sound := by
  refine ⟨h.toWellFormed.modify hpos hin hout, h.cycles.modify hcycle hout,
    h.noted.of_dirty (fun k hk => ?_) fun k _ hk => ?_⟩
  · obtain ⟨w, hw, hd⟩ := isDirty_iff.1 hk
    rw [vertex?_modify] at hw
    split at hw
    · cases hv : g.vertex? k with
      | none => simp [hv] at hw
      | some v =>
        simp only [hv, Option.map_some, Option.some.injEq] at hw
        exact isDirty_iff.2 ⟨v, hv, hdirty v (hw ▸ hd)⟩
    · exact isDirty_iff.2 ⟨w, hw, hd⟩
  · rwa [marked_modify]

theorem ensure (h : g.Sound) (p : Position) : (g.ensure p).2.Sound :=
  h.of_extends (h.toWellFormed.ensure p) (h.extends_ensure 0 p)

theorem connect (h : g.Sound) (i j : Slot) : (g.connect i j).Sound :=
  h.of_extends (h.toWellFormed.connect i j) (extends_connect g i j)

theorem disconnect (h : g.Sound) (i j : Slot) : (g.disconnect i j).Sound :=
  ⟨h.toWellFormed.disconnect i j, cyclesKnown_of_stale rfl, (sameCore_disconnect g i j).noted h.noted⟩

theorem clearInputs (h : g.Sound) (i : Slot) : (g.clearInputs i).Sound := by
  refine ⟨h.toWellFormed.clearInputs i, cyclesKnown_clearInputs h.cycles i,
    h.noted.of_dirty (fun k hk => ?_) fun k _ hk => ?_⟩
  · rwa [isDirty_clearInputs] at hk
  · rwa [(sameFrame_clearInputs g i).marked]

theorem isolate (h : g.Sound) (i : Slot) : (g.isolate i).Sound := by
  refine ⟨h.toWellFormed.isolate i, h.cycles.isolate i, h.noted.of_dirty (fun k hk => ?_) fun k _ hk => ?_⟩
  · rwa [isDirty_isolate] at hk
  · rwa [(sameFrame_isolate g i).marked]

theorem remove (h : g.Sound) (p : Position) : (g.remove p).Sound := by
  cases hp : g.slot? p with
  | none => rwa [remove_of_none hp]
  | some i =>
    refine ⟨h.toWellFormed.remove p, h.cycles.remove h.toWellFormed p,
      h.noted.of_dirty (fun k hk => ((isDirty_remove hp k).1 hk).1) fun k hk hmem => ?_⟩
    rw [marked_remove hp, List.mem_filter, bne_iff_ne]
    exact ⟨hmem, ((isDirty_remove hp k).1 hk).2⟩

theorem rewire (h : g.Sound) (i : Slot) (d : Dependencies) : (g.rewire i d).Sound := by
  have hreading := (h.extends_reading i d).noted (h.clearInputs i).noted
  have hnoted : ((Graph.reading g i d).modify i (told d)).Noted :=
    hreading.of_dirty (fun k hk => by
      rwa [isDirty_modify (f := told d) fun _ => rfl] at hk) fun k _ hk => by
      rwa [marked_modify]
  exact ⟨h.toWellFormed.rewire i d, h.cycles.rewire h.toWellFormed i d, (marks_markAll _ _).noted hnoted⟩

theorem markFrom (h : g.Sound) (i : Slot) : (g.markFrom i).Sound := h.marks (marks_markAll g [i])

theorem setDirty (h : g.Sound) (p : Position) : (g.setDirty p).Sound := h.marks (marks_setDirty g p)

theorem markVolatile (h : g.Sound) : g.markVolatile.Sound := by
  have hforget : Sound { g with volatiles := [] } :=
    ⟨⟨h.place, h.free, h.free_nodup, h.linked⟩, h.cycles, h.noted⟩
  exact hforget.marks (marks_markVolatile g)

end Sound

end Spreadsheet.Graph
