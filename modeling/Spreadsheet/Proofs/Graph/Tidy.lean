import Spreadsheet.Proofs.Graph.Reachable

/-!
Graphs without loose ends. When operations are only asked for vertices that stand, no vertex notes an edge
twice, and whatever names a slot (an edge, a listener, a mark) names one that holds a vertex. So a slot
that is taken again does not inherit anything from the vertex that stood there before.
-/

namespace Spreadsheet

/-- A vertex that notes none of its edges twice. -/
structure Vertex.Plain (v : Vertex) : Prop where
  dependents : v.dependents.Nodup
  inputs : v.inputs.Nodup

namespace Vertex.Plain

variable {v : Vertex} {i : Slot}

theorem addDependent (h : v.Plain) (hi : i ∉ v.dependents) : (v.addDependent i).Plain :=
  ⟨by simpa [Vertex.addDependent] using h.dependents.concat hi, h.inputs⟩

theorem addInput (h : v.Plain) (hi : i ∉ v.inputs) : (v.addInput i).Plain :=
  ⟨h.dependents, by simpa [Vertex.addInput] using h.inputs.concat hi⟩

theorem dropDependent (h : v.Plain) (i : Slot) : (v.dropDependent i).Plain :=
  ⟨h.dependents.filter _, h.inputs⟩

theorem dropInput (h : v.Plain) (i : Slot) : (v.dropInput i).Plain :=
  ⟨h.dependents, h.inputs.filter _⟩

end Vertex.Plain

namespace Graph

variable {σ : Type} {g g' : Graph} {i j k l : Slot} {p : Position}

/-- A graph that notes no edge twice and lists vertices only. -/
structure Tidy (g : Graph) : Prop where
  plain : ∀ k v, g.vertex? k = some v → v.Plain
  listeners : ∀ l ∈ g.listeners, g.Live l.2
  volatiles : ∀ k ∈ g.volatiles, g.Live k
  marked : ∀ k ∈ g.marked, g.Live k

namespace Tidy

theorem empty : Tidy {} where
  plain k v hv := by simp [vertex?] at hv
  listeners _ hl := by cases hl
  volatiles _ hk := by cases hk
  marked _ hk := by cases hk

/-- A graph with the same vertices that lists no others. -/
theorem of_lists (h : g.Tidy) (hvertex : ∀ k, g'.vertex? k = g.vertex? k)
    (hlisteners : g'.listeners ⊆ g.listeners) (hvolatiles : ∀ k ∈ g'.volatiles, k ∈ g.volatiles ∨ g.Live k)
    (hmarked : ∀ k ∈ g'.marked, k ∈ g.marked ∨ g.Live k) : g'.Tidy := by
  have hlive (k : Slot) : g'.Live k ↔ g.Live k := by rw [Live, Live, hvertex]
  refine ⟨fun k v hv => h.plain k v (hvertex k ▸ hv), fun l hl => (hlive _).2 (h.listeners l (hlisteners hl)),
    fun k hk => (hlive k).2 ?_, fun k hk => (hlive k).2 ?_⟩
  · exact (hvolatiles k hk).elim (h.volatiles k) id
  · exact (hmarked k hk).elim (h.marked k) id

/-- A change of one vertex that brings no edge in twice. -/
theorem modify (h : g.Tidy) {f : Vertex → Vertex}
    (hf : ∀ v, g.vertex? i = some v → v.Plain → (f v).Plain) : (g.modify i f).Tidy where
  plain k v hv := by
    rw [vertex?_modify] at hv
    split at hv
    · rename_i hk
      subst hk
      obtain ⟨w, hw, rfl⟩ := Option.map_eq_some_iff.1 hv
      exact hf w hw (h.plain i w hw)
    · exact h.plain k v hv
  listeners l hl := live_modify.2 (h.listeners l (by rwa [listeners_modify] at hl))
  volatiles k hk := live_modify.2 (h.volatiles k (by rwa [volatiles_modify] at hk))
  marked k hk := live_modify.2 (h.marked k (by rwa [marked_modify] at hk))

/-- A change of one vertex that leaves its edges alone. -/
theorem modify_of_edges (h : g.Tidy) {f : Vertex → Vertex} (hin : ∀ v, (f v).inputs = v.inputs)
    (hout : ∀ v, (f v).dependents = v.dependents) : (g.modify i f).Tidy :=
  h.modify fun v _ hv => ⟨(hout v).symm ▸ hv.dependents, (hin v).symm ▸ hv.inputs⟩

/-! ### Edges -/

theorem connect (h : g.Tidy) (hlinked : g.Linked) (i j : Slot) : (g.connect i j).Tidy := by
  by_cases hnew : (g.Live i ∧ g.Live j) ∧ ¬g.Edge i j
  · obtain ⟨⟨hi, hj⟩, hedge⟩ := hnew
    have hsource : (g.modify i (·.addDependent j)).Tidy :=
      h.modify fun v hv hplain => hplain.addDependent (mt (edge_iff_of_vertex? hv).2 hedge)
    have htarget : ((g.modify i (·.addDependent j)).modify j (·.addInput i)).Tidy :=
      hsource.modify fun v hv hplain => hplain.addInput fun hin => hedge <|
        (hlinked i j).2 (input_addDependent.1 ((input_iff_of_vertex? hv).2 hin))
    rw [connect_eq hi hj hedge]
    exact ⟨htarget.plain, htarget.listeners, htarget.volatiles, htarget.marked⟩
  · rwa [connect_eq_self (by tauto)]

theorem connectTo (h : g.Tidy) (hlinked : g.WellFormed) (i : Slot) (js : List Slot) :
    (g.connectTo i js).Tidy := by
  induction js generalizing g with
  | nil => exact h
  | cons j js ih => exact ih (h.connect hlinked.linked i j) (hlinked.connect i j)

theorem connectFrom (h : g.Tidy) (hlinked : g.WellFormed) (js : List Slot) (i : Slot) :
    (g.connectFrom js i).Tidy := by
  induction js generalizing g with
  | nil => exact h
  | cons j js ih => exact ih (h.connect hlinked.linked j i) (hlinked.connect j i)

theorem disconnect (h : g.Tidy) (i j : Slot) : (g.disconnect i j).Tidy := by
  have hsource : (g.modify i (·.dropDependent j)).Tidy := h.modify fun v _ hv => hv.dropDependent j
  have htarget : ((g.modify i (·.dropDependent j)).modify j (·.dropInput i)).Tidy :=
    hsource.modify fun v _ hv => hv.dropInput i
  exact ⟨htarget.plain, htarget.listeners, htarget.volatiles, htarget.marked⟩

theorem dropDependents (h : g.Tidy) (js : List Slot) (i : Slot) : (g.dropDependents js i).Tidy := by
  induction js generalizing g with
  | nil => exact h
  | cons j js ih => exact ih (h.modify fun v _ hv => hv.dropDependent i)

theorem dropInputs (h : g.Tidy) (js : List Slot) (i : Slot) : (g.dropInputs js i).Tidy := by
  induction js generalizing g with
  | nil => exact h
  | cons j js ih => exact ih (h.modify fun v _ hv => hv.dropInput i)

theorem clearInputs (h : g.Tidy) (i : Slot) : (g.clearInputs i).Tidy := by
  by_cases hlive : g.Live i
  · obtain ⟨v, hv⟩ := hlive
    have hforget : (g.modify i forgetInputs).Tidy := h.modify fun v _ hv => ⟨hv.dependents, .nil⟩
    rw [clearInputs_eq hv]
    exact (hforget.dropDependents v.inputs i).of_lists (fun _ => rfl) (List.filter_subset_self _)
      (fun _ hk => .inl hk) fun _ hk => .inl hk
  · rwa [clearInputs_of_dead hlive]

theorem isolate (h : g.Tidy) (i : Slot) : (g.isolate i).Tidy := by
  unfold Graph.isolate
  simp only
  split
  · exact h.clearInputs i
  · rename_i v hv
    have hforget : ((g.clearInputs i).modify i forgetDependents).Tidy :=
      (h.clearInputs i).modify fun v _ hv => ⟨.nil, hv.inputs⟩
    exact hforget.dropInputs v.dependents i

/-! ### Vertices -/

theorem introduce (h : g.Tidy) (hwell : g.WellFormed) (p : Position) : (g.introduce p).Tidy := by
  have halloc := hwell.allocated p
  have hlive (k : Slot) (hk : g.Live k) : (g.introduce p).Live k := (hwell.live_introduce p).2 (.inl hk)
  refine ⟨fun k v hv => ?_, fun l hl => hlive _ (h.listeners l (halloc.listeners ▸ hl)),
    fun k hk => hlive k (h.volatiles k (halloc.volatiles ▸ hk)),
    fun k hk => hlive k (h.marked k (halloc.marked ▸ hk))⟩
  rw [hwell.vertex?_introduce] at hv
  split at hv
  · cases hv
    exact ⟨.nil, .nil⟩
  · exact h.plain k v hv

theorem ensure (h : g.Tidy) (hwell : g.WellFormed) (p : Position) : (g.ensure p).2.Tidy := by
  cases hp : g.slot? p with
  | some i => rwa [ensure_of_slot? hp]
  | none =>
    rw [ensure_of_none hp]
    exact (h.introduce hwell p).connectTo (hwell.introduce hp) _ _

/-- When a vertex is removed nothing names its slot any more. -/
theorem remove (h : g.Tidy) (hwell : g.WellFormed) (p : Position) : (g.remove p).Tidy := by
  cases hp : g.slot? p with
  | none => rwa [remove_of_none hp]
  | some i =>
    obtain ⟨v, hv, -⟩ := hwell.vertex_of_slot? hp
    have hframe := sameFrame_detached g p i
    have hplaces : Tidy { g with places := g.places.erase p } :=
      ⟨h.plain, h.listeners, h.volatiles, h.marked⟩
    have hvolatiles : (g.remove p).volatiles = g.volatiles.filter (· != i) := by
      rw [remove_of_slot? hp]
      exact congrArg (List.filter (· != i)) hframe.volatiles
    refine ⟨fun k w hw => ?_, fun l hl => ?_, fun k hk => ?_, fun k hk => ?_⟩
    · rw [vertex?_remove hp] at hw
      split at hw
      · cases hw
      · exact (hplaces.isolate i).plain k w hw
    · rw [listeners_remove hp ⟨v, hv⟩, List.mem_filter, bne_iff_ne] at hl
      exact (live_remove hp).2 ⟨h.listeners l hl.1, hl.2⟩
    · rw [hvolatiles, List.mem_filter, bne_iff_ne] at hk
      exact (live_remove hp).2 ⟨h.volatiles k hk.1, hk.2⟩
    · rw [marked_remove hp, List.mem_filter, bne_iff_ne] at hk
      exact (live_remove hp).2 ⟨h.marked k hk.1, hk.2⟩

/-! ### Marks and dependencies -/

theorem marks (h : g.Tidy) (hmarks : Marks g g') : g'.Tidy where
  plain k v hv := by
    rcases hmarks.vertex k with hsame | ⟨w, hw, hmark⟩
    · exact h.plain k v (hsame ▸ hv)
    · rw [hv] at hmark
      cases hmark
      exact ⟨(h.plain k w hw).dependents, (h.plain k w hw).inputs⟩
  listeners l hl := hmarks.live_iff.2 (h.listeners l (hmarks.listeners ▸ hl))
  volatiles k hk := hmarks.live_iff.2 (h.volatiles k (hmarks.volatiles ▸ hk))
  marked k hk := by
    rcases (hmarks.marked k).1 hk with hk | ⟨hd, -⟩
    · exact hmarks.live_iff.2 (h.marked k hk)
    · exact live_of_isDirty hd

theorem readCells (h : g.Tidy) (hwell : g.WellFormed) (i : Slot) (ps : List Position) :
    (g.readCells i ps).Tidy := by
  induction ps generalizing g with
  | nil => exact h
  | cons p ps ih =>
    exact ih ((h.ensure hwell p).connect (hwell.ensure p).linked _ i) ((hwell.ensure p).connect _ i)

theorem readArea (h : g.Tidy) (hwell : g.WellFormed) (hi : g.Live i) (a : Area) : (g.readArea i a).Tidy := by
  have hconnect := h.connectFrom hwell (g.slotsIn a) i
  refine ⟨hconnect.plain, fun l hl => ?_, hconnect.volatiles, hconnect.marked⟩
  rcases List.mem_append.1 hl with hl | hl
  · exact hconnect.listeners l hl
  · rw [List.mem_singleton] at hl
    subst hl
    exact (sameCore_connectFrom g (g.slotsIn a) i).live_iff.2 hi

theorem readAreas (h : g.Tidy) (hwell : g.WellFormed) (hi : g.Live i) (as : List Area) :
    (g.readAreas i as).Tidy := by
  induction as generalizing g with
  | nil => exact h
  | cons a as ih =>
    exact ih (h.readArea hwell hi a) (hwell.readAreas i [a]) ((extends_readArea g i a).live hi)

theorem rewire (h : g.Tidy) (hwell : g.WellFormed) (hi : g.Live i) (d : Dependencies) : (g.rewire i d).Tidy := by
  have hclear := hwell.clearInputs i
  have hcells : ((g.clearInputs i).readCells i d.cells).Tidy := (h.clearInputs i).readCells hclear i d.cells
  have hlive : ((g.clearInputs i).readCells i d.cells).Live i :=
    (hclear.extends_readCells i d.cells).live (live_clearInputs.2 hi)
  have hreading : (g.reading i d).Tidy := hcells.readAreas (hclear.readCells i d.cells) hlive d.areas
  rw [rewire_eq]
  exact (hreading.modify_of_edges (f := told d) (fun _ => rfl) fun _ => rfl).marks (marks_markAll _ _)

theorem markVolatile (h : g.Tidy) : g.markVolatile.Tidy := by
  have hforget : Tidy { g with volatiles := [] } :=
    h.of_lists (fun _ => rfl) (List.Subset.refl _) (fun _ hk => by cases hk) fun _ hk => .inl hk
  exact hforget.marks (marks_markVolatile g)

/-! ### Passes -/

theorem upToCycles (h : g.Tidy) (hup : UpToCycles g g') : g'.Tidy where
  plain k v hv := by
    obtain ⟨b, hb⟩ := hup.vertex_of' hv
    exact ⟨(h.plain k _ hb).dependents, (h.plain k _ hb).inputs⟩
  listeners l hl := hup.live_iff.2 (h.listeners l (hup.listeners ▸ hl))
  volatiles k hk := hup.live_iff.2 (h.volatiles k (hup.volatiles ▸ hk))
  marked k hk := hup.live_iff.2 (h.marked k (hup.marked ▸ hk))

theorem noteVolatile (h : g.Tidy) (hi : g.Live i) (volatile : Bool) : (Pass.noteVolatile g i volatile).Tidy := by
  have hnoted : (g.modify i (Pass.noted volatile)).Tidy := h.modify_of_edges (fun _ => rfl) fun _ => rfl
  refine ⟨hnoted.plain, hnoted.listeners, fun k hk => ?_, hnoted.marked⟩
  change k ∈ if volatile = true then g.volatiles ++ [i] else g.volatiles at hk
  refine live_modify.2 ?_
  split at hk
  · rcases List.mem_append.1 hk with hk | hk
    · exact h.volatiles k hk
    · exact List.mem_singleton.1 hk ▸ hi
  · exact h.volatiles k hk

end Tidy

namespace Pass

variable {p p' : Pass σ} {h : Handler σ} {limit : Nat}

/-- A step of a pass leaves no loose ends. -/
theorem Looked.tidy {look : Look} {i : Slot} (hl : Looked h limit p i look p') (hwell : p.graph.WellFormed)
    (hg : p.graph.Tidy) : p'.graph.Tidy := by
  have hchart := upToCycles_charted p.graph i
  have hcharted := hg.upToCycles hchart
  have hretried (state : σ) : (p.retried i state).graph.Tidy :=
    hcharted.modify_of_edges (fun _ => rfl) fun _ => rfl
  cases hl with
  | idle => exact hg.upToCycles (upToCycles_refreshCycles _)
  | waits => exact hcharted
  | cycle => exact hcharted.modify_of_edges (fun _ => rfl) fun _ => rfl
  | read => exact hcharted.modify_of_edges (fun _ => rfl) fun _ => rfl
  | @value v e x volatile state hready =>
    have hlive : (p.graph.charted i).Live i :=
      hchart.live_iff.2 ((upToCycles_refreshCycles _).live_iff.1 ⟨v, hready.vertex⟩)
    exact (hcharted.noteVolatile hlive volatile).modify_of_edges (fun _ => rfl) fun _ => rfl
  | @exhausted v e d state => exact (hretried state).modify_of_edges (fun _ => rfl) fun _ => rfl
  | @rewired v e d state hready =>
    have hcount := updates_retried p i state
    have hlive : (p.retried i state).graph.Live i :=
      hcount.live_iff.2 (hchart.live_iff.2 ((upToCycles_refreshCycles _).live_iff.1 ⟨v, hready.vertex⟩))
    have hrewired := (hretried state).rewire (hcount.wellFormed (hchart.wellFormed hwell)) hlive d
    exact hrewired.of_lists (fun _ => rfl) (List.Subset.refl _) (fun _ hk => .inl hk)
      fun _ hk => .inl (List.mem_of_mem_filter hk)

/-- What a pass that is cut short leaves for the next one are vertices. -/
theorem tidy_cut (hg : p.graph.Tidy) : p.cut.graph.Tidy :=
  hg.of_lists (fun _ => rfl) (List.Subset.refl _) (fun _ hk => .inl hk)
    fun _ hk => .inr (live_of_isDirty (List.mem_filter.1 hk).2)

theorem Underway.tidy_run (hu : p.Underway) (hg : p.graph.Tidy) (h : Handler σ) (limit steps : Nat) :
    (p.run h limit steps).graph.Tidy := by
  induction steps generalizing p with
  | zero =>
    unfold Pass.run
    cases hq : p.queue with
    | nil => exact hg
    | cons i rest => exact tidy_cut hg
  | succ steps ih =>
    unfold Pass.run
    cases hq : p.queue with
    | nil => exact hg
    | cons i rest =>
      have hlooked := looked_step (p := p.taken rest) hu.cycles h limit i
      exact ih (hu.step hq h limit) (hlooked.tidy hu.wellFormed hg)

end Pass

theorem Tidy.beginPass (h : g.Tidy) (state : σ) : (g.beginPass state).graph.Tidy := by
  have hnone : Tidy { g with marked := [] } :=
    h.of_lists (fun _ => rfl) (List.Subset.refl _) (fun _ hk => .inl hk) fun _ hk => by cases hk
  unfold Graph.beginPass
  generalize g.marked = is
  generalize { g with marked := [] } = g₀ at hnone
  induction is generalizing g₀ with
  | nil => exact hnone
  | cons i is ih => exact ih _ (hnone.modify_of_edges (fun _ => rfl) fun _ => rfl)

theorem Tidy.recalculate (h : g.Tidy) (hg : g.Sound) (handler : Handler σ) (limits : Limits) (state : σ) :
    (g.recalculate handler limits state).graph.Tidy :=
  (hg.underway state).tidy_run (h.beginPass state) handler limits.rebuilds limits.steps

/-! ### Operations on vertices that stand -/

/-- A graph that comes about from the empty one by operations that are only asked for vertices that stand. -/
inductive Tended : Graph → Prop
  | empty : Tended {}
  | ensure {g : Graph} (hg : Tended g) (p : Position) : Tended (g.ensure p).2
  | remove {g : Graph} (hg : Tended g) (p : Position) : Tended (g.remove p)
  | connect {g : Graph} (hg : Tended g) {i j : Slot} (hi : g.Live i) (hj : g.Live j) : Tended (g.connect i j)
  | disconnect {g : Graph} (hg : Tended g) {i j : Slot} (hi : g.Live i) (hj : g.Live j) :
    Tended (g.disconnect i j)
  | clearInputs {g : Graph} (hg : Tended g) {i : Slot} (hi : g.Live i) : Tended (g.clearInputs i)
  | isolate {g : Graph} (hg : Tended g) {i : Slot} (hi : g.Live i) : Tended (g.isolate i)
  | rewire {g : Graph} (hg : Tended g) {i : Slot} (hi : g.Live i) (d : Dependencies) : Tended (g.rewire i d)
  /-- A vertex is given a formula, or loses it. -/
  | assign {g : Graph} (hg : Tended g) {i : Slot} (hi : g.Live i) (content : Vertex.Content)
    (volatile : Bool) : Tended (g.modify i fun v => { v with content, volatile })
  | markFrom {g : Graph} (hg : Tended g) {i : Slot} (hi : g.Live i) : Tended (g.markFrom i)
  | setDirty {g : Graph} (hg : Tended g) (p : Position) : Tended (g.setDirty p)
  | markVolatile {g : Graph} (hg : Tended g) : Tended g.markVolatile
  | recalculate {g : Graph} (hg : Tended g) {σ : Type} (h : Handler σ) (limits : Limits) (state : σ) :
    Tended (g.recalculate h limits state).graph

theorem Tended.reachable (hg : g.Tended) : g.Reachable := by
  induction hg with
  | empty => exact .empty
  | ensure _ p ih => exact ih.ensure p
  | remove _ p ih => exact ih.remove p
  | connect _ _ _ ih => exact ih.connect _ _
  | disconnect _ _ _ ih => exact ih.disconnect _ _
  | clearInputs _ _ ih => exact ih.clearInputs _
  | isolate _ _ ih => exact ih.isolate _
  | rewire _ _ d ih => exact ih.rewire _ d
  | assign _ _ content volatile ih => exact ih.assign _ content volatile
  | markFrom _ _ ih => exact ih.markFrom _
  | setDirty _ p ih => exact ih.setDirty p
  | markVolatile _ ih => exact ih.markVolatile
  | recalculate _ h limits state ih => exact ih.recalculate h limits state

theorem Tended.tidy (hg : g.Tended) : g.Tidy := by
  induction hg with
  | empty => exact .empty
  | ensure hg p ih => exact ih.ensure hg.reachable.sound.toWellFormed p
  | remove hg p ih => exact ih.remove hg.reachable.sound.toWellFormed p
  | connect hg _ _ ih => exact ih.connect hg.reachable.sound.linked _ _
  | disconnect _ _ _ ih => exact ih.disconnect _ _
  | clearInputs _ _ ih => exact ih.clearInputs _
  | isolate _ _ ih => exact ih.isolate _
  | rewire hg hi d ih => exact ih.rewire hg.reachable.sound.toWellFormed hi d
  | assign _ _ content volatile ih => exact ih.modify_of_edges (fun _ => rfl) fun _ => rfl
  | markFrom _ _ ih => exact ih.marks (marks_markAll _ _)
  | setDirty _ p ih => exact ih.marks (marks_setDirty _ p)
  | markVolatile _ ih => exact ih.markVolatile
  | recalculate hg h limits state ih => exact ih.recalculate hg.reachable.sound h limits state

/-- A graph each part of which accounts for the others. -/
structure Accounted (g : Graph) : Prop where
  /-- The slots of cells are those that hold their vertices. -/
  slot : ∀ p i, g.slot? p = some i ↔ ∃ v, g.vertex? i = some v ∧ v.position = p
  /-- No two cells share a slot. -/
  injective : ∀ p q i, g.slot? p = some i → g.slot? q = some i → p = q
  /-- Each free slot is noted, and no other one. -/
  free : ∀ i, i ∈ g.free ↔ i < g.slots.size ∧ g.vertex? i = none
  /-- It is noted once. -/
  free_nodup : g.free.Nodup
  /-- What a vertex notes as an edge to another one the other one notes as an edge from it. -/
  dependents : ∀ i v, g.vertex? i = some v →
    v.dependents.Nodup ∧ ∀ j, j ∈ v.dependents ↔ ∃ w, g.vertex? j = some w ∧ i ∈ w.inputs
  inputs : ∀ j w, g.vertex? j = some w →
    w.inputs.Nodup ∧ ∀ i, i ∈ w.inputs ↔ ∃ v, g.vertex? i = some v ∧ j ∈ v.dependents
  /-- All that is listed is a vertex. -/
  listed : (∀ l ∈ g.listeners, g.Live l.2) ∧ (∀ i ∈ g.volatiles, g.Live i) ∧ ∀ i ∈ g.marked, g.Live i
  /-- No dirty vertex is forgotten. -/
  noted : ∀ i v, g.vertex? i = some v → v.dirty = true → i ∈ g.marked

/-- Whatever is done to the vertices of a graph, its parts account for each other. -/
theorem Tended.accounted (hg : g.Tended) : g.Accounted := by
  have hsound := hg.reachable.sound
  have htidy := hg.tidy
  have hslot (p : Position) (i : Slot) : g.slot? p = some i ↔ ∃ v, g.vertex? i = some v ∧ v.position = p := by
    constructor
    · exact hsound.vertex_of_slot?
    · rintro ⟨v, hv, rfl⟩
      exact hsound.slot?_position hv
  refine ⟨hslot, fun p q i hp hq => ?_, fun i => ?_, hsound.free_nodup, fun i v hv => ?_, fun j w hw => ?_,
    ⟨htidy.listeners, htidy.volatiles, htidy.marked⟩, fun i v hv hd => ?_⟩
  · obtain ⟨v, hv, rfl⟩ := (hslot p i).1 hp
    obtain ⟨w, hw, rfl⟩ := (hslot q i).1 hq
    rw [hv] at hw
    cases hw
    rfl
  · rw [hsound.free, Live]
    cases g.vertex? i <;> simp
  · refine ⟨(htidy.plain i v hv).dependents, fun j => ?_⟩
    rw [← edge_iff_of_vertex? hv, hsound.linked, Input]
  · refine ⟨(htidy.plain j w hw).inputs, fun i => ?_⟩
    rw [← input_iff_of_vertex? hw, ← hsound.linked, Edge]
  · exact hsound.noted i ((isDirty_iff_of_vertex? hv).2 hd)

/-- A graph in which a vertex that reads itself and one more cell has lost that other cell, and a third cell
has taken the slot. -/
def retaken : Graph :=
  (((ensure {} ⟨0, 0⟩).2.rewire 0 { cells := [⟨0, 0⟩, ⟨1, 0⟩] }).remove ⟨1, 0⟩).ensure ⟨2, 0⟩ |>.2

theorem accounted_retaken : Tended retaken ∧ Accounted retaken := by
  have hlive : (ensure {} ⟨0, 0⟩).2.Live 0 := ⟨_, rfl⟩
  have hg : Tended retaken := (((Tended.empty.ensure ⟨0, 0⟩).rewire hlive _).remove ⟨1, 0⟩).ensure ⟨2, 0⟩
  exact ⟨hg, hg.accounted⟩

end Graph

end Spreadsheet
