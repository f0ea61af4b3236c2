import Spreadsheet.Proofs.Graph.Cycles
import Spreadsheet.Proofs.Graph.Marks
import Spreadsheet.Proofs.Graph.Vertices

/-!
Replacing what a vertex reads. Cells that had no vertex get one, edges to the vertex come and go, and
nothing else changes until the vertex is marked.
-/

namespace Spreadsheet.Graph

variable {g g' : Graph} {i j k l : Slot} {p : Position}

/-- The second graph is the first one with new vertices and more edges, which lead to one vertex or from
new ones to those that listen to their cells. -/
structure Extends (i : Slot) (g g' : Graph) : Prop where
  core : ∀ k, g.Live k → g'.core? k = g.core? k
  fresh : ∀ k, ¬g.Live k → g'.Live k → ∃ p, g'.core? k = some { position := p }
  size : g.slots.size ≤ g'.slots.size
  slot : ∀ p k, g.slot? p = some k → g'.slot? p = some k
  edge : ∀ k l, g.Edge k l → g'.Edge k l
  edge_new : ∀ k l, g'.Edge k l → g.Edge k l ∨ l = i ∨
    ¬g.Live k ∧ ∃ p, g'.core? k = some { position := p } ∧ l ∈ g'.listenersOf p
  listeners : ∃ as : List Area, g'.listeners = g.listeners ++ as.map (·, i)
  volatiles : g'.volatiles = g.volatiles
  marked : g'.marked = g.marked
  cycles : g'.cyclesStale = true ∨ g'.cyclesStale = g.cyclesStale ∧ ∀ k l, g'.Edge k l ↔ g.Edge k l

namespace Extends

theorem refl (i : Slot) (g : Graph) : Extends i g g where
  core _ _ := rfl
  fresh k hdead hlive := absurd hlive hdead
  size := Nat.le_refl _
  slot _ _ hp := hp
  edge _ _ he := he
  edge_new _ _ he := .inl he
  listeners := ⟨[], by simp⟩
  volatiles := rfl
  marked := rfl
  cycles := .inr ⟨rfl, fun _ _ => .rfl⟩

theorem live (h : Extends i g g') (hk : g.Live k) : g'.Live k := by
  rw [live_iff_core?, h.core k hk, ← live_iff_core?]
  exact hk

/-- Those who have listened to a cell still do. -/
theorem mem_listenersOf (h : Extends i g g') (hk : k ∈ g.listenersOf p) : k ∈ g'.listenersOf p := by
  obtain ⟨as, hl⟩ := h.listeners
  rw [listenersOf, hl, List.filter_append, List.map_append]
  exact List.mem_append_left _ hk

theorem trans {g₁ g₂ g₃ : Graph} (h : Extends i g₁ g₂) (h' : Extends i g₂ g₃) : Extends i g₁ g₃ where
  core k hk := (h'.core k (h.live hk)).trans (h.core k hk)
  fresh k hdead hlive := by
    by_cases hk : g₂.Live k
    · obtain ⟨p, hp⟩ := h.fresh k hdead hk
      exact ⟨p, (h'.core k hk).trans hp⟩
    · exact h'.fresh k hk hlive
  size := Nat.le_trans h.size h'.size
  slot p k hp := h'.slot p k (h.slot p k hp)
  edge k l he := h'.edge k l (h.edge k l he)
  edge_new k l he := by
    rcases h'.edge_new k l he with he | hl | ⟨hk, hlisten⟩
    · rcases h.edge_new k l he with he | hl | ⟨hk, p, hp, hlisten⟩
      · exact .inl he
      · exact .inr (.inl hl)
      · refine .inr (.inr ⟨hk, p, ?_, h'.mem_listenersOf hlisten⟩)
        rw [h'.core k (live_iff_core?.2 ⟨_, hp⟩), hp]
    · exact .inr (.inl hl)
    · exact .inr (.inr ⟨fun hlive => hk (h.live hlive), hlisten⟩)
  listeners := by
    obtain ⟨as, ha⟩ := h.listeners
    obtain ⟨bs, hb⟩ := h'.listeners
    exact ⟨as ++ bs, by rw [hb, ha, List.append_assoc, List.map_append]⟩
  volatiles := h'.volatiles.trans h.volatiles
  marked := h'.marked.trans h.marked
  cycles := by
    rcases h'.cycles with hstale | ⟨hsame, hedge⟩
    · exact .inl hstale
    · rcases h.cycles with hstale | ⟨hsame', hedge'⟩
      · exact .inl (hsame.trans hstale)
      · exact .inr ⟨hsame.trans hsame', fun k l => (hedge k l).trans (hedge' k l)⟩

/-- What an old vertex holds besides its edges is kept. -/
theorem vertex_of (h : Extends i g g') {v : Vertex} (hv : g.vertex? k = some v) :
    ∃ w, g'.vertex? k = some w ∧ w.core = v.core := by
  have hcore := h.core k ⟨v, hv⟩
  rw [core?_eq_some_iff.2 ⟨v, hv, rfl⟩] at hcore
  exact core?_eq_some_iff.1 hcore

/-- Old vertices are dirty as before, and new ones are clean. -/
theorem isDirty_iff (h : Extends i g g') : g'.isDirty k = true ↔ g.isDirty k = true := by
  by_cases hk : g.Live k
  · obtain ⟨v, hv⟩ := hk
    obtain ⟨w, hw, hcore⟩ := h.vertex_of hv
    have hdirty : w.dirty = v.dirty := (congrArg Vertex.dirty hcore :)
    rw [isDirty_iff_of_vertex? hv, isDirty_iff_of_vertex? hw, hdirty]
  · constructor
    · intro hd
      obtain ⟨v, hv, hdirty⟩ := Graph.isDirty_iff.1 hd
      obtain ⟨q, hq⟩ := h.fresh k hk ⟨v, hv⟩
      obtain ⟨w, hw, hcore⟩ := core?_eq_some_iff.1 hq
      rw [hv] at hw
      cases hw
      rw [show v.dirty = false from congrArg Vertex.dirty hcore] at hdirty
      cases hdirty
    · exact fun hd => absurd (live_of_isDirty hd) hk

theorem cyclesKnown (h : Extends i g g') (hg : g.CyclesKnown) : g'.CyclesKnown := by
  intro hfresh k v b hv hb
  rcases h.cycles with hstale | ⟨hsame, hedge⟩
  · rw [hstale] at hfresh
    cases hfresh
  · have hcycle : g'.OnCycle k ↔ g.OnCycle k := by
      rw [OnCycle, OnCycle, show g'.Edge = g.Edge from funext₂ fun k l => propext (hedge k l)]
    by_cases hk : g.Live k
    · obtain ⟨w, hw⟩ := hk
      obtain ⟨v', hv', hcore⟩ := h.vertex_of hw
      rw [hv] at hv'
      cases hv'
      rw [hcycle]
      exact hg (hsame ▸ hfresh) k w b hw ((congrArg Vertex.onCycle hcore).symm.trans hb)
    · obtain ⟨q, hq⟩ := h.fresh k hk ⟨v, hv⟩
      obtain ⟨w, hw, hcore⟩ := core?_eq_some_iff.1 hq
      rw [hv] at hw
      cases hw
      rw [show v.onCycle = none from congrArg Vertex.onCycle hcore] at hb
      cases hb

theorem noted (h : Extends i g g') (hg : g.Noted) : g'.Noted := fun k hk => by
  rw [h.marked]
  exact hg k (h.isDirty_iff.1 hk)

end Extends

/-! ### The steps -/

theorem cyclesStale_connect (g : Graph) (i j : Slot) :
    (g.connect i j).cyclesStale = true ∨ g.connect i j = g := by
  by_cases h : (g.Live i ∧ g.Live j) ∧ ¬g.Edge i j
  · rw [connect_eq h.1.1 h.1.2 h.2]
    exact .inl rfl
  · exact .inr (connect_eq_self (by tauto))

theorem cyclesStale_connectTo (g : Graph) (i : Slot) (js : List Slot) :
    (g.connectTo i js).cyclesStale = true ∨ g.connectTo i js = g := by
  induction js generalizing g with
  | nil => exact .inr rfl
  | cons j js ih =>
    rcases ih (g.connect i j) with hstale | hsame
    · exact .inl hstale
    · rcases cyclesStale_connect g i j with hstale | hsame'
      · exact .inl ((congrArg Graph.cyclesStale hsame).trans hstale)
      · exact .inr (hsame.trans hsame')

theorem extends_connect (g : Graph) (j i : Slot) : Extends i g (g.connect j i) := by
  have hcore := sameCore_connect g j i
  refine ⟨fun k _ => hcore.core k, fun k hdead hlive => absurd (hcore.live_iff.1 hlive) hdead,
    hcore.size ▸ Nat.le_refl _, fun p k hp => (hcore.slot? p).trans hp,
    fun k l he => edge_connect.2 (.inl he), fun k l he => ?_, ⟨[], by simpa using hcore.listeners⟩,
    hcore.volatiles, hcore.marked, ?_⟩
  · rcases edge_connect.1 he with he | ⟨-, -, hl⟩
    · exact .inl he
    · exact .inr (.inl hl)
  · rcases cyclesStale_connect g j i with hstale | hsame
    · exact .inl hstale
    · rw [hsame]
      exact .inr ⟨rfl, fun _ _ => .rfl⟩

theorem extends_connectFrom (g : Graph) (js : List Slot) (i : Slot) :
    Extends i g (g.connectFrom js i) := by
  induction js generalizing g with
  | nil => exact .refl i g
  | cons j js ih => exact (extends_connect g j i).trans (ih _)

/-- A new vertex has edges to those who listen to its cell. -/
theorem WellFormed.extends_ensure (h : g.WellFormed) (i : Slot) (p : Position) :
    Extends i g (g.ensure p).2 := by
  cases hp : g.slot? p with
  | some j =>
    rw [ensure_of_slot? hp]
    exact .refl i g
  | none =>
    have halloc := h.allocated p
    have hcore := sameCore_connectTo (g.introduce p) (g.nextSlot p) ((g.introduce p).listenersOf p)
    have hne (k : Slot) (hk : g.Live k) : g.nextSlot p ≠ k := by
      rintro rfl
      exact halloc.dead hk
    rw [ensure_of_none hp]
    refine ⟨fun k hk => ?_, fun k hdead hlive => ⟨p, ?_⟩, ?_, fun q k hq => ?_, fun k l he => ?_,
      fun k l he => ?_, ⟨[], ?_⟩, hcore.volatiles.trans halloc.volatiles, hcore.marked.trans halloc.marked, ?_⟩
    · rw [hcore.core, core?, core?, h.vertex?_introduce, if_neg (hne k hk)]
    · rw [hcore.live_iff, h.live_introduce] at hlive
      obtain rfl := hlive.resolve_left hdead
      rw [hcore.core, core?, h.vertex?_introduce, if_pos rfl]
      rfl
    · rw [hcore.size]
      refine Nat.le_of_not_lt fun hlt => ?_
      exact absurd ((halloc.size _).2 (.inl hlt)) (Nat.lt_irrefl _)
    · rw [hcore.slot?, h.slot?_introduce, if_neg, hq]
      rintro rfl
      rw [hp] at hq
      cases hq
    · exact (edge_connectTo _).2 (.inl ((h.edge_introduce p).2 he))
    · rcases (edge_connectTo _).1 he with he | ⟨-, rfl, hl⟩
      · exact .inl ((h.edge_introduce p).1 he)
      · refine .inr (.inr ⟨halloc.dead, p, ?_, ?_⟩)
        · rw [hcore.core, core?, h.vertex?_introduce, if_pos rfl]
          rfl
        · rw [listenersOf, hcore.listeners]
          exact hl
    · rw [hcore.listeners, List.map_nil, List.append_nil]
      exact halloc.listeners
    · rcases cyclesStale_connectTo (g.introduce p) (g.nextSlot p) ((g.introduce p).listenersOf p) with
        hstale | hsame
      · exact .inl hstale
      · rw [hsame]
        exact .inr ⟨halloc.cyclesStale, fun k l => h.edge_introduce p⟩

/-! ### Replacing what is read -/

/-- The graph in which a vertex reads some more cells. -/
def readCells (g : Graph) (i : Slot) (ps : List Position) : Graph :=
  ps.foldl (fun g p => (g.ensure p).2.connect (g.ensure p).1 i) g

/-- The graph in which a vertex reads one more area. -/
def readArea (g : Graph) (i : Slot) (a : Area) : Graph :=
  { g.connectFrom (g.slotsIn a) i with
    listeners := (g.connectFrom (g.slotsIn a) i).listeners ++ [(a, i)] }

/-- The graph in which a vertex reads some more areas. -/
def readAreas (g : Graph) (i : Slot) (as : List Area) : Graph := as.foldl (readArea · i ·) g

/-- The graph in which a vertex reads exactly the given cells and areas, but has not been told. -/
def reading (g : Graph) (i : Slot) (d : Dependencies) : Graph :=
  ((g.clearInputs i).readCells i d.cells).readAreas i d.areas

/-- A vertex that has been told what it reads. -/
def told (d : Dependencies) (v : Vertex) : Vertex := { v with dependencies := d }

theorem rewire_eq (g : Graph) (i : Slot) (d : Dependencies) :
    g.rewire i d = ((g.reading i d).modify i (told d)).markFrom i := rfl

theorem WellFormed.readCells (h : g.WellFormed) (i : Slot) (ps : List Position) :
    (g.readCells i ps).WellFormed := by
  induction ps generalizing g with
  | nil => exact h
  | cons p ps ih => exact ih ((h.ensure p).connect _ i)

theorem WellFormed.readAreas (h : g.WellFormed) (i : Slot) (as : List Area) :
    (g.readAreas i as).WellFormed := by
  induction as generalizing g with
  | nil => exact h
  | cons a as ih =>
    have hconnect := h.connectFrom (g.slotsIn a) i
    exact ih ⟨hconnect.place, hconnect.free, hconnect.free_nodup, hconnect.linked⟩

theorem WellFormed.reading (h : g.WellFormed) (i : Slot) (d : Dependencies) :
    (g.reading i d).WellFormed :=
  ((h.clearInputs i).readCells i d.cells).readAreas i d.areas

theorem WellFormed.rewire (h : g.WellFormed) (i : Slot) (d : Dependencies) :
    (g.rewire i d).WellFormed :=
  (marks_markAll _ _).wellFormed ((h.reading i d).modify (fun _ => rfl) (fun _ => rfl) fun _ => rfl)

theorem WellFormed.extends_readCells (h : g.WellFormed) (i : Slot) (ps : List Position) :
    Extends i g (g.readCells i ps) := by
  induction ps generalizing g with
  | nil => exact .refl i g
  | cons p ps ih =>
    have hstep := (h.extends_ensure i p).trans (extends_connect _ (g.ensure p).1 i)
    exact hstep.trans (ih ((h.ensure p).connect _ i))

theorem extends_readArea (g : Graph) (i : Slot) (a : Area) : Extends i g (g.readArea i a) := by
  have h := extends_connectFrom g (g.slotsIn a) i
  obtain ⟨as, hl⟩ := h.listeners
  refine ⟨h.core, h.fresh, h.size, h.slot, h.edge, fun k l he => ?_, ⟨as ++ [a], ?_⟩, h.volatiles, h.marked,
    h.cycles⟩
  · rcases h.edge_new k l he with he | hl | ⟨hk, p, hp, hlisten⟩
    · exact .inl he
    · exact .inr (.inl hl)
    · refine .inr (.inr ⟨hk, p, hp, ?_⟩)
      rw [listenersOf, readArea, List.filter_append, List.map_append]
      exact List.mem_append_left _ hlisten
  · change (g.connectFrom (g.slotsIn a) i).listeners ++ [(a, i)] = _
    rw [hl, List.map_append, List.append_assoc]
    rfl

theorem extends_readAreas (g : Graph) (i : Slot) (as : List Area) :
    Extends i g (g.readAreas i as) := by
  induction as generalizing g with
  | nil => exact .refl i g
  | cons a as ih => exact (extends_readArea g i a).trans (ih _)

/-- Once the inputs of a vertex have been cleared, making it read cells and areas only extends the
graph. -/
theorem WellFormed.extends_reading (h : g.WellFormed) (i : Slot) (d : Dependencies) :
    Extends i (g.clearInputs i) (g.reading i d) :=
  ((h.clearInputs i).extends_readCells i d.cells).trans (extends_readAreas _ i d.areas)

/-- A dirty vertex is not marked again. -/
theorem markFrom_of_isDirty (h : g.isDirty i = true) : g.markFrom i = g := by
  obtain ⟨v, hv, hd⟩ := isDirty_iff.1 h
  rw [markFrom, markAll_dirty hv hd, markAll]

/-- The second graph is the first one after the dependencies of a dirty vertex have been replaced. -/
structure Rewired (i : Slot) (d : Dependencies) (g g' : Graph) : Prop where
  vertex : ∀ k v, g.vertex? k = some v → ∃ w, g'.vertex? k = some w ∧
    w.core = if k = i then { v.core with dependencies := d } else v.core
  fresh : ∀ k, ¬g.Live k → g'.Live k → ∃ p, g'.core? k = some { position := p }
  dirty : ∀ k, g'.isDirty k = true ↔ g.isDirty k = true
  edge : ∀ k l, g.Edge k l → l ≠ i → g'.Edge k l
  edge_new : ∀ k l, g'.Edge k l → g.Edge k l ∨ l = i ∨ ¬g.Live k
  volatiles : g'.volatiles = g.volatiles
  marked : g'.marked = g.marked

theorem core?_reading (h : g.WellFormed) (i : Slot) (d : Dependencies) {v : Vertex}
    (hv : g.vertex? k = some v) :
    (g.reading i d).core? k = some (if k = i then { v.core with dependencies := {} } else v.core) := by
  rw [(h.extends_reading i d).core k (live_clearInputs.2 ⟨v, hv⟩), core?_clearInputs,
    core?_eq_some_iff.2 ⟨v, hv, rfl⟩]
  by_cases hk : i = k
  · simp [hk]
  · simp [hk, Ne.symm hk]

theorem WellFormed.rewired (h : g.WellFormed) (hd : g.isDirty i = true) (d : Dependencies) :
    Rewired i d g (g.rewire i d) := by
  have hext := h.extends_reading i d
  have hdirty (k : Slot) : ((g.reading i d).modify i (told d)).isDirty k = true ↔
      g.isDirty k = true := by
    rw [isDirty_modify (f := told d) fun _ => rfl, hext.isDirty_iff, isDirty_clearInputs]
  have hmark : g.rewire i d = (g.reading i d).modify i (told d) := by
    rw [rewire_eq]
    exact markFrom_of_isDirty ((hdirty i).2 hd)
  have hedge (k l : Slot) : (g.rewire i d).Edge k l ↔ (g.reading i d).Edge k l := by
    rw [hmark]
    exact edge_modify (f := told d) fun _ => rfl
  refine ⟨fun k v hv => ?_, fun k hdead hlive => ?_, fun k => ?_, fun k l he hl => ?_, fun k l he => ?_, ?_, ?_⟩
  · obtain ⟨w, hw, hcore⟩ := core?_eq_some_iff.1 (core?_reading h i d hv)
    rw [hmark, vertex?_modify]
    by_cases hk : i = k
    · subst hk
      refine ⟨told d w, by rw [if_pos rfl, hw]; rfl, ?_⟩
      rw [if_pos rfl] at hcore ⊢
      exact (congrArg (told d) hcore :)
    · exact ⟨w, by rw [if_neg hk, hw], by rw [if_neg (Ne.symm hk)] at hcore ⊢; exact hcore⟩
  · have hne : i ≠ k := by
      rintro rfl
      exact hdead (live_of_isDirty hd)
    rw [hmark, live_modify] at hlive
    obtain ⟨p, hp⟩ := hext.fresh k (fun hc => hdead (live_clearInputs.1 hc)) hlive
    refine ⟨p, ?_⟩
    rw [hmark, core?, vertex?_modify_of_ne _ _ hne]
    exact hp
  · rw [hmark, hdirty]
  · exact (hedge k l).2 (hext.edge k l ((edge_clearInputs h.linked).2 ⟨he, hl⟩))
  · rcases hext.edge_new k l ((hedge k l).1 he) with he | hl | ⟨hk, -⟩
    · exact .inl ((edge_clearInputs h.linked).1 he).1
    · exact .inr (.inl hl)
    · exact .inr (.inr fun hc => hk (live_clearInputs.2 hc))
  · rw [hmark, volatiles_modify, hext.volatiles, (sameFrame_clearInputs g i).volatiles]
  · rw [hmark, marked_modify, hext.marked, (sameFrame_clearInputs g i).marked]

end Spreadsheet.Graph
