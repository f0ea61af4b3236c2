import Spreadsheet.Proofs.Graph.Look

/-!
The steps of a pass. A step ends the work on the vertex that it looks at, replaces its dependencies or
leaves all as it is. It never makes a clean vertex dirty, and edges change only when dependencies are
replaced.
-/

namespace Spreadsheet.Graph

variable {g g' : Graph} {i j k l : Slot}

/-! ### Changing what a vertex holds -/

/-- A change of a vertex that keeps its cell, what it calculates and what it is connected with. -/
structure Keeps (f : Vertex → Vertex) : Prop where
  position : ∀ v, (f v).position = v.position
  content : ∀ v, (f v).content = v.content
  inputs : ∀ v, (f v).inputs = v.inputs
  dependents : ∀ v, (f v).dependents = v.dependents
  dependencies : ∀ v, (f v).dependencies = v.dependencies
  onCycle : ∀ v, (f v).onCycle = v.onCycle

/-- The second graph is the first one after such a change of the vertex in one slot. -/
structure Updates (i : Slot) (f : Vertex → Vertex) (g g' : Graph) : Prop where
  keeps : Keeps f
  vertex : ∀ k, g'.vertex? k = if i = k then (g.vertex? k).map f else g.vertex? k
  size : g'.slots.size = g.slots.size
  free : g'.free = g.free
  places : g'.places = g.places
  listeners : g'.listeners = g.listeners
  marked : g'.marked = g.marked
  cyclesStale : g'.cyclesStale = g.cyclesStale

theorem updates_modify (g : Graph) (i : Slot) {f : Vertex → Vertex} (hf : Keeps f) :
    Updates i f g (g.modify i f) :=
  ⟨hf, fun k => vertex?_modify g i k f, size_modify .., free_modify .., places_modify ..,
    listeners_modify .., marked_modify .., cyclesStale_modify ..⟩

namespace Updates

variable {f f' : Vertex → Vertex}

theorem trans {g₁ g₂ g₃ : Graph} (h : Updates i f g₁ g₂) (h' : Updates i f' g₂ g₃) :
    Updates i (f' ∘ f) g₁ g₃ where
  keeps :=
    { position := fun v => (h'.keeps.position _).trans (h.keeps.position v)
      content := fun v => (h'.keeps.content _).trans (h.keeps.content v)
      inputs := fun v => (h'.keeps.inputs _).trans (h.keeps.inputs v)
      dependents := fun v => (h'.keeps.dependents _).trans (h.keeps.dependents v)
      dependencies := fun v => (h'.keeps.dependencies _).trans (h.keeps.dependencies v)
      onCycle := fun v => (h'.keeps.onCycle _).trans (h.keeps.onCycle v) }
  vertex k := by
    rw [h'.vertex, h.vertex]
    by_cases hk : i = k
    · simp [hk]
    · simp [hk]
  size := h'.size.trans h.size
  free := h'.free.trans h.free
  places := h'.places.trans h.places
  listeners := h'.listeners.trans h.listeners
  marked := h'.marked.trans h.marked
  cyclesStale := h'.cyclesStale.trans h.cyclesStale

theorem vertex_self (h : Updates i f g g') {v : Vertex} (hv : g.vertex? i = some v) :
    g'.vertex? i = some (f v) := by
  rw [h.vertex, if_pos rfl, hv, Option.map_some]

theorem vertex_of_ne (h : Updates i f g g') (hk : k ≠ i) : g'.vertex? k = g.vertex? k := by
  rw [h.vertex, if_neg (Ne.symm hk)]

theorem edge_iff (h : Updates i f g g') : g'.Edge k l ↔ g.Edge k l := by
  unfold Edge
  rw [h.vertex]
  split
  · cases g.vertex? k <;> simp [h.keeps.dependents]
  · rfl

theorem input_iff (h : Updates i f g g') : g'.Input k l ↔ g.Input k l := by
  unfold Input
  rw [h.vertex]
  split
  · cases g.vertex? l <;> simp [h.keeps.inputs]
  · rfl

theorem live_iff (h : Updates i f g g') : g'.Live k ↔ g.Live k := by
  unfold Live
  rw [h.vertex]
  split
  · cases g.vertex? k <;> simp
  · rfl

theorem slot? (h : Updates i f g g') (p : Position) : g'.slot? p = g.slot? p := by
  rw [Graph.slot?, Graph.slot?, h.places]

theorem wellFormed (h : Updates i f g g') (hg : g.WellFormed) : g'.WellFormed where
  place p k := by
    rw [h.slot?, hg.place p k, core?, core?, h.vertex]
    split
    · cases g.vertex? k <;> simp [Vertex.core, h.keeps.position]
    · rfl
  free k := by rw [h.free, h.size, h.live_iff, hg.free]
  free_nodup := h.free ▸ hg.free_nodup
  linked k l := by rw [h.edge_iff, h.input_iff, hg.linked]

theorem cyclesKnown (h : Updates i f g g') (hg : g.CyclesKnown) : g'.CyclesKnown := by
  refine hg.of_edges (fun k l => h.edge_iff) h.cyclesStale fun k v b hv hb => ?_
  rw [h.vertex] at hv
  split at hv
  · obtain ⟨w, hw, rfl⟩ := Option.map_eq_some_iff.1 hv
    exact ⟨w, hw, (h.keeps.onCycle w).symm.trans hb⟩
  · exact ⟨v, hv, hb⟩

end Updates

namespace Pass

variable {σ : Type} {h : Handler σ} {limit : Nat} {p p' : Pass σ} {v : Vertex}

/-! ### Steps that end the work on a vertex -/

/-- The vertex with the result of a calculation. -/
def settled (x : Value) (v : Vertex) : Vertex := { v with result := x, dirty := false }

theorem keeps_settled (x : Value) : Keeps (settled x) :=
  ⟨fun _ => rfl, fun _ => rfl, fun _ => rfl, fun _ => rfl, fun _ => rfl, fun _ => rfl⟩

/-- The vertex when it is known whether it is volatile. -/
def noted (volatile : Bool) (v : Vertex) : Vertex := { v with volatile }

theorem updates_noteVolatile (g : Graph) (i : Slot) (volatile : Bool) :
    Updates i (noted volatile) g (noteVolatile g i volatile) :=
  have h := updates_modify g i (f := noted volatile)
    ⟨fun _ => rfl, fun _ => rfl, fun _ => rfl, fun _ => rfl, fun _ => rfl, fun _ => rfl⟩
  ⟨h.keeps, h.vertex, h.size, h.free, h.places, h.listeners, h.marked, h.cyclesStale⟩

/-- The vertex when its dependencies are to be replaced once more. -/
def counted (v : Vertex) : Vertex := { v with rebuilds := v.rebuilds + 1 }

theorem updates_retried (p : Pass σ) (i : Slot) (state : σ) :
    Updates i counted (p.graph.charted i) (p.retried i state).graph :=
  updates_modify _ i ⟨fun _ => rfl, fun _ => rfl, fun _ => rfl, fun _ => rfl, fun _ => rfl, fun _ => rfl⟩

/-- A step that settles a vertex changes what the vertex holds and nothing else of the graph but what is
known about cycles. -/
theorem Looked.updates {look : Look} (hl : Looked h limit p i look p') (hs : look.settles = true) :
    ∃ f, Updates i f (p.graph.charted i) p'.graph ∧ (∀ v, (f v).dirty = false) ∧
      (look ≠ .exhausted → ∀ v, (f v).rebuilds = v.rebuilds) := by
  cases hl with
  | idle => cases hs
  | waits => cases hs
  | rewired => cases hs
  | cycle =>
    refine ⟨_, updates_modify _ i (keeps_settled failure), ?_, ?_⟩
    · exact fun _ => rfl
    · exact fun _ _ => rfl
  | @read v =>
    refine ⟨_, updates_modify _ i (keeps_settled ((h.read v.position).run p.state).1), ?_, ?_⟩
    · exact fun _ => rfl
    · exact fun _ _ => rfl
  | @value v e x volatile =>
    refine ⟨_, (updates_noteVolatile _ i volatile).trans (updates_modify _ i (keeps_settled x)), ?_, ?_⟩
    · exact fun _ => rfl
    · exact fun _ _ => rfl
  | @exhausted v e d state =>
    refine ⟨_, (updates_retried p i state).trans (updates_modify _ i (keeps_settled failure)), ?_, ?_⟩
    · exact fun _ => rfl
    · exact fun hne => absurd rfl hne

/-! ### What each step changes -/

/-- What a pass comes to when it deals with a slot in a given way. -/
structure Stepped (look : Look) (p : Pass σ) (i : Slot) (p' : Pass σ) : Prop where
  wellFormed : p'.graph.WellFormed
  cycles : p'.graph.CyclesKnown
  /-- A vertex that is settled becomes clean; all other marks stay. -/
  dirty : ∀ k, p'.graph.isDirty k = true ↔ p.graph.isDirty k = true ∧ ¬(k = i ∧ look.settles = true)
  /-- Vertices stay, and calculate what they did. -/
  vertex : ∀ k v, p.graph.vertex? k = some v → ∃ w, p'.graph.vertex? k = some w ∧
    w.position = v.position ∧ w.content = v.content
  /-- Replaced dependencies are counted, also those that are too many. -/
  rebuilds : ∀ k v w, p.graph.vertex? k = some v → p'.graph.vertex? k = some w → w.dirty = true →
    w.rebuilds = if k = i ∧ look = .rewired then v.rebuilds + 1 else v.rebuilds
  edge : ∀ k l, p.graph.Edge k l → ¬(look = .rewired ∧ l = i) → p'.graph.Edge k l
  edge_new : ∀ k l, p'.graph.Edge k l →
    p.graph.Edge k l ∨ look = .rewired ∧ (l = i ∨ ¬p.graph.Live k)
  queue : p'.queue = p.queue ++
    if look.settles then p.graph.dependents i else if look = .rewired then [i] else []
  marked : p.graph.marked = [] → p'.graph.marked = []
  calculated : p'.tally.calculated = p.tally.calculated + if look = .calculated then 1 else 0
  failed : p'.tally.cycles = p.tally.cycles + if look = .cycle then 1 else 0
  truncated : p'.tally.truncated = p.tally.truncated

theorem dependents_of_refreshed (hv : p.graph.refreshCycles.vertex? i = some v) :
    v.dependents = p.graph.dependents i := by
  obtain ⟨b, hb⟩ := (upToCycles_refreshCycles p.graph).vertex_of' hv
  rw [dependents, hb]
  rfl

theorem isDirty_of_refreshed (hv : p.graph.refreshCycles.vertex? i = some v) (hd : v.dirty = true) :
    p.graph.isDirty i = true := by
  rw [← (upToCycles_refreshCycles p.graph).isDirty, isDirty_iff_of_vertex? hv, hd]

/-- A step that does anything is about a dirty vertex. -/
theorem Looked.isDirty {look : Look} (hl : Looked h limit p i look p') (hlook : look ≠ .idle) :
    p.graph.isDirty i = true := by
  cases hl with
  | idle => exact absurd rfl hlook
  | waits hd => exact hd
  | cycle hv hd => exact isDirty_of_refreshed hv hd
  | read hready => exact isDirty_of_refreshed hready.vertex hready.dirty
  | value hready => exact isDirty_of_refreshed hready.vertex hready.dirty
  | exhausted hready => exact isDirty_of_refreshed hready.vertex hready.dirty
  | rewired hready => exact isDirty_of_refreshed hready.vertex hready.dirty

/-- A step that settles a vertex puts those who read it into the queue. -/
theorem Looked.queue {look : Look} (hl : Looked h limit p i look p') :
    p'.queue = p.queue ++
      if look.settles then p.graph.dependents i else if look = .rewired then [i] else [] := by
  cases hl with
  | idle => exact (List.append_nil _).symm
  | waits => exact (List.append_nil _).symm
  | rewired => rfl
  | cycle hv => exact congrArg (p.queue ++ ·) (dependents_of_refreshed hv)
  | read hready => exact congrArg (p.queue ++ ·) (dependents_of_refreshed hready.vertex)
  | value hready => exact congrArg (p.queue ++ ·) (dependents_of_refreshed hready.vertex)
  | exhausted hready => exact congrArg (p.queue ++ ·) (dependents_of_refreshed hready.vertex)

/-- What has been done is counted. -/
theorem Looked.tally {look : Look} (hl : Looked h limit p i look p') :
    p'.tally.calculated = p.tally.calculated + (if look = .calculated then 1 else 0) ∧
      p'.tally.cycles = p.tally.cycles + (if look = .cycle then 1 else 0) ∧
      p'.tally.truncated = p.tally.truncated := by
  cases hl <;> exact ⟨rfl, rfl, rfl⟩

/-- A step that leaves the graph as it is, up to what is known about cycles. -/
theorem stepped_of_upToCycles {look : Look} (hl : Looked h limit p i look p') (hs : look.settles = false)
    (hr : look ≠ .rewired) (hwell : p.graph.WellFormed) (hknown : p'.graph.CyclesKnown)
    (hup : UpToCycles p.graph p'.graph) : Stepped look p i p' where
  wellFormed := hup.wellFormed hwell
  cycles := hknown
  dirty k := by simp [hup.isDirty, hs]
  vertex k v hv := by
    obtain ⟨b, hb⟩ := hup.vertex_of hv
    exact ⟨_, hb, rfl, rfl⟩
  rebuilds k v w hv hw _ := by
    obtain ⟨b, hb⟩ := hup.vertex_of hv
    rw [hw] at hb
    cases hb
    simp [hr]
  edge k l he _ := hup.edge_iff.2 he
  edge_new k l he := .inl (hup.edge_iff.1 he)
  queue := hl.queue
  marked hm := hup.marked.trans hm
  calculated := hl.tally.1
  failed := hl.tally.2.1
  truncated := hl.tally.2.2

/-- A step that settles a vertex. -/
theorem stepped_of_settles {look : Look} (hl : Looked h limit p i look p') (hs : look.settles = true)
    (hwell : p.graph.WellFormed) (hknown : p.graph.CyclesKnown) : Stepped look p i p' := by
  obtain ⟨f, hup, hclean, hcount⟩ := hl.updates hs
  have hchart := upToCycles_charted p.graph i
  have hr : look ≠ .rewired := by
    rintro rfl
    cases hs
  have hdead : ¬p'.graph.isDirty i = true := by
    intro hd
    obtain ⟨w, hw, hwd⟩ := isDirty_iff.1 hd
    rw [hup.vertex, if_pos rfl] at hw
    obtain ⟨v, -, rfl⟩ := Option.map_eq_some_iff.1 hw
    rw [hclean] at hwd
    cases hwd
  have hother (k : Slot) (hk : k ≠ i) : p'.graph.isDirty k = p.graph.isDirty k := by
    rw [← hchart.isDirty, Graph.isDirty, Graph.isDirty, hup.vertex_of_ne hk]
  refine ⟨hup.wellFormed (hchart.wellFormed hwell), hup.cyclesKnown (hknown.charted i), fun k => ?_,
    fun k v hv => ?_, fun k v w hv hw hwd => ?_, fun k l he _ => hup.edge_iff.2 (hchart.edge_iff.2 he),
    fun k l he => .inl (hchart.edge_iff.1 (hup.edge_iff.1 he)), hl.queue,
    fun hm => (hup.marked.trans hchart.marked).trans hm, hl.tally.1, hl.tally.2.1, hl.tally.2.2⟩
  · by_cases hk : k = i
    · subst hk
      simp [hdead, hs]
    · simp [hother k hk, hk]
  · obtain ⟨b, hb⟩ := hchart.vertex_of hv
    by_cases hk : k = i
    · subst hk
      exact ⟨_, hup.vertex_self hb, hup.keeps.position _, hup.keeps.content _⟩
    · exact ⟨_, (hup.vertex_of_ne hk).trans hb, rfl, rfl⟩
  · obtain ⟨b, hb⟩ := hchart.vertex_of hv
    by_cases hk : k = i
    · subst hk
      exact absurd (isDirty_iff.2 ⟨w, hw, hwd⟩) hdead
    · rw [hup.vertex_of_ne hk, hb] at hw
      cases hw
      simp [hr]

/-- A step that replaces the dependencies of a vertex. -/
theorem stepped_of_rewired {state : σ} {d : Dependencies} (hd : p.graph.isDirty i = true)
    (hwell : p.graph.WellFormed) (hknown : p.graph.CyclesKnown) (hp' : Looked h limit p i .rewired p')
    (hgraph : p'.graph = { (p.retried i state).graph.rewire i d with
      marked := ((p.retried i state).graph.rewire i d).marked.filter (· != i) }) :
    Stepped .rewired p i p' := by
  have hchart := upToCycles_charted p.graph i
  have hcount := updates_retried p i state
  have hwell' := hcount.wellFormed (hchart.wellFormed hwell)
  have hdirty (k : Slot) : (p.retried i state).graph.isDirty k = p.graph.isDirty k := by
    rw [← hchart.isDirty, Graph.isDirty, Graph.isDirty, hcount.vertex]
    split
    · cases (p.graph.charted i).vertex? k <;> rfl
    · rfl
  have hlive (k : Slot) : (p.retried i state).graph.Live k ↔ p.graph.Live k := by
    rw [hcount.live_iff, hchart.live_iff]
  have hedge (k l : Slot) : (p.retried i state).graph.Edge k l ↔ p.graph.Edge k l := by
    rw [hcount.edge_iff, hchart.edge_iff]
  have hre := hwell'.rewired ((hdirty i).trans hd) d
  have hsame (k : Slot) : p'.graph.vertex? k = ((p.retried i state).graph.rewire i d).vertex? k := by
    rw [hgraph]
    rfl
  have hsameEdge (k l : Slot) :
      p'.graph.Edge k l ↔ ((p.retried i state).graph.rewire i d).Edge k l := by
    rw [Edge, Edge, hsame]
  have hwell'' := hwell'.rewire i d
  have hknown' : (p.retried i state).graph.CyclesKnown := hcount.cyclesKnown (hknown.charted i)
  have hvertex (k : Slot) (v : Vertex) (hv : p.graph.vertex? k = some v) :
      ∃ w, p'.graph.vertex? k = some w ∧ w.position = v.position ∧ w.content = v.content ∧
        w.dirty = v.dirty ∧ w.rebuilds = if k = i then v.rebuilds + 1 else v.rebuilds := by
    obtain ⟨b, hb⟩ := hchart.vertex_of hv
    by_cases hk : k = i
    · subst hk
      obtain ⟨w, hw, hcore⟩ := hre.vertex k _ (hcount.vertex_self hb)
      rw [if_pos rfl] at hcore ⊢
      exact ⟨w, (hsame k).trans hw, (congrArg Vertex.position hcore :), (congrArg Vertex.content hcore :),
        (congrArg Vertex.dirty hcore :), (congrArg Vertex.rebuilds hcore :)⟩
    · obtain ⟨w, hw, hcore⟩ := hre.vertex k _ ((hcount.vertex_of_ne hk).trans hb)
      rw [if_neg hk] at hcore ⊢
      exact ⟨w, (hsame k).trans hw, (congrArg Vertex.position hcore :), (congrArg Vertex.content hcore :),
        (congrArg Vertex.dirty hcore :), (congrArg Vertex.rebuilds hcore :)⟩
  refine ⟨?_, ?_, fun k => ?_, fun k v hv => ?_, fun k v w hv hw _ => ?_, fun k l he hl => ?_, fun k l he => ?_,
    hp'.queue, fun hm => ?_, hp'.tally.1, hp'.tally.2.1, hp'.tally.2.2⟩
  · rw [hgraph]
    exact ⟨hwell''.place, hwell''.free, hwell''.free_nodup, hwell''.linked⟩
  · rw [hgraph]
    exact hknown'.rewire hwell' i d
  · rw [show p'.graph.isDirty k = ((p.retried i state).graph.rewire i d).isDirty k from
      congrArg (Option.any Vertex.dirty) (hsame k), hre.dirty, hdirty]
    simp [Look.settles]
  · obtain ⟨w, hw, hpos, hcont, -, -⟩ := hvertex k v hv
    exact ⟨w, hw, hpos, hcont⟩
  · obtain ⟨w', hw', -, -, -, hreb⟩ := hvertex k v hv
    rw [hw] at hw'
    cases hw'
    simpa using hreb
  · exact (hsameEdge k l).2 (hre.edge k l ((hedge k l).2 he) fun hc => hl ⟨rfl, hc⟩)
  · rcases hre.edge_new k l ((hsameEdge k l).1 he) with he | hl | hk
    · exact .inl ((hedge k l).1 he)
    · exact .inr ⟨rfl, .inl hl⟩
    · exact .inr ⟨rfl, .inr (mt (hlive k).2 hk)⟩
  · rw [hgraph]
    change List.filter _ _ = []
    rw [hre.marked, hcount.marked, hchart.marked, hm]
    rfl

theorem Looked.stepped {look : Look} (hl : Looked h limit p i look p') (hwell : p.graph.WellFormed)
    (hknown : p.graph.CyclesKnown) : Stepped look p i p' := by
  have hlooked := hl
  cases hl with
  | idle =>
    exact stepped_of_upToCycles hlooked rfl Look.noConfusion hwell hknown.refreshCycles
      (upToCycles_refreshCycles _)
  | waits =>
    exact stepped_of_upToCycles hlooked rfl Look.noConfusion hwell (hknown.charted i) (upToCycles_charted _ i)
  | cycle => exact stepped_of_settles hlooked rfl hwell hknown
  | read => exact stepped_of_settles hlooked rfl hwell hknown
  | value => exact stepped_of_settles hlooked rfl hwell hknown
  | exhausted => exact stepped_of_settles hlooked rfl hwell hknown
  | rewired => exact stepped_of_rewired (hlooked.isDirty Look.noConfusion) hwell hknown hlooked rfl

/-- What a step of a pass changes. -/
theorem stepped_step (hwell : p.graph.WellFormed) (hknown : p.graph.CyclesKnown) (h : Handler σ) (limit : Nat)
    (i : Slot) : Stepped (look h limit p i) p i (step h limit p i) :=
  (looked_step hknown h limit i).stepped hwell hknown

end Pass

end Spreadsheet.Graph
