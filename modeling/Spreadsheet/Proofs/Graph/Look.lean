import Spreadsheet.Graph.Pass
import Spreadsheet.Proofs.Graph.Sound

/-!
Looking at one slot. A pass finds out whether the vertex in the slot is on a cycle, and from that, the
marks of its inputs and what the handler answers it follows how it deals with the vertex.
-/

namespace Spreadsheet.Graph

variable {g g' : Graph} {i j k l : Slot} {p : Position}

/-! ### What is found out about cycles -/

/-- Two graphs that differ in nothing but what is known about cycles. -/
structure UpToCycles (g g' : Graph) : Prop where
  vertex : ∀ k, ∃ b, g'.vertex? k = (g.vertex? k).map fun v => { v with onCycle := b }
  size : g'.slots.size = g.slots.size
  free : g'.free = g.free
  places : g'.places = g.places
  listeners : g'.listeners = g.listeners
  volatiles : g'.volatiles = g.volatiles
  marked : g'.marked = g.marked

namespace UpToCycles

theorem refl (g : Graph) : UpToCycles g g where
  vertex k := by
    cases hv : g.vertex? k with
    | none => exact ⟨none, by simp⟩
    | some v => exact ⟨v.onCycle, by simp⟩
  size := rfl
  free := rfl
  places := rfl
  listeners := rfl
  volatiles := rfl
  marked := rfl

theorem trans {g₁ g₂ g₃ : Graph} (h : UpToCycles g₁ g₂) (h' : UpToCycles g₂ g₃) : UpToCycles g₁ g₃ where
  vertex k := by
    obtain ⟨b, hb⟩ := h.vertex k
    obtain ⟨c, hc⟩ := h'.vertex k
    exact ⟨c, by rw [hc, hb, Option.map_map]; rfl⟩
  size := h'.size.trans h.size
  free := h'.free.trans h.free
  places := h'.places.trans h.places
  listeners := h'.listeners.trans h.listeners
  volatiles := h'.volatiles.trans h.volatiles
  marked := h'.marked.trans h.marked

/-- Up to what is known about cycles a vertex is the same in both graphs. -/
theorem vertex_of (h : UpToCycles g g') {v : Vertex} (hv : g.vertex? k = some v) :
    ∃ b, g'.vertex? k = some { v with onCycle := b } := by
  obtain ⟨b, hb⟩ := h.vertex k
  exact ⟨b, by rw [hb, hv, Option.map_some]⟩

theorem vertex_of' (h : UpToCycles g g') {v : Vertex} (hv : g'.vertex? k = some v) :
    ∃ b, g.vertex? k = some { v with onCycle := b } := by
  obtain ⟨b, hb⟩ := h.vertex k
  cases hw : g.vertex? k with
  | none => simp [hw, hv] at hb
  | some w =>
    rw [hv, hw, Option.map_some, Option.some.injEq] at hb
    exact ⟨w.onCycle, by rw [hb]⟩

theorem edge_iff (h : UpToCycles g g') : g'.Edge k l ↔ g.Edge k l := by
  obtain ⟨b, hb⟩ := h.vertex k
  rw [Edge, Edge, hb]
  cases g.vertex? k <;> simp

theorem input_iff (h : UpToCycles g g') : g'.Input k l ↔ g.Input k l := by
  obtain ⟨b, hb⟩ := h.vertex l
  rw [Input, Input, hb]
  cases g.vertex? l <;> simp

theorem live_iff (h : UpToCycles g g') : g'.Live k ↔ g.Live k := by
  obtain ⟨b, hb⟩ := h.vertex k
  rw [Live, Live, hb]
  cases g.vertex? k <;> simp

theorem isDirty (h : UpToCycles g g') (k : Slot) : g'.isDirty k = g.isDirty k := by
  obtain ⟨b, hb⟩ := h.vertex k
  rw [Graph.isDirty, Graph.isDirty, hb]
  cases g.vertex? k <;> rfl

theorem slot? (h : UpToCycles g g') (p : Position) : g'.slot? p = g.slot? p := by
  rw [Graph.slot?, Graph.slot?, h.places]

theorem wellFormed (h : UpToCycles g g') (hg : g.WellFormed) : g'.WellFormed where
  place p i := by
    obtain ⟨b, hb⟩ := h.vertex i
    rw [h.slot?, hg.place, core?, core?, hb]
    cases g.vertex? i <;> simp [Vertex.core]
  free i := by rw [h.free, h.size, h.live_iff, hg.free]
  free_nodup := h.free ▸ hg.free_nodup
  linked i j := by rw [h.edge_iff, h.input_iff, hg.linked]

theorem noted (h : UpToCycles g g') (hg : g.Noted) : g'.Noted :=
  hg.of_dirty (fun k hk => h.isDirty k ▸ hk) fun _ _ hk => h.marked ▸ hk

end UpToCycles

theorem vertex?_refreshCycles (h : g.cyclesStale = true) (k : Slot) :
    g.refreshCycles.vertex? k = (g.vertex? k).map fun v => { v with onCycle := none } := by
  unfold refreshCycles vertex?
  rw [if_pos h, Array.getElem?_map]
  cases g.slots[k]? <;> rfl

theorem upToCycles_refreshCycles (g : Graph) : UpToCycles g g.refreshCycles := by
  by_cases h : g.cyclesStale = true
  · refine ⟨fun k => ⟨none, vertex?_refreshCycles h k⟩, ?_, ?_, ?_, ?_, ?_, ?_⟩ <;>
      simp [refreshCycles, h]
  · unfold refreshCycles
    rw [if_neg h]
    exact .refl g

theorem cyclesStale_refreshCycles (g : Graph) : g.refreshCycles.cyclesStale = false := by
  unfold refreshCycles
  split
  · rfl
  · rename_i h
    simpa using h

theorem CyclesKnown.refreshCycles (h : g.CyclesKnown) : g.refreshCycles.CyclesKnown := by
  by_cases hstale : g.cyclesStale = true
  · intro _ k v b hv hb
    rw [vertex?_refreshCycles hstale] at hv
    obtain ⟨w, -, rfl⟩ := Option.map_eq_some_iff.1 hv
    cases hb
  · unfold Graph.refreshCycles
    rwa [if_neg hstale]

theorem upToCycles_checkCycle (g : Graph) (i : Slot) : UpToCycles g (g.checkCycle i).2 := by
  unfold checkCycle
  split
  · exact .refl g
  · refine ⟨fun k => ?_, size_modify .., free_modify .., places_modify .., listeners_modify ..,
      volatiles_modify .., marked_modify ..⟩
    simp only [vertex?_modify]
    split
    · exact ⟨_, rfl⟩
    · exact (UpToCycles.refl g).vertex k

theorem cyclesStale_checkCycle (g : Graph) (i : Slot) : (g.checkCycle i).2.cyclesStale = g.cyclesStale := by
  unfold checkCycle
  split
  · rfl
  · exact cyclesStale_modify ..

/-- The answer is right. -/
theorem CyclesKnown.checkCycle_iff (h : g.CyclesKnown) (hfresh : g.cyclesStale = false) :
    (g.checkCycle i).1 = true ↔ g.OnCycle i := by
  unfold checkCycle
  split
  · rename_i b hb
    obtain ⟨v, hv, hb⟩ := Option.bind_eq_some_iff.1 hb
    exact h hfresh i v b hv hb
  · exact isOnCycle_iff

theorem CyclesKnown.checkCycle (h : g.CyclesKnown) (i : Slot) : (g.checkCycle i).2.CyclesKnown := by
  intro hfresh k v b hv hb
  rw [cyclesStale_checkCycle] at hfresh
  rw [onCycle_congr fun k l => (upToCycles_checkCycle g i).edge_iff]
  unfold Graph.checkCycle at hv
  split at hv
  · exact h hfresh k v b hv hb
  · simp only [vertex?_modify] at hv
    split at hv
    · rename_i hk
      subst hk
      obtain ⟨w, -, rfl⟩ := Option.map_eq_some_iff.1 hv
      cases hb
      exact isOnCycle_iff
    · exact h hfresh k v b hv hb

/-- The graph in which it is known whether the vertex in a slot is on a cycle. -/
def charted (g : Graph) (i : Slot) : Graph := (g.refreshCycles.checkCycle i).2

theorem upToCycles_charted (g : Graph) (i : Slot) : UpToCycles g (g.charted i) :=
  (upToCycles_refreshCycles g).trans (upToCycles_checkCycle _ i)

theorem CyclesKnown.charted (h : g.CyclesKnown) (i : Slot) : (g.charted i).CyclesKnown :=
  h.refreshCycles.checkCycle i

theorem Sound.charted (h : g.Sound) (i : Slot) : (g.charted i).Sound :=
  ⟨(upToCycles_charted g i).wellFormed h.toWellFormed, h.cycles.charted i,
    (upToCycles_charted g i).noted h.noted⟩

/-! ### How a slot is dealt with -/

namespace Pass

variable {σ : Type} {h : Handler σ} {limit : Nat} {p p' : Pass σ} {v : Vertex}

/-- How a pass deals with a slot. -/
inductive Look where
  /-- No dirty vertex stands there. -/
  | idle
  /-- The vertex is on a cycle and fails. -/
  | cycle
  /-- An input of the vertex is dirty. -/
  | waits
  /-- The vertex has been calculated. -/
  | calculated
  /-- The dependencies have been replaced too often, and the vertex fails. -/
  | exhausted
  /-- The dependencies are replaced. -/
  | rewired
deriving DecidableEq

/-- Whether the work on the vertex is at its end. -/
def Look.settles : Look → Bool
  | cycle | calculated | exhausted => true
  | idle | waits | rewired => false

/-- How a pass deals with the slot that it looks at. -/
def look (h : Handler σ) (limit : Nat) (p : Pass σ) (i : Slot) : Look :=
  match p.graph.refreshCycles.vertex? i with
  | none => .idle
  | some v =>
    if v.dirty then
      if p.graph.isOnCycle i then .cycle
      else if v.inputs.any p.graph.isDirty then .waits
      else
        match v.expression? with
        | none => .calculated
        | some e =>
          match ((h.calculate v e).run p.state).1 with
          | .value _ _ => .calculated
          | .rewire _ => if limit ≤ v.rebuilds then .exhausted else .rewired
    else .idle

/-- A dirty vertex that is not on a cycle and whose inputs are clean. -/
structure Ready (p : Pass σ) (i : Slot) (v : Vertex) : Prop where
  vertex : p.graph.refreshCycles.vertex? i = some v
  dirty : v.dirty = true
  acyclic : ¬p.graph.OnCycle i
  inputs : ∀ k ∈ v.inputs, ¬p.graph.isDirty k = true

/-- The pass after a vertex has been noted to have its dependencies replaced once more. -/
def retried (p : Pass σ) (i : Slot) (state : σ) : Pass σ :=
  { p with
    graph := (p.graph.charted i).modify i fun v => { v with rebuilds := v.rebuilds + 1 }
    tally.rebuilds := p.tally.rebuilds + 1
    state }

/-- What a pass comes to when it looks at a slot, for each of the ways to deal with it. -/
inductive Looked (h : Handler σ) (limit : Nat) (p : Pass σ) (i : Slot) : Look → Pass σ → Prop
  | idle (hclean : ¬p.graph.isDirty i = true) :
    Looked h limit p i .idle { p with graph := p.graph.refreshCycles }
  | cycle {v : Vertex} (hv : p.graph.refreshCycles.vertex? i = some v) (hd : v.dirty = true)
    (hcycle : p.graph.OnCycle i) :
    Looked h limit p i .cycle
      (settle h { p with graph := p.graph.charted i, tally.cycles := p.tally.cycles + 1 } i v failure)
  | waits {k : Slot} (hd : p.graph.isDirty i = true) (hcycle : ¬p.graph.OnCycle i)
    (hk : p.graph.Input k i) (hdirty : p.graph.isDirty k = true) :
    Looked h limit p i .waits { p with graph := p.graph.charted i }
  | read {v : Vertex} (hready : p.Ready i v) (hvalue : v.expression? = none) :
    Looked h limit p i .calculated
      (finish h
        { p with graph := p.graph.charted i, state := ((h.read v.position).run p.state).2 } i v
        ((h.read v.position).run p.state).1)
  | value {v : Vertex} {e : Expression} {x : Value} {volatile : Bool} {state : σ} (hready : p.Ready i v)
    (he : v.expression? = some e) (hrun : (h.calculate v e).run p.state = (.value x volatile, state)) :
    Looked h limit p i .calculated
      (finish h { p with graph := noteVolatile (p.graph.charted i) i volatile, state } i v x)
  | exhausted {v : Vertex} {e : Expression} {d : Dependencies} {state : σ} (hready : p.Ready i v)
    (he : v.expression? = some e) (hrun : (h.calculate v e).run p.state = (.rewire d, state))
    (hlimit : limit ≤ v.rebuilds) :
    Looked h limit p i .exhausted (settle h (p.retried i state) i v failure)
  | rewired {v : Vertex} {e : Expression} {d : Dependencies} {state : σ} (hready : p.Ready i v)
    (he : v.expression? = some e) (hrun : (h.calculate v e).run p.state = (.rewire d, state))
    (hlimit : v.rebuilds < limit) :
    Looked h limit p i .rewired
      { p.retried i state with
        graph := { (p.retried i state).graph.rewire i d with
          marked := ((p.retried i state).graph.rewire i d).marked.filter (· != i) }
        queue := p.queue ++ [i] }

theorem checkCycle_refreshCycles (hcycles : p.graph.CyclesKnown) (i : Slot) :
    (p.graph.refreshCycles.checkCycle i).1 = true ↔ p.graph.OnCycle i := by
  rw [hcycles.refreshCycles.checkCycle_iff (cyclesStale_refreshCycles _),
    onCycle_congr fun k l => (upToCycles_refreshCycles p.graph).edge_iff]

/-- What a pass comes to when it calculates a vertex whose inputs are clean. -/
theorem looked_calculate (hready : p.Ready i v) (l : Look)
    (hl : l = match v.expression? with
      | none => .calculated
      | some e =>
        match ((h.calculate v e).run p.state).1 with
        | .value _ _ => .calculated
        | .rewire _ => if limit ≤ v.rebuilds then .exhausted else .rewired) :
    Looked h limit p i l (calculate h limit { p with graph := p.graph.charted i } i v) := by
  subst hl
  unfold calculate
  cases he : v.expression? with
  | none => exact .read hready he
  | some e =>
    simp only
    cases hrun : (h.calculate v e).run p.state with
    | mk outcome state =>
      cases outcome with
      | value x volatile => exact .value hready he hrun
      | rewire d =>
        simp only [rebuild]
        by_cases hlimit : limit ≤ v.rebuilds
        · rw [if_pos hlimit, if_pos hlimit]
          exact .exhausted hready he hrun hlimit
        · rw [if_neg hlimit, if_neg hlimit]
          exact .rewired hready he hrun (Nat.lt_of_not_le hlimit)

/-- What is known of a pass after it has looked at a slot. -/
theorem looked_step (hcycles : p.graph.CyclesKnown) (h : Handler σ) (limit : Nat) (i : Slot) :
    Looked h limit p i (look h limit p i) (step h limit p i) := by
  have hrefresh := upToCycles_refreshCycles p.graph
  unfold look step
  cases hv : p.graph.refreshCycles.vertex? i with
  | none =>
    simp only [hv]
    refine .idle ?_
    rw [← hrefresh.isDirty, isDirty, hv]
    exact Bool.false_ne_true
  | some v =>
    simp only [hv]
    have hdirty : p.graph.isDirty i = true ↔ v.dirty = true := by
      rw [← hrefresh.isDirty, isDirty_iff_of_vertex? hv]
    by_cases hd : v.dirty = true
    · have hcheck := checkCycle_refreshCycles hcycles i
      rw [if_pos hd, if_pos hd]
      by_cases hcycle : p.graph.OnCycle i
      · rw [if_pos (isOnCycle_iff.2 hcycle), if_pos (hcheck.2 hcycle)]
        exact .cycle hv hd hcycle
      · rw [if_neg (mt isOnCycle_iff.1 hcycle), if_neg (mt hcheck.1 hcycle)]
        have hany : v.inputs.any (p.graph.charted i).isDirty = v.inputs.any p.graph.isDirty := by
          rw [show (p.graph.charted i).isDirty = p.graph.isDirty from
            funext (upToCycles_charted p.graph i).isDirty]
        change Looked h limit p i _ (if v.inputs.any (p.graph.charted i).isDirty = true then _ else _)
        rw [hany]
        by_cases hwait : v.inputs.any p.graph.isDirty = true
        · rw [if_pos hwait, if_pos hwait]
          obtain ⟨k, hk, hkd⟩ := List.any_eq_true.1 hwait
          exact .waits (hdirty.2 hd) hcycle (hrefresh.input_iff.1 ((input_iff_of_vertex? hv).2 hk)) hkd
        · rw [if_neg hwait, if_neg hwait]
          refine looked_calculate ⟨hv, hd, hcycle, fun k hk hkd => hwait ?_⟩ _ rfl
          exact List.any_eq_true.2 ⟨k, hk, hkd⟩
    · rw [if_neg hd, if_neg hd]
      exact .idle (mt hdirty.1 hd)

end Pass

end Spreadsheet.Graph
