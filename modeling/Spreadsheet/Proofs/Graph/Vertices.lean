import Spreadsheet.Proofs.Graph.WellFormed

/-!
Vertices that come and go. A new vertex takes a free slot and is connected with those who listen to its
cell; a removed vertex leaves its slot free and no edge behind.
-/

namespace Spreadsheet.Graph

variable {g : Graph} {i j k l : Slot} {p q : Position}

/-! ### Connecting one vertex with many -/

/-- The graph with edges from one vertex to some. -/
def connectTo (g : Graph) (i : Slot) (js : List Slot) : Graph :=
  js.foldl (fun g j => g.connect i j) g

/-- The graph with edges from some vertices to one. -/
def connectFrom (g : Graph) (js : List Slot) (i : Slot) : Graph :=
  js.foldl (fun g j => g.connect j i) g

theorem sameCore_connectTo (g : Graph) (i : Slot) (js : List Slot) :
    SameCore g (g.connectTo i js) := by
  induction js generalizing g with
  | nil => exact .refl g
  | cons j js ih => exact (sameCore_connect g i j).trans (ih _)

theorem sameCore_connectFrom (g : Graph) (js : List Slot) (i : Slot) :
    SameCore g (g.connectFrom js i) := by
  induction js generalizing g with
  | nil => exact .refl g
  | cons j js ih => exact (sameCore_connect g j i).trans (ih _)

theorem edge_connectTo (js : List Slot) :
    (g.connectTo i js).Edge k l ↔ g.Edge k l ∨ (g.Live i ∧ g.Live l) ∧ k = i ∧ l ∈ js := by
  induction js generalizing g with
  | nil => simp [connectTo]
  | cons j js ih =>
    change ((g.connect i j).connectTo i js).Edge k l ↔ _
    rw [ih, edge_connect, (sameCore_connect g i j).live_iff, (sameCore_connect g i j).live_iff,
      List.mem_cons]
    constructor
    · rintro ((h | ⟨⟨hi, hj⟩, rfl, rfl⟩) | ⟨hlive, rfl, hmem⟩)
      · exact .inl h
      · exact .inr ⟨⟨hi, hj⟩, rfl, .inl rfl⟩
      · exact .inr ⟨hlive, rfl, .inr hmem⟩
    · rintro (h | ⟨hlive, rfl, rfl | hmem⟩)
      · exact .inl (.inl h)
      · exact .inl (.inr ⟨hlive, rfl, rfl⟩)
      · exact .inr ⟨hlive, rfl, hmem⟩

theorem edge_connectFrom (js : List Slot) :
    (g.connectFrom js i).Edge k l ↔ g.Edge k l ∨ (g.Live k ∧ g.Live i) ∧ k ∈ js ∧ l = i := by
  induction js generalizing g with
  | nil => simp [connectFrom]
  | cons j js ih =>
    change ((g.connect j i).connectFrom js i).Edge k l ↔ _
    rw [ih, edge_connect, (sameCore_connect g j i).live_iff, (sameCore_connect g j i).live_iff,
      List.mem_cons]
    constructor
    · rintro ((h | ⟨⟨hj, hi⟩, rfl, rfl⟩) | ⟨hlive, hmem, rfl⟩)
      · exact .inl h
      · exact .inr ⟨⟨hj, hi⟩, .inl rfl, rfl⟩
      · exact .inr ⟨hlive, .inr hmem, rfl⟩
    · rintro (h | ⟨hlive, rfl | hmem, rfl⟩)
      · exact .inl (.inl h)
      · exact .inl (.inr ⟨hlive, rfl, rfl⟩)
      · exact .inr ⟨hlive, hmem, rfl⟩

theorem WellFormed.connectTo (h : g.WellFormed) (i : Slot) (js : List Slot) :
    (g.connectTo i js).WellFormed := by
  induction js generalizing g with
  | nil => exact h
  | cons j js ih => exact ih (h.connect i j)

theorem WellFormed.connectFrom (h : g.WellFormed) (js : List Slot) (i : Slot) :
    (g.connectFrom js i).WellFormed := by
  induction js generalizing g with
  | nil => exact h
  | cons j js ih => exact ih (h.connect j i)

/-! ### New vertices -/

/-- A new vertex stands in a slot that held none, and all other slots stay as they are. -/
structure Allocated (g : Graph) (v : Vertex) (i : Slot) (g' : Graph) : Prop where
  dead : ¬g.Live i
  lt_size : i < g'.slots.size
  vertex : ∀ k, g'.vertex? k = if i = k then some v else g.vertex? k
  free : ∀ k, k ∈ g'.free ↔ k ∈ g.free ∧ k ≠ i
  free_nodup : g'.free.Nodup
  size : ∀ k, k < g'.slots.size ↔ k < g.slots.size ∨ k = i
  places : g'.places = g.places
  listeners : g'.listeners = g.listeners
  volatiles : g'.volatiles = g.volatiles
  marked : g'.marked = g.marked
  cyclesStale : g'.cyclesStale = g.cyclesStale

theorem allocated_allocate (hfree : ∀ i, i ∈ g.free ↔ i < g.slots.size ∧ ¬g.Live i)
    (hnodup : g.free.Nodup) (v : Vertex) : Allocated g v (g.allocate v).1 (g.allocate v).2 := by
  unfold allocate
  split
  · rename_i i rest hlist
    obtain ⟨hi, hdead⟩ := (hfree i).1 (by simp [hlist])
    rw [hlist, List.nodup_cons] at hnodup
    refine ⟨hdead, by simpa [put] using hi, fun k => ?_, fun k => ?_, hnodup.2, fun k => ?_, rfl, rfl,
      rfl, rfl, rfl⟩
    · change (g.put i v).vertex? k = _
      rw [vertex?_put]
      by_cases hk : i = k
      · subst hk
        simp [hi]
      · simp [hk]
    · rw [hlist, List.mem_cons]
      constructor
      · intro hk
        refine ⟨.inr hk, ?_⟩
        rintro rfl
        exact hnodup.1 hk
      · rintro ⟨rfl | hk, hne⟩
        · exact absurd rfl hne
        · exact hk
    · simp only [put, Array.size_setIfInBounds]
      constructor
      · exact .inl
      · rintro (hk | rfl)
        · exact hk
        · exact hi
  · rename_i hlist
    have hdead : ¬g.Live g.slots.size := by
      rintro ⟨v, hv⟩
      exact absurd (lt_size_of_vertex? hv) (Nat.lt_irrefl _)
    refine ⟨hdead, by simp, fun k => ?_, fun k => ?_, by simp [hlist], fun k => ?_, rfl, rfl, rfl, rfl, rfl⟩
    · unfold vertex?
      rw [Array.getElem?_push]
      by_cases hk : k = g.slots.size
      · simp [hk]
      · simp [hk, Ne.symm hk]
    · simp [hlist]
    · simp only [Array.size_push]
      constructor
      · intro hk
        rcases Nat.lt_succ_iff_lt_or_eq.1 hk with hk | hk
        · exact .inl hk
        · exact .inr hk
      · rintro (hk | rfl)
        · exact Nat.lt_succ_of_lt hk
        · exact Nat.lt_succ_self _

/-- The graph with a new vertex for a cell, which is not connected yet. -/
def introduce (g : Graph) (p : Position) : Graph :=
  { (g.allocate { position := p }).2 with
    places := (g.allocate { position := p }).2.places.insert p (g.allocate { position := p }).1 }

/-- The slot that the next new vertex takes. -/
def nextSlot (g : Graph) (p : Position) : Slot := (g.allocate { position := p }).1

theorem ensure_of_slot? (hp : g.slot? p = some i) : g.ensure p = (i, g) := by
  simp only [ensure, hp]

theorem ensure_of_none (hp : g.slot? p = none) :
    g.ensure p =
      (g.nextSlot p, (g.introduce p).connectTo (g.nextSlot p) ((g.introduce p).listenersOf p)) := by
  simp only [ensure, hp]
  rfl

theorem WellFormed.allocated (h : g.WellFormed) (p : Position) :
    Allocated g { position := p } (g.nextSlot p) (g.allocate { position := p }).2 :=
  allocated_allocate h.free h.free_nodup _

theorem WellFormed.vertex?_introduce (h : g.WellFormed) (p : Position) (k : Slot) :
    (g.introduce p).vertex? k = if g.nextSlot p = k then some { position := p } else g.vertex? k :=
  (h.allocated p).vertex k

theorem WellFormed.edge_introduce (h : g.WellFormed) (p : Position) :
    (g.introduce p).Edge k l ↔ g.Edge k l := by
  unfold Edge
  rw [h.vertex?_introduce p k]
  by_cases hk : g.nextSlot p = k
  · subst hk
    have hnot : ¬∃ v, g.vertex? (g.nextSlot p) = some v ∧ l ∈ v.dependents := by
      rintro ⟨v, hv, -⟩
      exact (h.allocated p).dead ⟨v, hv⟩
    simp [hnot]
  · rw [if_neg hk]

theorem WellFormed.input_introduce (h : g.WellFormed) (p : Position) :
    (g.introduce p).Input k l ↔ g.Input k l := by
  unfold Input
  rw [h.vertex?_introduce p l]
  by_cases hl : g.nextSlot p = l
  · subst hl
    have hnot : ¬∃ v, g.vertex? (g.nextSlot p) = some v ∧ k ∈ v.inputs := by
      rintro ⟨v, hv, -⟩
      exact (h.allocated p).dead ⟨v, hv⟩
    simp [hnot]
  · rw [if_neg hl]

theorem WellFormed.live_introduce (h : g.WellFormed) (p : Position) :
    (g.introduce p).Live k ↔ g.Live k ∨ k = g.nextSlot p := by
  unfold Live
  rw [h.vertex?_introduce p k]
  by_cases hk : g.nextSlot p = k
  · simp [hk]
  · simp [hk, Ne.symm hk]

theorem WellFormed.slot?_introduce (h : g.WellFormed) (p q : Position) :
    (g.introduce p).slot? q = if p = q then some (g.nextSlot p) else g.slot? q := by
  unfold slot? introduce
  rw [Std.TreeMap.getElem?_insert, (h.allocated p).places]
  simp only [Std.LawfulEqCmp.compare_eq_iff_eq]
  rfl

theorem WellFormed.introduce (h : g.WellFormed) (hp : g.slot? p = none) :
    (g.introduce p).WellFormed where
  place q k := by
    rw [h.slot?_introduce p q]
    unfold core?
    rw [h.vertex?_introduce p k]
    by_cases hq : p = q
    · subst hq
      rw [if_pos rfl]
      constructor
      · intro hk
        cases hk
        simp [Vertex.core]
      · intro hk
        by_cases hslot : g.nextSlot p = k
        · simp [hslot]
        · rw [if_neg hslot] at hk
          have hk := (h.place p k).2 hk
          rw [hp] at hk
          cases hk
    · rw [if_neg hq, h.place]
      by_cases hslot : g.nextSlot p = k
      · subst hslot
        constructor
        · rintro ⟨c, hc, -⟩
          exact absurd (live_iff_core?.2 ⟨c, hc⟩) (h.allocated p).dead
        · simp only [↓reduceIte, Option.map_some, Option.some.injEq]
          rintro ⟨c, rfl, hpos⟩
          exact absurd hpos hq
      · rw [if_neg hslot]
        rfl
  free k := by
    have hsize : k < (g.introduce p).slots.size ↔ k < g.slots.size ∨ k = g.nextSlot p :=
      (h.allocated p).size k
    have hfree : k ∈ (g.introduce p).free ↔ k ∈ g.free ∧ k ≠ g.nextSlot p := (h.allocated p).free k
    rw [hfree, hsize, h.live_introduce, h.free]
    tauto
  free_nodup := (h.allocated p).free_nodup
  linked k l := by rw [h.edge_introduce, h.input_introduce, h.linked k l]

/-- After a cell has been given a vertex it has one. -/
theorem WellFormed.slot?_ensure (h : g.WellFormed) (p : Position) :
    (g.ensure p).2.slot? p = some (g.ensure p).1 := by
  cases hp : g.slot? p with
  | some i =>
    rw [ensure_of_slot? hp]
    exact hp
  | none =>
    rw [ensure_of_none hp]
    simp only [(sameCore_connectTo _ _ _).slot?, h.slot?_introduce, ↓reduceIte]

theorem WellFormed.listeners_ensure (h : g.WellFormed) (p : Position) : (g.ensure p).2.listeners = g.listeners := by
  cases hp : g.slot? p with
  | some i => rw [ensure_of_slot? hp]
  | none =>
    rw [ensure_of_none hp]
    exact (sameCore_connectTo _ _ _).listeners.trans (h.allocated p).listeners

theorem WellFormed.ensure (h : g.WellFormed) (p : Position) : (g.ensure p).2.WellFormed := by
  cases hp : g.slot? p with
  | some i => rwa [ensure_of_slot? hp]
  | none =>
    rw [ensure_of_none hp]
    exact (h.introduce hp).connectTo _ _

/-! ### Vertices that are removed -/

theorem core?_isolate (g : Graph) (i k : Slot) :
    (g.isolate i).core? k = (g.clearInputs i).core? k := by
  unfold isolate
  simp only
  split
  · rfl
  · rename_i v hv
    have hcore := (sameCore_modify (g := g.clearInputs i) (i := i) (f := forgetDependents) fun _ => rfl).trans
      (sameCore_dropInputs _ v.dependents i)
    exact hcore.core k

theorem sameFrame_isolate (g : Graph) (i : Slot) : SameFrame g (g.isolate i) := by
  refine (sameFrame_clearInputs g i).trans ?_
  unfold isolate
  simp only
  split
  · exact .refl _
  · rename_i v hv
    exact (sameFrame_modify _ i forgetDependents).trans (sameCore_dropInputs _ v.dependents i).toSameFrame

theorem live_isolate : (g.isolate i).Live k ↔ g.Live k := by
  rw [live_iff_core?, core?_isolate, ← live_iff_core?, live_clearInputs]

/-- Isolating a vertex takes away exactly its edges. -/
theorem edge_isolate (h : g.Linked) :
    (g.isolate i).Edge k l ↔ g.Edge k l ∧ k ≠ i ∧ l ≠ i := by
  unfold isolate
  simp only
  split
  · rename_i hv
    have hdead : ¬(g.clearInputs i).Live i := by simp [Live, hv]
    have hnone : g.Edge k l → k ≠ i := by
      rintro he rfl
      exact hdead (live_clearInputs.2 he.live_source)
    rw [edge_clearInputs h]
    tauto
  · rename_i v hv
    change (dropInputs _ _ _).Edge k l ↔ _
    rw [edge_dropInputs]
    have hforget : ((g.clearInputs i).modify i forgetDependents).Edge k l ↔
        (g.clearInputs i).Edge k l ∧ k ≠ i := by
      unfold Edge
      rw [vertex?_modify]
      by_cases hk : i = k
      · subst hk
        cases (g.clearInputs i).vertex? i <;> simp [forgetDependents]
      · simp [hk, Ne.symm hk]
    change ((g.clearInputs i).modify i forgetDependents).Edge k l ↔ _
    rw [hforget, edge_clearInputs h]
    tauto

theorem input_isolate (h : g.Linked) :
    (g.isolate i).Input k l ↔ g.Input k l ∧ k ≠ i ∧ l ≠ i := by
  unfold isolate
  simp only
  split
  · rename_i hv
    have hdead : ¬(g.clearInputs i).Live i := by simp [Live, hv]
    have hnone : g.Input k l → k ≠ i := by
      rintro he rfl
      exact hdead (live_clearInputs.2 ((h _ _).2 he).live_source)
    rw [input_clearInputs]
    tauto
  · rename_i v hv
    change (dropInputs _ _ _).Input k l ↔ _
    rw [input_dropInputs]
    have hforget : ((g.clearInputs i).modify i forgetDependents).Input k l ↔
        (g.clearInputs i).Input k l := input_modify (f := forgetDependents) fun _ => rfl
    have hout : l ∈ v.dependents ↔ (g.clearInputs i).Input i l := by
      rw [← (h.clearInputs i) i l, edge_iff_of_vertex? hv]
    change ((g.clearInputs i).modify i forgetDependents).Input k l ∧ _ ↔ _
    rw [hforget, hout]
    simp only [input_clearInputs]
    constructor
    · rintro ⟨⟨hkl, hl⟩, hnot⟩
      refine ⟨hkl, ?_, hl⟩
      rintro rfl
      exact hnot ⟨rfl, hkl, hl⟩
    · rintro ⟨hkl, hk, hl⟩
      exact ⟨⟨hkl, hl⟩, fun hc => hk hc.1⟩

theorem Linked.isolate (h : g.Linked) (i : Slot) : (g.isolate i).Linked := fun k l => by
  rw [edge_isolate h, input_isolate h, h]

theorem WellFormed.isolate (h : g.WellFormed) (i : Slot) : (g.isolate i).WellFormed where
  place p k := by
    rw [(sameFrame_isolate g i).slot?, core?_isolate, ← (h.clearInputs i).place,
      (sameFrame_clearInputs g i).slot?]
  free k := by
    rw [(sameFrame_isolate g i).free, (sameFrame_isolate g i).size, live_isolate, h.free]
  free_nodup := (sameFrame_isolate g i).free ▸ h.free_nodup
  linked := h.linked.isolate i

/-- The graph in which a cell has no slot any more but its vertex still stands, without edges. -/
def detached (g : Graph) (p : Position) (i : Slot) : Graph :=
  { g with places := g.places.erase p }.isolate i

theorem remove_of_slot? (hp : g.slot? p = some i) :
    g.remove p =
      { g.detached p i with
        slots := (g.detached p i).slots.setIfInBounds i none
        free := i :: (g.detached p i).free
        volatiles := (g.detached p i).volatiles.filter (· != i)
        marked := (g.detached p i).marked.filter (· != i) } := by
  simp only [remove, hp]
  rfl

theorem remove_of_none (hp : g.slot? p = none) : g.remove p = g := by
  simp only [remove, hp]

theorem vertex?_remove (hp : g.slot? p = some i) (k : Slot) :
    (g.remove p).vertex? k = if i = k then none else (g.detached p i).vertex? k := by
  rw [remove_of_slot? hp]
  unfold vertex?
  rw [Array.getElem?_setIfInBounds]
  by_cases hk : i = k
  · subst hk
    by_cases hi : i < (g.detached p i).slots.size <;> simp [hi]
  · simp [hk]

theorem sameFrame_detached (g : Graph) (p : Position) (i : Slot) :
    SameFrame { g with places := g.places.erase p } (g.detached p i) :=
  sameFrame_isolate _ i

theorem core?_remove (hp : g.slot? p = some i) (k : Slot) :
    (g.remove p).core? k = if i = k then none else g.core? k := by
  unfold core?
  rw [vertex?_remove hp]
  by_cases hk : i = k
  · simp [hk]
  · rw [if_neg hk, if_neg hk]
    change (detached g p i).core? k = g.core? k
    rw [detached, core?_isolate, core?_clearInputs, if_neg hk]
    rfl

theorem live_remove (hp : g.slot? p = some i) : (g.remove p).Live k ↔ g.Live k ∧ k ≠ i := by
  rw [live_iff_core?, live_iff_core?, core?_remove hp]
  by_cases hk : i = k
  · simp [hk]
  · simp [hk, Ne.symm hk]

theorem WellFormed.edge_remove (h : g.WellFormed) (hp : g.slot? p = some i) :
    (g.remove p).Edge k l ↔ g.Edge k l ∧ k ≠ i ∧ l ≠ i := by
  have hdetached : (g.detached p i).Edge k l ↔ g.Edge k l ∧ k ≠ i ∧ l ≠ i :=
    edge_isolate (g := { g with places := g.places.erase p }) h.linked
  rw [← hdetached]
  unfold Edge
  rw [vertex?_remove hp]
  by_cases hk : i = k
  · subst hk
    simp only [↓reduceIte, reduceCtorEq, false_and, exists_false, false_iff]
    exact fun he => (hdetached.1 he).2.1 rfl
  · rw [if_neg hk]

theorem WellFormed.input_remove (h : g.WellFormed) (hp : g.slot? p = some i) :
    (g.remove p).Input k l ↔ g.Input k l ∧ k ≠ i ∧ l ≠ i := by
  have hdetached : (g.detached p i).Input k l ↔ g.Input k l ∧ k ≠ i ∧ l ≠ i :=
    input_isolate (g := { g with places := g.places.erase p }) h.linked
  rw [← hdetached]
  unfold Input
  rw [vertex?_remove hp]
  by_cases hl : i = l
  · subst hl
    simp only [↓reduceIte, reduceCtorEq, false_and, exists_false, false_iff]
    exact fun he => (hdetached.1 he).2.2 rfl
  · rw [if_neg hl]

theorem slot?_remove (hp : g.slot? p = some i) (q : Position) :
    (g.remove p).slot? q = if p = q then none else g.slot? q := by
  have hplaces : (g.remove p).places = g.places.erase p := by
    rw [remove_of_slot? hp]
    exact (sameFrame_detached g p i).places
  unfold slot?
  rw [hplaces, Std.TreeMap.getElem?_erase]
  simp only [Std.LawfulEqCmp.compare_eq_iff_eq]

theorem free_remove (hp : g.slot? p = some i) : (g.remove p).free = i :: g.free := by
  rw [remove_of_slot? hp]
  exact congrArg (i :: ·) (sameFrame_detached g p i).free

theorem size_remove (hp : g.slot? p = some i) : (g.remove p).slots.size = g.slots.size := by
  rw [remove_of_slot? hp]
  simpa using (sameFrame_detached g p i).size

/-- A vertex that is isolated listens to nothing. -/
theorem listeners_isolate (hlive : g.Live i) :
    (g.isolate i).listeners = g.listeners.filter (·.2 != i) := by
  rw [← listeners_clearInputs hlive]
  unfold isolate
  simp only
  split
  · rfl
  · rename_i v hv
    exact (sameCore_dropInputs _ v.dependents i).listeners.trans (listeners_modify ..)

theorem listeners_remove (hp : g.slot? p = some i) (hlive : g.Live i) :
    (g.remove p).listeners = g.listeners.filter (·.2 != i) := by
  rw [remove_of_slot? hp]
  exact listeners_isolate (g := { g with places := g.places.erase p }) hlive

theorem WellFormed.remove (h : g.WellFormed) (p : Position) : (g.remove p).WellFormed := by
  cases hp : g.slot? p with
  | none => rwa [remove_of_none hp]
  | some i =>
    obtain ⟨v, hv, hpos⟩ := h.vertex_of_slot? hp
    refine ⟨fun q k => ?_, fun k => ?_, ?_, fun k l => ?_⟩
    · rw [slot?_remove hp, core?_remove hp]
      by_cases hq : p = q
      · subst hq
        rw [if_pos rfl]
        constructor
        · intro hk
          cases hk
        · rintro ⟨c, hc, hcpos⟩
          split at hc
          · cases hc
          · rename_i hne
            have hk := (h.place p k).2 ⟨c, hc, hcpos⟩
            rw [hp] at hk
            exact absurd (Option.some.inj hk) hne
      · rw [if_neg hq, h.place]
        by_cases hk : i = k
        · subst hk
          rw [if_pos rfl]
          constructor
          · rintro ⟨c, hc, hcpos⟩
            obtain ⟨w, hw, rfl⟩ := core?_eq_some_iff.1 hc
            rw [hv] at hw
            cases hw
            exact absurd (hpos.symm.trans hcpos) hq
          · rintro ⟨c, hc, -⟩
            cases hc
        · rw [if_neg hk]
    · rw [free_remove hp, size_remove hp, live_remove hp, List.mem_cons, h.free]
      have hi := lt_size_of_vertex? hv
      constructor
      · rintro (rfl | ⟨hk, hdead⟩)
        · exact ⟨hi, fun hc => hc.2 rfl⟩
        · exact ⟨hk, fun hc => hdead hc.1⟩
      · rintro ⟨hk, hnot⟩
        by_cases hki : k = i
        · exact .inl hki
        · exact .inr ⟨hk, fun hc => hnot ⟨hc, hki⟩⟩
    · rw [free_remove hp, List.nodup_cons]
      exact ⟨fun hmem => ((h.free i).1 hmem).2 ⟨v, hv⟩, h.free_nodup⟩
    · rw [h.edge_remove hp, h.input_remove hp, h.linked]

end Spreadsheet.Graph
