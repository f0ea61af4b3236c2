import Mathlib.Tactic.Tauto
import Std.Data.TreeMap.Lemmas
import Spreadsheet.Proofs.Graph.Edges

/-!
Well-formed dependency graphs. In a well-formed graph cells and vertices correspond one to one, the free
slots are those that hold nothing, and both ends of every edge know of it. The changes of a graph keep it
well formed.
-/

namespace Spreadsheet.Graph

variable {g g' : Graph} {i j k l : Slot} {p q : Position}

/-- A graph whose parts agree with each other. -/
structure WellFormed (g : Graph) : Prop where
  /-- A cell has a slot exactly if a vertex with its position stands there. -/
  place : ∀ p i, g.slot? p = some i ↔ ∃ v, g.core? i = some v ∧ v.position = p
  /-- The free slots are those without a vertex. -/
  free : ∀ i, i ∈ g.free ↔ i < g.slots.size ∧ ¬g.Live i
  /-- No slot is free twice. -/
  free_nodup : g.free.Nodup
  /-- The two ends of an edge agree. -/
  linked : g.Linked

namespace WellFormed

theorem slot?_position (h : g.WellFormed) {v : Vertex} (hv : g.vertex? i = some v) :
    g.slot? v.position = some i :=
  (h.place v.position i).2 ⟨v.core, core?_eq_some_iff.2 ⟨v, hv, rfl⟩, rfl⟩

theorem vertex_of_slot? (h : g.WellFormed) (hp : g.slot? p = some i) :
    ∃ v, g.vertex? i = some v ∧ v.position = p := by
  obtain ⟨c, hc, hpos⟩ := (h.place p i).1 hp
  obtain ⟨v, hv, rfl⟩ := core?_eq_some_iff.1 hc
  exact ⟨v, hv, hpos⟩

/-- Two vertices with one position stand in one slot. -/
theorem slot_unique (h : g.WellFormed) {v w : Vertex} (hv : g.vertex? i = some v)
    (hw : g.vertex? j = some w) (hpos : v.position = w.position) : i = j := by
  have hi := h.slot?_position hv
  rw [hpos, h.slot?_position hw] at hi
  exact (Option.some.inj hi).symm

/-- A graph that differs in edges only is well formed when its edges are. -/
theorem of_sameCore (h : g.WellFormed) (hcore : SameCore g g')
    (hlinked : g'.Linked) : g'.WellFormed where
  place p i := by
    rw [slot?, hcore.places, hcore.core]
    exact h.place p i
  free i := by rw [hcore.free, hcore.size, hcore.live_iff, h.free]
  free_nodup := hcore.free ▸ h.free_nodup
  linked := hlinked

/-- A change of what vertices hold besides positions and edges keeps a graph well formed. -/
theorem modify (h : g.WellFormed) {f : Vertex → Vertex} (hpos : ∀ v, (f v).position = v.position)
    (hin : ∀ v, (f v).inputs = v.inputs) (hout : ∀ v, (f v).dependents = v.dependents) :
    (g.modify i f).WellFormed where
  place p k := by
    rw [slot?, places_modify, ← slot?, h.place p k, core?, core?, vertex?_modify]
    split
    · cases g.vertex? k <;> simp [Vertex.core, hpos]
    · rfl
  free k := by rw [free_modify, size_modify, live_modify, h.free]
  free_nodup := by rw [free_modify]; exact h.free_nodup
  linked k l := by rw [edge_modify hout, input_modify hin, h.linked]

theorem connect (h : g.WellFormed) (i j : Slot) : (g.connect i j).WellFormed := by
  refine h.of_sameCore (sameCore_connect g i j) fun k l => ?_
  rw [edge_connect, input_connect (h.linked i j).1, h.linked k l]

end WellFormed

/-! ### Taking edges away -/

theorem sameCore_disconnect (g : Graph) (i j : Slot) : SameCore g (g.disconnect i j) := by
  have hcore := (sameCore_modify (g := g) (i := i) fun v => Vertex.core_dropDependent v j).trans
    (sameCore_modify (i := j) fun v => Vertex.core_dropInput v i)
  exact ⟨⟨hcore.size, hcore.free, hcore.places, hcore.volatiles, hcore.marked⟩, hcore.core, hcore.listeners⟩

theorem edge_disconnect : (g.disconnect i j).Edge k l ↔ g.Edge k l ∧ ¬(k = i ∧ l = j) := by
  change ((g.modify i (·.dropDependent j)).modify j (·.dropInput i)).Edge k l ↔ _
  rw [edge_dropInput, edge_dropDependent]

theorem input_disconnect : (g.disconnect i j).Input k l ↔ g.Input k l ∧ ¬(k = i ∧ l = j) := by
  change ((g.modify i (·.dropDependent j)).modify j (·.dropInput i)).Input k l ↔ _
  rw [input_dropInput, input_dropDependent]

theorem WellFormed.disconnect (h : g.WellFormed) (i j : Slot) : (g.disconnect i j).WellFormed := by
  refine h.of_sameCore (sameCore_disconnect g i j) fun k l => ?_
  rw [edge_disconnect, input_disconnect, h.linked]

/-- The graph without the edges from some vertices to one, as their sources note them. -/
def dropDependents (g : Graph) (js : List Slot) (i : Slot) : Graph :=
  js.foldl (fun g j => g.modify j (·.dropDependent i)) g

/-- The graph without the edges from one vertex to some, as their targets note them. -/
def dropInputs (g : Graph) (js : List Slot) (i : Slot) : Graph :=
  js.foldl (fun g j => g.modify j (·.dropInput i)) g

theorem sameCore_dropDependents (g : Graph) (js : List Slot) (i : Slot) :
    SameCore g (g.dropDependents js i) := by
  induction js generalizing g with
  | nil => exact .refl g
  | cons j js ih => exact (sameCore_modify fun v => Vertex.core_dropDependent v i).trans (ih _)

theorem sameCore_dropInputs (g : Graph) (js : List Slot) (i : Slot) :
    SameCore g (g.dropInputs js i) := by
  induction js generalizing g with
  | nil => exact .refl g
  | cons j js ih => exact (sameCore_modify fun v => Vertex.core_dropInput v i).trans (ih _)

theorem edge_dropDependents (js : List Slot) :
    (g.dropDependents js i).Edge k l ↔ g.Edge k l ∧ ¬(k ∈ js ∧ l = i) := by
  induction js generalizing g with
  | nil => simp [dropDependents]
  | cons j js ih =>
    change ((g.modify j (·.dropDependent i)).dropDependents js i).Edge k l ↔ _
    rw [ih, edge_dropDependent, List.mem_cons]
    tauto

theorem input_dropDependents (js : List Slot) :
    (g.dropDependents js i).Input k l ↔ g.Input k l := by
  induction js generalizing g with
  | nil => rfl
  | cons j js ih =>
    change ((g.modify j (·.dropDependent i)).dropDependents js i).Input k l ↔ _
    rw [ih, input_dropDependent]

theorem input_dropInputs (js : List Slot) :
    (g.dropInputs js i).Input k l ↔ g.Input k l ∧ ¬(k = i ∧ l ∈ js) := by
  induction js generalizing g with
  | nil => simp [dropInputs]
  | cons j js ih =>
    change ((g.modify j (·.dropInput i)).dropInputs js i).Input k l ↔ _
    rw [ih, input_dropInput, List.mem_cons]
    tauto

theorem edge_dropInputs (js : List Slot) : (g.dropInputs js i).Edge k l ↔ g.Edge k l := by
  induction js generalizing g with
  | nil => rfl
  | cons j js ih =>
    change ((g.modify j (·.dropInput i)).dropInputs js i).Edge k l ↔ _
    rw [ih, edge_dropInput]

/-- A vertex that reads nothing, as far as it knows. -/
def forgetInputs (v : Vertex) : Vertex := { v with inputs := [], dependencies := {} }

/-- A vertex that nothing reads, as far as it knows. -/
def forgetDependents (v : Vertex) : Vertex := { v with dependents := [] }

/-- The graph without the edges to a vertex, which has the given inputs, before listeners are told. -/
def dropReads (g : Graph) (i : Slot) (inputs : List Slot) : Graph :=
  (g.modify i forgetInputs).dropDependents inputs i

theorem clearInputs_eq {v : Vertex} (hv : g.vertex? i = some v) :
    g.clearInputs i =
      { g.dropReads i v.inputs with
        listeners := (g.dropReads i v.inputs).listeners.filter (·.2 != i)
        cyclesStale := true } := by
  simp only [clearInputs, hv]
  rfl

theorem clearInputs_of_dead (h : ¬g.Live i) : g.clearInputs i = g := by
  unfold clearInputs
  split
  · rfl
  · rename_i v hv
    exact absurd ⟨v, hv⟩ h

theorem sameFrame_clearInputs (g : Graph) (i : Slot) : SameFrame g (g.clearInputs i) := by
  by_cases h : g.Live i
  · obtain ⟨v, hv⟩ := h
    have hframe := (sameFrame_modify g i forgetInputs).trans
      (sameCore_dropDependents _ v.inputs i).toSameFrame
    rw [clearInputs_eq hv]
    exact ⟨hframe.size, hframe.free, hframe.places, hframe.volatiles, hframe.marked⟩
  · rw [clearInputs_of_dead h]
    exact .refl g

/-- A vertex whose inputs are cleared listens to nothing. -/
theorem listeners_clearInputs (hlive : g.Live i) :
    (g.clearInputs i).listeners = g.listeners.filter (·.2 != i) := by
  obtain ⟨v, hv⟩ := hlive
  rw [clearInputs_eq hv]
  change (dropDependents _ _ _).listeners.filter _ = _
  rw [(sameCore_dropDependents _ v.inputs i).listeners, listeners_modify]

theorem core?_clearInputs (g : Graph) (i k : Slot) :
    (g.clearInputs i).core? k =
      if i = k then (g.core? k).map fun v => { v with dependencies := {} } else g.core? k := by
  by_cases h : g.Live i
  · obtain ⟨v, hv⟩ := h
    rw [clearInputs_eq hv]
    change (dropDependents _ _ _).core? k = _
    rw [(sameCore_dropDependents _ _ _).core, core?, core?, vertex?_modify]
    split
    · cases g.vertex? k <;> rfl
    · rfl
  · rw [clearInputs_of_dead h]
    split
    · rename_i heq
      subst heq
      rw [live_iff_core?] at h
      cases hc : g.core? i with
      | none => rfl
      | some c => exact absurd ⟨c, hc⟩ h
    · rfl

theorem live_clearInputs : (g.clearInputs i).Live k ↔ g.Live k := by
  rw [live_iff_core?, live_iff_core?, core?_clearInputs]
  split
  · cases g.core? k <;> simp
  · rfl

theorem input_clearInputs : (g.clearInputs i).Input k l ↔ g.Input k l ∧ l ≠ i := by
  by_cases h : g.Live i
  · obtain ⟨v, hv⟩ := h
    rw [clearInputs_eq hv]
    change (dropDependents _ _ _).Input k l ↔ _
    rw [input_dropDependents]
    unfold Input
    rw [vertex?_modify]
    by_cases hl : i = l
    · subst hl
      simp [hv, forgetInputs]
    · simp [hl, Ne.symm hl]
  · rw [clearInputs_of_dead h]
    constructor
    · intro hin
      refine ⟨hin, ?_⟩
      rintro rfl
      exact h hin.live_target
    · exact And.left

/-- Clearing the inputs of a vertex takes away exactly the edges that lead to it. -/
theorem edge_clearInputs (h : g.Linked) :
    (g.clearInputs i).Edge k l ↔ g.Edge k l ∧ l ≠ i := by
  by_cases hlive : g.Live i
  · obtain ⟨v, hv⟩ := hlive
    have hin : k ∈ v.inputs ↔ g.Edge k i := by rw [h, input_iff_of_vertex? hv]
    have hforget : (g.modify i forgetInputs).Edge k l ↔ g.Edge k l :=
      edge_modify (f := forgetInputs) fun _ => rfl
    rw [clearInputs_eq hv]
    change (dropDependents _ _ _).Edge k l ↔ _
    rw [edge_dropDependents, hforget, hin]
    constructor
    · rintro ⟨hkl, hnot⟩
      refine ⟨hkl, ?_⟩
      rintro rfl
      exact hnot ⟨hkl, rfl⟩
    · rintro ⟨hkl, hne⟩
      exact ⟨hkl, fun hc => hne hc.2⟩
  · rw [clearInputs_of_dead hlive]
    constructor
    · intro hkl
      refine ⟨hkl, ?_⟩
      rintro rfl
      exact hlive (h.edge_live hkl).2
    · exact And.left

theorem Linked.clearInputs (h : g.Linked) (i : Slot) : (g.clearInputs i).Linked := fun k l => by
  rw [edge_clearInputs h, input_clearInputs, h]

theorem WellFormed.clearInputs (h : g.WellFormed) (i : Slot) : (g.clearInputs i).WellFormed where
  place p k := by
    rw [(sameFrame_clearInputs g i).slot?, h.place, core?_clearInputs]
    split
    · cases g.core? k <;> simp
    · rfl
  free k := by rw [(sameFrame_clearInputs g i).free, (sameFrame_clearInputs g i).size, live_clearInputs, h.free]
  free_nodup := (sameFrame_clearInputs g i).free ▸ h.free_nodup
  linked := h.linked.clearInputs i

end Spreadsheet.Graph
