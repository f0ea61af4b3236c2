import Mathlib.Data.List.Basic
import Mathlib.Logic.Relation
import Spreadsheet.Graph.Dirty

/-!
Edges of dependency graphs. An edge is noted at both of its ends, and a graph in which the two notes
agree is described by its edges and by what its vertices hold besides them. Every basic change of a
graph is stated in these terms.
-/

namespace Spreadsheet

namespace Vertex

/-- A vertex without its edges. -/
def core (v : Vertex) : Vertex := { v with inputs := [], dependents := [] }

@[simp] theorem core_addDependent (v : Vertex) (i : Slot) : (v.addDependent i).core = v.core := rfl

@[simp] theorem core_addInput (v : Vertex) (i : Slot) : (v.addInput i).core = v.core := rfl

@[simp] theorem core_dropDependent (v : Vertex) (i : Slot) : (v.dropDependent i).core = v.core := rfl

@[simp] theorem core_dropInput (v : Vertex) (i : Slot) : (v.dropInput i).core = v.core := rfl

end Vertex

namespace Graph

variable {g g' : Graph} {i j k l : Slot}

/-- An edge, as its source notes it. -/
def Edge (g : Graph) (i j : Slot) : Prop := ∃ v, g.vertex? i = some v ∧ j ∈ v.dependents

/-- An edge, as its target notes it. -/
def Input (g : Graph) (i j : Slot) : Prop := ∃ v, g.vertex? j = some v ∧ i ∈ v.inputs

/-- Whether a slot holds a vertex. -/
def Live (g : Graph) (i : Slot) : Prop := ∃ v, g.vertex? i = some v

/-- The vertex in a slot without its edges. -/
def core? (g : Graph) (i : Slot) : Option Vertex := (g.vertex? i).map Vertex.core

theorem Edge.live_source (h : g.Edge i j) : g.Live i :=
  let ⟨v, hv, _⟩ := h
  ⟨v, hv⟩

theorem Input.live_target (h : g.Input i j) : g.Live j :=
  let ⟨v, hv, _⟩ := h
  ⟨v, hv⟩

theorem edge_iff_of_vertex? {v : Vertex} (hv : g.vertex? i = some v) :
    g.Edge i j ↔ j ∈ v.dependents := by
  constructor
  · rintro ⟨w, hw, hj⟩
    rw [hv] at hw
    cases hw
    exact hj
  · exact fun hj => ⟨v, hv, hj⟩

theorem input_iff_of_vertex? {v : Vertex} (hv : g.vertex? j = some v) :
    g.Input i j ↔ i ∈ v.inputs := by
  constructor
  · rintro ⟨w, hw, hi⟩
    rw [hv] at hw
    cases hw
    exact hi
  · exact fun hi => ⟨v, hv, hi⟩

theorem core?_eq_some_iff {c : Vertex} :
    g.core? i = some c ↔ ∃ v, g.vertex? i = some v ∧ v.core = c := by
  simp [core?]

theorem live_iff_core? : g.Live i ↔ ∃ c, g.core? i = some c := by
  simp [Live, core?]

/-- Both ends of every edge know of it. -/
def Linked (g : Graph) : Prop := ∀ i j, g.Edge i j ↔ g.Input i j

theorem Linked.edge_live (h : g.Linked) (he : g.Edge i j) : g.Live i ∧ g.Live j :=
  ⟨he.live_source, ((h i j).1 he).live_target⟩

/-- Two graphs that differ in nothing but what vertices hold and listeners. -/
structure SameFrame (g g' : Graph) : Prop where
  size : g'.slots.size = g.slots.size
  free : g'.free = g.free
  places : g'.places = g.places
  volatiles : g'.volatiles = g.volatiles
  marked : g'.marked = g.marked

/-- Two graphs that differ in nothing but edges. -/
structure SameCore (g g' : Graph) : Prop extends SameFrame g g' where
  core : ∀ k, g'.core? k = g.core? k
  listeners : g'.listeners = g.listeners

theorem SameFrame.refl (g : Graph) : SameFrame g g := ⟨rfl, rfl, rfl, rfl, rfl⟩

theorem SameFrame.trans {g₁ g₂ g₃ : Graph} (h : SameFrame g₁ g₂) (h' : SameFrame g₂ g₃) :
    SameFrame g₁ g₃ where
  size := h'.size.trans h.size
  free := h'.free.trans h.free
  places := h'.places.trans h.places
  volatiles := h'.volatiles.trans h.volatiles
  marked := h'.marked.trans h.marked

theorem SameFrame.slot? (h : SameFrame g g') (p : Position) : g'.slot? p = g.slot? p := by
  rw [Graph.slot?, Graph.slot?, h.places]

namespace SameCore

theorem refl (g : Graph) : SameCore g g := ⟨.refl g, fun _ => rfl, rfl⟩

theorem trans {g₁ g₂ g₃ : Graph} (h : SameCore g₁ g₂) (h' : SameCore g₂ g₃) : SameCore g₁ g₃ where
  toSameFrame := h.toSameFrame.trans h'.toSameFrame
  core k := (h'.core k).trans (h.core k)
  listeners := h'.listeners.trans h.listeners

theorem live_iff (h : SameCore g g') : g'.Live i ↔ g.Live i := by
  rw [live_iff_core?, live_iff_core?, h.core]

end SameCore

/-! ### Changing one vertex -/

@[simp] theorem size_modify (g : Graph) (i : Slot) (f : Vertex → Vertex) :
    (g.modify i f).slots.size = g.slots.size := by
  unfold modify
  split
  · simp [put]
  · rfl

@[simp] theorem free_modify (g : Graph) (i : Slot) (f : Vertex → Vertex) :
    (g.modify i f).free = g.free := by
  unfold modify
  split <;> rfl

@[simp] theorem places_modify (g : Graph) (i : Slot) (f : Vertex → Vertex) :
    (g.modify i f).places = g.places := by
  unfold modify
  split <;> rfl

@[simp] theorem listeners_modify (g : Graph) (i : Slot) (f : Vertex → Vertex) :
    (g.modify i f).listeners = g.listeners := by
  unfold modify
  split <;> rfl

@[simp] theorem volatiles_modify (g : Graph) (i : Slot) (f : Vertex → Vertex) :
    (g.modify i f).volatiles = g.volatiles := by
  unfold modify
  split <;> rfl

@[simp] theorem marked_modify (g : Graph) (i : Slot) (f : Vertex → Vertex) :
    (g.modify i f).marked = g.marked := by
  unfold modify
  split <;> rfl

@[simp] theorem cyclesStale_modify (g : Graph) (i : Slot) (f : Vertex → Vertex) :
    (g.modify i f).cyclesStale = g.cyclesStale := by
  unfold modify
  split <;> rfl

theorem vertex?_modify_self (g : Graph) (i : Slot) (f : Vertex → Vertex) :
    (g.modify i f).vertex? i = (g.vertex? i).map f := by
  simp [vertex?_modify]

theorem vertex?_modify_of_ne (g : Graph) (f : Vertex → Vertex) (h : i ≠ k) :
    (g.modify i f).vertex? k = g.vertex? k := by
  simp [vertex?_modify, h]

/-- A change that leaves edges alone keeps them. -/
theorem edge_modify {f : Vertex → Vertex} (hf : ∀ v, (f v).dependents = v.dependents) :
    (g.modify i f).Edge k l ↔ g.Edge k l := by
  unfold Edge
  rw [vertex?_modify]
  split
  · cases g.vertex? k <;> simp [hf]
  · rfl

theorem input_modify {f : Vertex → Vertex} (hf : ∀ v, (f v).inputs = v.inputs) :
    (g.modify i f).Input k l ↔ g.Input k l := by
  unfold Input
  rw [vertex?_modify]
  split
  · cases g.vertex? l <;> simp [hf]
  · rfl

theorem live_modify {f : Vertex → Vertex} : (g.modify i f).Live k ↔ g.Live k := by
  unfold Live
  rw [vertex?_modify]
  split
  · cases g.vertex? k <;> simp
  · rfl

theorem sameFrame_modify (g : Graph) (i : Slot) (f : Vertex → Vertex) :
    SameFrame g (g.modify i f) := by
  constructor <;> simp

/-- A change of edges only keeps what else a graph holds. -/
theorem sameCore_modify {f : Vertex → Vertex} (hf : ∀ v, (f v).core = v.core) :
    SameCore g (g.modify i f) where
  toSameFrame := sameFrame_modify g i f
  core k := by
    unfold core?
    rw [vertex?_modify]
    split
    · cases g.vertex? k <;> simp [hf]
    · rfl
  listeners := by simp

/-! ### Edges one by one -/

theorem edge_addDependent :
    (g.modify i (·.addDependent j)).Edge k l ↔ g.Edge k l ∨ g.Live i ∧ k = i ∧ l = j := by
  unfold Edge Live
  rw [vertex?_modify]
  by_cases h : i = k
  · subst h
    cases hv : g.vertex? i <;> simp [Vertex.addDependent]
  · simp [h, Ne.symm h]

theorem edge_dropDependent :
    (g.modify i (·.dropDependent j)).Edge k l ↔ g.Edge k l ∧ ¬(k = i ∧ l = j) := by
  unfold Edge
  rw [vertex?_modify]
  by_cases h : i = k
  · subst h
    cases hv : g.vertex? i <;> simp [Vertex.dropDependent]
  · simp [h, Ne.symm h]

theorem input_addInput :
    (g.modify j (·.addInput i)).Input k l ↔ g.Input k l ∨ g.Live j ∧ k = i ∧ l = j := by
  unfold Input Live
  rw [vertex?_modify]
  by_cases h : j = l
  · subst h
    cases hv : g.vertex? j <;> simp [Vertex.addInput]
  · simp [h, Ne.symm h]

theorem input_dropInput :
    (g.modify j (·.dropInput i)).Input k l ↔ g.Input k l ∧ ¬(k = i ∧ l = j) := by
  unfold Input
  rw [vertex?_modify]
  by_cases h : j = l
  · subst h
    cases hv : g.vertex? j <;> simp [Vertex.dropInput]
  · simp [h, Ne.symm h]

theorem edge_addInput : (g.modify j (·.addInput i)).Edge k l ↔ g.Edge k l :=
  edge_modify (f := (·.addInput i)) fun _ => rfl

theorem edge_dropInput : (g.modify j (·.dropInput i)).Edge k l ↔ g.Edge k l :=
  edge_modify (f := (·.dropInput i)) fun _ => rfl

theorem input_addDependent : (g.modify i (·.addDependent j)).Input k l ↔ g.Input k l :=
  input_modify (f := (·.addDependent j)) fun _ => rfl

theorem input_dropDependent : (g.modify i (·.dropDependent j)).Input k l ↔ g.Input k l :=
  input_modify (f := (·.dropDependent j)) fun _ => rfl

theorem connect_eq_self (h : ¬(g.Live i ∧ g.Live j) ∨ g.Edge i j) : g.connect i j = g := by
  unfold connect
  split
  · rename_i v w hv hw
    have hedge : g.Edge i j := by
      rcases h with h | h
      · exact absurd ⟨⟨v, hv⟩, ⟨w, hw⟩⟩ h
      · exact h
    rw [if_pos]
    simpa using (edge_iff_of_vertex? hv).1 hedge
  · rfl

theorem connect_eq (hi : g.Live i) (hj : g.Live j) (hedge : ¬g.Edge i j) :
    g.connect i j =
      { (g.modify i (·.addDependent j)).modify j (·.addInput i) with cyclesStale := true } := by
  obtain ⟨v, hv⟩ := hi
  obtain ⟨w, hw⟩ := hj
  have hnot : ¬v.dependents.contains j = true := by
    simpa using mt (edge_iff_of_vertex? hv).2 hedge
  simp only [connect, hv, hw, if_neg hnot]

theorem sameCore_connect (g : Graph) (i j : Slot) : SameCore g (g.connect i j) := by
  by_cases h : (g.Live i ∧ g.Live j) ∧ ¬g.Edge i j
  · rw [connect_eq h.1.1 h.1.2 h.2]
    have hcore := (sameCore_modify (g := g) (i := i) fun v => Vertex.core_addDependent v j).trans
      (sameCore_modify (i := j) fun v => Vertex.core_addInput v i)
    exact ⟨⟨hcore.size, hcore.free, hcore.places, hcore.volatiles, hcore.marked⟩, hcore.core, hcore.listeners⟩
  · rw [connect_eq_self (by tauto)]
    exact .refl g

/-- Connecting two vertices adds the edge between them and no other. -/
theorem edge_connect :
    (g.connect i j).Edge k l ↔ g.Edge k l ∨ (g.Live i ∧ g.Live j) ∧ k = i ∧ l = j := by
  by_cases h : (g.Live i ∧ g.Live j) ∧ ¬g.Edge i j
  · rw [connect_eq h.1.1 h.1.2 h.2]
    change ((g.modify i _).modify j _).Edge k l ↔ _
    rw [edge_addInput, edge_addDependent]
    tauto
  · rw [connect_eq_self (by tauto)]
    constructor
    · exact Or.inl
    · rintro (h' | ⟨hlive, rfl, rfl⟩)
      · exact h'
      · tauto

theorem input_connect (hlinked : g.Edge i j → g.Input i j) :
    (g.connect i j).Input k l ↔ g.Input k l ∨ (g.Live i ∧ g.Live j) ∧ k = i ∧ l = j := by
  by_cases h : (g.Live i ∧ g.Live j) ∧ ¬g.Edge i j
  · rw [connect_eq h.1.1 h.1.2 h.2]
    change ((g.modify i _).modify j _).Input k l ↔ _
    rw [input_addInput, input_addDependent, live_modify]
    tauto
  · rw [connect_eq_self (by tauto)]
    constructor
    · exact Or.inl
    · rintro (h' | ⟨hlive, rfl, rfl⟩)
      · exact h'
      · exact hlinked (by tauto)

end Graph

end Spreadsheet
