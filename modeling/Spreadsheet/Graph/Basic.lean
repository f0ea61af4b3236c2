import Spreadsheet.Graph.Vertex

/-!
Dependency graphs. Vertices stand in slots, and a removed vertex leaves a slot that the next new vertex
takes. An edge leads from a vertex to one that reads it and is noted at both ends. Areas are not spelled
out in edges alone: who reads an area listens to it, so that vertices which are made later are connected
as well.
-/

namespace Spreadsheet

/-- A dependency graph. -/
structure Graph where
  /-- The vertices; a free slot holds none. -/
  slots : Array (Option Vertex) := #[]
  /-- The free slots, the one freed last coming first. -/
  free : List Slot := []
  /-- The slots of the cells. -/
  places : Std.TreeMap Position Slot := ∅
  /-- Who listens to which area. -/
  listeners : List (Area × Slot) := []
  /-- The vertices to be calculated anew by the next pass. -/
  volatiles : List Slot := []
  /-- The vertices that have been marked dirty since the last pass, in this order. -/
  marked : List Slot := []
  /-- Whether edges have changed since it was last found out which vertices are on cycles. -/
  cyclesStale : Bool := true
deriving Inhabited

namespace Graph

/-! ### Looking up -/

/-- The vertex in a slot. -/
def vertex? (g : Graph) (i : Slot) : Option Vertex := g.slots[i]?.join

/-- The slot of a cell. -/
def slot? (g : Graph) (p : Position) : Option Slot := g.places[p]?

/-- The vertex of a cell. -/
def vertexAt? (g : Graph) (p : Position) : Option Vertex := (g.slot? p).bind g.vertex?

/-- The number of vertices. -/
def size (g : Graph) : Nat := g.places.size

/-- Whether there are no vertices. -/
def isEmpty (g : Graph) : Bool := g.places.isEmpty

/-- Whether a slot holds a dirty vertex. -/
def holdsDirty (v : Option Vertex) : Bool := v.any Vertex.dirty

/-- Whether a slot holds a vertex that is not dirty. -/
def holdsClean (v : Option Vertex) : Bool := v.any (!·.dirty)

/-- The number of dirty vertices. -/
def dirtyCount (g : Graph) : Nat := g.slots.countP holdsDirty

/-- The number of vertices that are not dirty. -/
def cleanCount (g : Graph) : Nat := g.slots.countP holdsClean

/-- Whether the vertex in a slot is dirty. -/
def isDirty (g : Graph) (i : Slot) : Bool := (g.vertex? i).any Vertex.dirty

/-- The vertices that read the one in a slot. -/
def dependents (g : Graph) (i : Slot) : List Slot := ((g.vertex? i).map Vertex.dependents).getD []

/-- The vertices that listen to an area with the given cell. -/
def listenersOf (g : Graph) (p : Position) : List Slot :=
  (g.listeners.filter (·.1.contains p)).map (·.2)

/-- The vertices whose cells lie in an area. -/
def slotsIn (g : Graph) (a : Area) : List Slot :=
  (g.places.toList.filter (a.contains ·.1)).map (·.2)

/-! ### Changing vertices -/

/-- Puts a vertex into a slot. -/
def put (g : Graph) (i : Slot) (v : Vertex) : Graph :=
  { g with slots := g.slots.setIfInBounds i (some v) }

/-- Changes the vertex in a slot, if there is one. -/
def modify (g : Graph) (i : Slot) (f : Vertex → Vertex) : Graph :=
  match g.vertex? i with
  | some v => g.put i (f v)
  | none => g

theorem vertex?_put (g : Graph) (i j : Slot) (v : Vertex) :
    (g.put i v).vertex? j = if i = j ∧ j < g.slots.size then some v else g.vertex? j := by
  unfold vertex? put
  rw [Array.getElem?_setIfInBounds]
  by_cases h : i = j
  · subst h
    by_cases hi : i < g.slots.size <;> simp [hi]
  · simp [h]

theorem lt_size_of_vertex? {g : Graph} {i : Slot} {v : Vertex} (h : g.vertex? i = some v) :
    i < g.slots.size := by
  unfold vertex? at h
  by_cases hi : i < g.slots.size
  · exact hi
  · simp [hi] at h

theorem vertex?_modify (g : Graph) (i j : Slot) (f : Vertex → Vertex) :
    (g.modify i f).vertex? j = if i = j then (g.vertex? j).map f else g.vertex? j := by
  unfold modify
  split
  · rename_i v hv
    rw [vertex?_put]
    by_cases h : i = j
    · subst h
      simp [lt_size_of_vertex? hv, hv]
    · simp [h]
  · rename_i hv
    by_cases h : i = j
    · subst h
      simp [hv]
    · simp [h]

/-! ### Edges -/

/-- Adds an edge between two vertices, unless there is one. -/
def connect (g : Graph) (i j : Slot) : Graph :=
  match g.vertex? i, g.vertex? j with
  | some v, some _ =>
    if v.dependents.contains j then g
    else { (g.modify i (·.addDependent j)).modify j (·.addInput i) with cyclesStale := true }
  | _, _ => g

/-- Removes the edge between two vertices. -/
def disconnect (g : Graph) (i j : Slot) : Graph :=
  { (g.modify i (·.dropDependent j)).modify j (·.dropInput i) with cyclesStale := true }

/-- Makes a vertex read nothing: its incoming edges go, and it listens to no area. -/
def clearInputs (g : Graph) (i : Slot) : Graph :=
  match g.vertex? i with
  | none => g
  | some v =>
    let g := g.modify i fun v => { v with inputs := [], dependencies := {} }
    let g := v.inputs.foldl (fun g j => g.modify j (·.dropDependent i)) g
    { g with listeners := g.listeners.filter (·.2 != i), cyclesStale := true }

/-- Removes all edges of a vertex. -/
def isolate (g : Graph) (i : Slot) : Graph :=
  let g := g.clearInputs i
  match g.vertex? i with
  | none => g
  | some v =>
    v.dependents.foldl (fun g j => g.modify j (·.dropInput i))
      (g.modify i fun v => { v with dependents := [] })

/-! ### Vertices -/

/-- Puts a new vertex into the slot freed last, or into a new slot. -/
def allocate (g : Graph) (v : Vertex) : Slot × Graph :=
  match g.free with
  | i :: rest => (i, { g.put i v with free := rest })
  | [] => (g.slots.size, { g with slots := g.slots.push (some v) })

/-- The slot of a cell, which gets a vertex if it has none. A new vertex is connected with those that
listen to its cell. -/
def ensure (g : Graph) (p : Position) : Slot × Graph :=
  match g.slot? p with
  | some i => (i, g)
  | none =>
    let (i, g) := g.allocate { position := p }
    let g := { g with places := g.places.insert p i }
    (i, (g.listenersOf p).foldl (fun g j => g.connect i j) g)

/-- Removes the vertex of a cell and frees its slot. -/
def remove (g : Graph) (p : Position) : Graph :=
  match g.slot? p with
  | none => g
  | some i =>
    let g := { g with places := g.places.erase p }.isolate i
    { g with
      slots := g.slots.setIfInBounds i none
      free := i :: g.free
      volatiles := g.volatiles.filter (· != i)
      marked := g.marked.filter (· != i) }

end Graph

end Spreadsheet
