import Spreadsheet.Graph.Basic

/-!
Dirty marks. A vertex whose result is out of date is dirty, and so is all that depends on it. Marking
goes along the edges and stops at vertices that are dirty already, so each is marked once.
-/

namespace Spreadsheet.Graph

/-- Marks one vertex and notes it for the next pass. -/
def mark (g : Graph) (i : Slot) : Graph :=
  { g.modify i fun v => { v with dirty := true } with marked := g.marked ++ [i] }

theorem cleanCount_mark_lt {g : Graph} {i : Slot} {v : Vertex} (hv : g.vertex? i = some v)
    (hd : ¬v.dirty) : (g.mark i).cleanCount < g.cleanCount := by
  have hi := lt_size_of_vertex? hv
  have hget : g.slots[i] = some v := by
    have := hv
    unfold vertex? at this
    simpa [hi] using this
  have hclean : holdsClean g.slots[i] = true := by simp [hget, holdsClean, hd]
  have hpos : 0 < g.slots.countP holdsClean :=
    Array.countP_pos_iff.2 ⟨g.slots[i], Array.getElem_mem hi, hclean⟩
  have hmarked : holdsClean (some { v with dirty := true }) = false := rfl
  unfold cleanCount mark modify
  rw [hv]
  simp only [put, Array.setIfInBounds, hi, ↓reduceDIte, Array.countP_set, hclean, hmarked, ↓reduceIte,
    Bool.false_eq_true, Nat.add_zero]
  omega

/-- Marks the vertices on a stack and all that depends on them, the last reader of a vertex coming
first. -/
def markAll (g : Graph) (stack : List Slot) : Graph :=
  match stack with
  | [] => g
  | i :: rest =>
    match hv : g.vertex? i with
    | none => g.markAll rest
    | some v =>
      if hd : v.dirty then g.markAll rest
      else
        have := cleanCount_mark_lt hv hd
        (g.mark i).markAll (v.dependents.reverse ++ rest)
termination_by (g.cleanCount, stack.length)

/-- Marks a vertex and all that depends on it. -/
def markFrom (g : Graph) (i : Slot) : Graph := g.markAll [i]

/-- Marks what depends on a cell: its vertex and those that listen to it. -/
def setDirty (g : Graph) (p : Position) : Graph :=
  let g := match g.slot? p with
    | some i => g.markFrom i
    | none => g
  (g.listenersOf p).foldl markFrom g

/-- Marks the vertices that each pass calculates anew. -/
def markVolatile (g : Graph) : Graph :=
  g.volatiles.foldl markFrom { g with volatiles := [] }

/-- Makes a vertex read exactly the given cells and areas, and marks it. -/
def rewire (g : Graph) (i : Slot) (d : Dependencies) : Graph :=
  let g := g.clearInputs i
  let g := d.cells.foldl
    (fun g p =>
      let (j, g) := g.ensure p
      g.connect j i) g
  let g := d.areas.foldl
    (fun g a =>
      let g := (g.slotsIn a).foldl (fun g j => g.connect j i) g
      { g with listeners := g.listeners ++ [(a, i)] }) g
  (g.modify i fun v => { v with dependencies := d }).markFrom i

/-! ### Formulas

A vertex gets a formula, or loses it.
-/

/-- Takes its formula from the vertex of a cell. A vertex that nothing reads is removed. -/
def demote (g : Graph) (p : Position) : Graph :=
  match g.slot? p with
  | none => g
  | some i =>
    let g := (g.clearInputs i).modify i fun v => { v with content := .value, volatile := false }
    if (g.dependents i).isEmpty then g.remove p else g

/-- Makes the members of an array readers of its head, and gives their slots. -/
def connectMembers (g : Graph) (i : Slot) (ps : List Position) : List Slot × Graph :=
  ps.foldl
    (fun (js, g) p =>
      let (j, g) := g.ensure p
      (js ++ [j], g.connect i j))
    ([], g)

/-- Gives the vertex of a cell a formula, and marks it and the other members of its array. -/
def install (g : Graph) (p : Position) (content : Vertex.Content) (d : Dependencies) : Graph :=
  let (i, g) := g.ensure p
  let g := g.modify i fun v => { v with content, volatile := false }
  let (js, g) := g.connectMembers i (content.members.filter (· != p))
  js.foldl markFrom (g.rewire i d)

/-- Marks every formula. -/
def markFormulas (g : Graph) : Graph :=
  let formulas := g.places.values.filter fun i => (g.vertex? i).any (·.expression?.isSome)
  formulas.foldl markFrom g

end Spreadsheet.Graph
