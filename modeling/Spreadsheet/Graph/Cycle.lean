import Spreadsheet.Graph.Basic

/-!
Cycles of dependency graphs. A vertex is on a cycle if edges lead from it back to it. What has been found
out about a vertex is kept until edges change.
-/

namespace Spreadsheet.Graph

theorem count_set_false_lt {xs : Array Bool} {i : Nat} (h : i < xs.size) (hi : xs[i] = true) :
    (xs.set i false h).count true < xs.count true := by
  have hpos : 0 < xs.count true := Array.count_pos_iff.2 (hi ▸ Array.getElem_mem h)
  simp only [Array.count_set, hi, beq_self_eq_true, ↓reduceIte,
    show (false == true) = false from rfl, Bool.false_eq_true, Nat.add_zero]
  omega

/-- Whether edges lead from one of the vertices on a stack to the goal. Vertices that have been seen are
passed over. -/
def reaches (g : Graph) (goal : Slot) (unseen : Array Bool) (stack : List Slot) : Bool :=
  match stack with
  | [] => false
  | i :: rest =>
    if i = goal then true
    else if h : i < unseen.size then
      if hi : unseen[i] = true then
        have := count_set_false_lt h hi
        g.reaches goal (unseen.set i false h) (g.dependents i ++ rest)
      else g.reaches goal unseen rest
    else g.reaches goal unseen rest
termination_by (unseen.count true, stack.length)

/-- Whether a vertex is on a cycle. -/
def isOnCycle (g : Graph) (i : Slot) : Bool :=
  g.reaches i (Array.replicate g.slots.size true) (g.dependents i)

/-- The cells whose vertices are on cycles, row by row. -/
def cycleMembers (g : Graph) : List Position :=
  (g.places.toList.filter fun (_, i) => g.isOnCycle i).map (·.1)

/-- Forgets what is known about cycles if edges have changed. -/
def refreshCycles (g : Graph) : Graph :=
  if g.cyclesStale then
    { g with
      slots := g.slots.map (·.map fun v => { v with onCycle := none })
      cyclesStale := false }
  else g

/-- Whether a vertex is on a cycle, which is found out if it is not known. -/
def checkCycle (g : Graph) (i : Slot) : Bool × Graph :=
  match (g.vertex? i).bind Vertex.onCycle with
  | some b => (b, g)
  | none =>
    let b := g.isOnCycle i
    (b, g.modify i fun v => { v with onCycle := some b })

end Spreadsheet.Graph
