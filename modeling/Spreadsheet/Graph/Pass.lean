import Spreadsheet.Graph.Cycle
import Spreadsheet.Graph.Dirty

/-!
Passes. A pass calculates the dirty vertices of a graph. It takes slots from a queue: a vertex with a dirty
input is left alone, since its inputs put it into the queue again when they are done; a vertex on a cycle
fails; any other is calculated. A calculation may find that the vertex reads something else than it was
known to; then its dependencies are replaced and it is tried again.
-/

namespace Spreadsheet.Graph

/-- What the calculation of a formula comes to. -/
inductive Outcome where
  /-- A value, and whether each pass has to calculate it anew. -/
  | value (v : Value) (volatile : Bool)
  /-- The formula reads this, which is more than it was known to read. -/
  | rewire (d : Dependencies)

/-- What a pass asks for. The cells, and whatever else calculations read and change, are the state. -/
structure Handler (σ : Type) where
  /-- Calculates the formula of a vertex. -/
  calculate : Vertex → Expression → StateM σ Outcome
  /-- The value of a cell without a formula. -/
  read : Position → StateM σ Value
  /-- Stores the result of a formula in its cell. -/
  store : Position → Value → StateM σ Unit
  /-- Spreads the result of an array formula over its area. -/
  spread : Area → Value → StateM σ Unit

/-- The bounds of a pass. -/
structure Limits where
  /-- How often the dependencies of one vertex may be replaced before it fails. -/
  rebuilds : Nat := 8
  /-- How many slots are taken from the queue before the pass is cut short. -/
  steps : Nat := 1000000
deriving DecidableEq, Inhabited

/-- What a pass has done. -/
structure Tally where
  /-- The number of vertices that were calculated. -/
  calculated : Nat := 0
  /-- The number of vertices that failed because they are on cycles. -/
  cycles : Nat := 0
  /-- How often dependencies had to be replaced. -/
  rebuilds : Nat := 0
  /-- Whether the pass was cut short. -/
  truncated : Bool := false
deriving DecidableEq, Inhabited

/-- How far a pass has come. -/
structure Pass (σ : Type) where
  /-- The graph. -/
  graph : Graph
  /-- The slots that are still to be looked at. -/
  queue : List Slot
  /-- What has been done. -/
  tally : Tally := {}
  /-- The cells. -/
  state : σ

namespace Pass

variable {σ : Type}

/-- Writes a result into the cells. -/
def deliver (h : Handler σ) (v : Vertex) (x : Value) : StateM σ Unit :=
  match v.content with
  | .value => pure ()
  | .formula _ => h.store v.position x
  | .array _ a => h.spread a x

/-- Ends the work on a vertex: its result is stored, and those who read it are put into the queue. -/
def settle (h : Handler σ) (p : Pass σ) (i : Slot) (v : Vertex) (x : Value) : Pass σ :=
  { p with
    graph := p.graph.modify i fun v => { v with result := x, dirty := false }
    queue := p.queue ++ v.dependents
    state := ((deliver h v x).run p.state).2 }

/-- The error of vertices that cannot be calculated. -/
def failure : Value := .ofCode .loop

/-- Ends the work on a vertex that has been calculated. -/
def finish (h : Handler σ) (p : Pass σ) (i : Slot) (v : Vertex) (x : Value) : Pass σ :=
  settle h { p with tally.calculated := p.tally.calculated + 1 } i v x

/-- Notes whether the formula of a vertex is volatile. -/
def noteVolatile (g : Graph) (i : Slot) (volatile : Bool) : Graph :=
  { g.modify i fun v => { v with volatile } with
    volatiles := if volatile then g.volatiles ++ [i] else g.volatiles }

/-- Replaces the dependencies of a vertex and puts it into the queue again; a vertex for which this has
happened too often fails. -/
def rebuild (h : Handler σ) (limit : Nat) (p : Pass σ) (i : Slot) (v : Vertex) (d : Dependencies) :
    Pass σ :=
  let p :=
    { p with
      graph := p.graph.modify i fun v => { v with rebuilds := v.rebuilds + 1 }
      tally.rebuilds := p.tally.rebuilds + 1 }
  if limit ≤ v.rebuilds then settle h p i v failure
  else
    let g := p.graph.rewire i d
    { p with
      graph := { g with marked := g.marked.filter (· != i) }
      queue := p.queue ++ [i] }

/-- Calculates a vertex whose inputs are all clean. -/
def calculate (h : Handler σ) (limit : Nat) (p : Pass σ) (i : Slot) (v : Vertex) : Pass σ :=
  match v.expression? with
  | none =>
    let (x, state) := (h.read v.position).run p.state
    finish h { p with state } i v x
  | some e =>
    let (outcome, state) := (h.calculate v e).run p.state
    match outcome with
    | .value x volatile => finish h { p with state, graph := noteVolatile p.graph i volatile } i v x
    | .rewire d => rebuild h limit { p with state } i v d

/-- Looks at one slot. -/
def step (h : Handler σ) (limit : Nat) (p : Pass σ) (i : Slot) : Pass σ :=
  let p := { p with graph := p.graph.refreshCycles }
  match p.graph.vertex? i with
  | none => p
  | some v =>
    if v.dirty then
      let (onCycle, graph) := p.graph.checkCycle i
      let p := { p with graph }
      if onCycle then settle h { p with tally.cycles := p.tally.cycles + 1 } i v failure
      else if v.inputs.any graph.isDirty then p
      else calculate h limit p i v
    else p

/-- Cuts a pass short. What is dirty is left to the next pass. -/
def cut (p : Pass σ) : Pass σ :=
  { p with
    graph := { p.graph with marked := (List.range p.graph.slots.size).filter p.graph.isDirty }
    tally.truncated := true }

/-- Looks at the slots in the queue until it is empty or the given number of them has been taken. -/
def run (h : Handler σ) (limit : Nat) : Nat → Pass σ → Pass σ
  | steps, p =>
    match p.queue with
    | [] => p
    | i :: queue =>
      match steps with
      | 0 => p.cut
      | steps + 1 => run h limit steps (step h limit { p with queue } i)

end Pass

/-- The start of a pass: the vertices that have been marked are in the queue. -/
def beginPass (g : Graph) (state : σ) : Pass σ :=
  { graph := g.marked.foldl (fun g i => g.modify i fun v => { v with rebuilds := 0 }) { g with marked := [] }
    queue := g.marked
    state }

/-- Calculates what is dirty. -/
def recalculate (g : Graph) (h : Handler σ) (limits : Limits) (state : σ) : Pass σ :=
  (g.beginPass state).run h limits.rebuilds limits.steps

end Spreadsheet.Graph
