import Spreadsheet.Sheet.Basic

/-!
Passes over a sheet. Formulas are calculated with the cells as they are at that moment; a formula that
refers to cells which it was not known to read has its dependencies replaced first. The result of an array
formula is spread over its area.
-/

namespace Spreadsheet

/-- The part of a value that a member of an array formula shows: the element at its place, `#NA` where an
array has none, or the value itself if it is no array. -/
def Value.elementFor (v : Value) (head p : Position) : Value :=
  match v with
  | .array columns =>
    ((columns[p.column - head.column]?).bind (·[p.row - head.row]?)).getD (.ofCode .na)
  | v => v

namespace Contents

/-- Stores a result. -/
def setResult (c : Contents) (p : Position) (v : Value) : Contents :=
  { c with store := c.store.update p (·.setResult v) }

/-- Spreads the result of an array formula over its area. -/
def spread (c : Contents) (a : Area) (v : Value) : Contents :=
  match a.topLeft? with
  | some head => a.members.foldl (fun c p => c.setResult p (v.elementFor head p)) c
  | none => c

end Contents

namespace Environment

/-- Calculates the formula of a vertex. -/
def calculate (env : Environment) (v : Vertex) (e : Expression) : StateM Contents Graph.Outcome :=
  modifyGet fun c =>
    let r := e.calculate (env.scope c.store v.position) c.model
    let outcome :=
      if r.areas.all v.dependencies.covers then .value r.value r.volatile
      else .rewire (r.areas.foldl Dependencies.addArea (env.dependencies e))
    (outcome, { c with model := r.model })

/-- What a pass over a sheet asks for. -/
def handler (env : Environment) : Graph.Handler Contents :=
  { calculate := env.calculate
    read := fun p c => (c.store.read p, c)
    store := fun p v => modify (·.setResult p v)
    spread := fun a v => modify (·.spread a v) }

end Environment

/-- Calculates what has been marked, what is volatile and what depends on these. -/
def Sheet.recalculate (s : Sheet) : Graph.Tally × Sheet :=
  let p := s.graph.markVolatile.recalculate s.handler s.settings.limits s.toContents
  (p.tally, { s with toContents := p.state, graph := p.graph })

end Spreadsheet
