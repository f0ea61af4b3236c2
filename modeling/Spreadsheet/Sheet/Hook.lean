import Spreadsheet.Sheet.Basic

/-!
Cells that are drawn or clicked. The function at the top of the formula decides what happens; its arguments
are evaluated for that.
-/

namespace Spreadsheet.Sheet

/-- Runs a hook of the function that the formula of a cell calls at its top. -/
def runHook (s : Sheet) (p : Position) (hook : Function → HookSite → Option HookResult) :
    Option HookResult × Sheet :=
  match (s.graph.vertexAt? p).bind Vertex.expression? with
  | none => (none, s)
  | some e =>
    let (call, model) := e.callArguments (s.scope s.store p) s.model
    (call.bind fun (f, arguments) => hook f ⟨p, s.read p, arguments⟩, { s with model })

/-- Draws a cell. -/
def render (s : Sheet) (p : Position) : Option HookResult × Sheet := s.runHook p Function.render

/-- Clicks a cell. -/
def click (s : Sheet) (p : Position) : Option HookResult × Sheet := s.runHook p Function.click

end Spreadsheet.Sheet
