import Spreadsheet.Sheet.Basic

/-!
Edits. An edit changes cells and the graph together and marks what depends on the cells; nothing is
calculated yet. The cells of an array formula can only be changed as a whole, from the first of them, and
an edit that is refused changes nothing.
-/

namespace Spreadsheet.Sheet

/-- Empties a cell that belongs to no array formula any more. -/
def erase (s : Sheet) (p : Position) : Sheet :=
  { s with
    store := s.store.clear p
    graph := (s.graph.demote p).setDirty p }

/-- Removes an array formula. -/
def eraseArray (s : Sheet) (a : Area) : Sheet := a.members.foldl erase s

/-- Makes way for an edit of a cell: an array formula that starts there is removed. -/
def detach (s : Sheet) (p : Position) : Except SheetError Sheet :=
  match s.arrayAt? p with
  | none => .ok s
  | some a => if a.topLeft? = some p then .ok (s.eraseArray a) else .error (.arrayMember p)

/-- Puts a formula into the graph. -/
def install (s : Sheet) (p : Position) (content : Vertex.Content) (e : Expression) : Sheet :=
  { s with graph := s.graph.install p content (s.dependencies e) }

/-- Enters a value. -/
def setValue (s : Sheet) (p : Position) (v : Value) : Except SheetError Sheet := do
  let s ← s.detach p
  return { s with
    store := s.store.setValue p v
    graph := (s.graph.demote p).setDirty p }

/-- Enters a formula. -/
def setFormula (s : Sheet) (p : Position) (text : String) : Except SheetError Sheet := do
  let e ← s.parse text
  let s ← s.detach p
  return { s with store := s.store.setFormula p text }.install p (.formula e) e

/-- Empties a cell, and a whole array formula with its first cell. -/
def clear (s : Sheet) (p : Position) : Except SheetError Sheet :=
  match s.arrayAt? p with
  | none => .ok (s.erase p)
  | some a => if a.topLeft? = some p then .ok (s.eraseArray a) else .error (.arrayMember p)

/-- What typed text stands for, unless it is a formula or nothing: a number, a truth value or, as it has
been typed, a text. -/
def typedValue (text trimmed : String) : Value :=
  match Number.ofText trimmed with
  | some x => .number x
  | none =>
    if Text.equalIgnoringCase trimmed "true" then .boolean true
    else if Text.equalIgnoringCase trimmed "false" then .boolean false
    else .text text

/-- Enters what is typed: with `=` in front a formula, nothing to empty the cell, or else a value. -/
def setInput (s : Sheet) (p : Position) (text : String) : Except SheetError Sheet :=
  match Text.trimChars text.toList with
  | [] => s.clear p
  | c :: cs =>
    let trimmed := String.ofList (c :: cs)
    if c = '=' then s.setFormula p trimmed else s.setValue p (typedValue text trimmed)

/-- Makes a cell a member of an array formula. -/
def enlist (s : Sheet) (a : Area) (p : Position) : Sheet :=
  { s with
    store := s.store.update p fun c => { c.reset with area := some a }
    graph := s.graph.demote p }

/-- Enters one formula for a whole area. Its text goes into the first cell. -/
def setArray (s : Sheet) (a : Area) (text : String) : Except SheetError Sheet :=
  match a.isBounded, a.topLeft? with
  | true, some head => do
    let e ← s.parse text
    let others := a.members.filterMap s.arrayAt?
    if others.any (· != a) then .error (.arrayOverlap a)
    else
      let s := if others.isEmpty then s else s.eraseArray a
      let s := a.members.foldl (fun s p => s.enlist a p) s
      return { s with store := s.store.setFormula head text }.install head (.array e a) e
  | _, _ => .error (.unboundedArea a)

/-- Puts the formula of a cell into the graph again. One that cannot be read any more is an error. -/
def reinstall (s : Sheet) (p : Position) (c : Cell) : Sheet :=
  match c.formula? with
  | none => s
  | some text =>
    match s.parse text with
    | .ok e =>
      match c.area.filter (·.topLeft? = some p) with
      | some a => s.install p (.array e a) e
      | none => s.install p (.formula e) e
    | .error _ => { s with store := s.store.adjust p (·.setResult (.ofCode .expr)) }

/-- Builds the graph anew from the cells; every formula is marked. -/
def rebuild (s : Sheet) : Sheet :=
  s.store.toList.foldl (fun s (p, c) => s.reinstall p c) { s with graph := {} }

/-- Names an area; the case of letters in names does not matter. -/
def defineName (s : Sheet) (name : String) (a : Area) : Sheet :=
  { s with names := s.names.insert (Text.upper name) a }.rebuild

/-- Forgets a name; without that name there is no result. -/
def removeName? (s : Sheet) (name : String) : Option Sheet :=
  if s.names.contains (Text.upper name) then
    some { s with names := s.names.erase (Text.upper name) }.rebuild
  else none

end Spreadsheet.Sheet
