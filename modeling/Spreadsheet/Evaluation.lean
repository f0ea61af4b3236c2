import Spreadsheet.Evaluation.Operator
import Spreadsheet.Expression.Render
import Spreadsheet.Expression
import Spreadsheet.Function.Indirect
import Spreadsheet.Function.Library

/-!
Values of expressions. An expression is evaluated at a cell of a sheet, from left to right, every operand
and every argument once; besides its value it is of interest whether it called a volatile function and
which areas it referred to without mentioning them.
-/

namespace Spreadsheet

/-- What the value of an expression depends on. -/
structure Scope where
  /-- The cells of the sheet. -/
  store : Store
  /-- The functions. -/
  library : Library
  /-- The named areas, by their names in upper case. -/
  names : Std.TreeMap String Area := ∅
  /-- The name of the sheet. -/
  sheet : String := "Sheet1"
  /-- The locale in which labels of arguments are written. -/
  locale : Locale := {}
  /-- The present time. -/
  clock : Clock
  /-- The cell that is calculated. -/
  position : Position

namespace Evaluation

/-- How far an evaluation has come. -/
structure Progress where
  /-- What it leaves behind. -/
  effects : Effects
  /-- How many functions have been called. -/
  calls : Nat := 0
  /-- Whether a function that was called is volatile. -/
  volatile : Bool := false

/-- A step of an evaluation. -/
abbrev Step := StateM Progress

/-- The value of a name: a truth value or the values of a named area. -/
def nameValue (s : Scope) (name : String) (area : Area → Value) : Value :=
  let low := Text.lower name
  if low == "true" || low == "t" then .boolean true
  else if low == "false" || low == "f" then .boolean false
  else
    match s.names[Text.upper name]? with
    | some a => area a
    | none => .explained .name ("unknown name: " ++ name)

/-- The value of a reference to one cell. Other sheets cannot be read. -/
def cellValue (s : Scope) (a : Reference) : Value :=
  match a.position? with
  | some p => if a.isOnSheet s.sheet then s.store.read p else .ofCode .ref
  | none => .ofCode .ref

/-- The values of an area, whole rows and columns being cut down to the sheet. -/
def areaValue (s : Scope) (a : Area) : Value :=
  if a.first.isOnSheet s.sheet then (s.store.readArea? a).getD (.ofCode .ref)
  else .ofCode .ref

/-- The cell that an argument refers to, as metadata. -/
def metadata? (s : Scope) (e : Expression) : Option Value :=
  let target :=
    match e with
    | .cell m => some m.target
    | .range _ r => some r.first.target
    | _ => none
  match target with
  | some a =>
    if a.isOnSheet s.sheet then
      a.position?.map fun p =>
        .metadata p (s.store.read p) ((s.store.cell? p).bind Cell.format)
    else none
  | none => none

/-- The text of an argument without its `$` marks. -/
def labelValue (s : Scope) (e : Expression) : Value :=
  .text (String.ofList ((e.render s.locale {}).toList.filter (· != '$')))

/-- The cell whose samples an argument asks for. -/
def sampledCell? : Expression → Option Position
  | .cell m => m.target.position?
  | _ => none

/-- An argument that asks for the samples of a cell. While a simulation is prepared the cell is
registered and its value is passed, and outside simulations its samples are. -/
def samplesValue (e : Expression) (value : Step Value) : Step Value := do
  let model := (← get).effects.model
  match model.phase, sampledCell? e with
  | .preparing, some p =>
    modify fun g => { g with effects.model := model.register p }
    value
  | .idle, some p => return model.collected p
  | _, _ => value

/-- An argument as it reaches a function; `value` evaluates it. Without a reference there is no
metadata. -/
def passArgument (s : Scope) (passing : Passing) (e : Expression) (value : Step Value) :
    Step (Option Value) :=
  match passing with
  | .value => some <$> value
  | .label => return some (labelValue s e)
  | .metadata => return metadata? s e
  | .samples => some <$> samplesValue e value

/-- Counts a call and gives its number. -/
def countCall : Step Nat :=
  modifyGet fun g => (g.calls + 1, { g with calls := g.calls + 1 })

/-- Notes whether a function that is called is volatile. -/
def noteVolatile (f : Function) : Step Unit :=
  modify fun g => { g with volatile := g.volatile || f.isVolatile g.effects.model.isActive }

/-- Runs what a function does. -/
def act (action : Action α) : Step α :=
  modifyGet fun g =>
    let (a, effects) := action.run g.effects
    (a, { g with effects })

/-- Calls a function with the arguments as they have been passed. -/
def applyFunction (s : Scope) (f : Function) (index : Nat) (arguments : Option (List Value)) :
    Step Value :=
  match arguments with
  | none => return .ofCode .ref
  | some vs =>
    let vs := Function.fillDefaults f.parameters vs
    if f.refuses vs then return .ofCode .arg
    else act (f.apply ⟨s.position, index, s.store, s.sheet, s.clock⟩ vs)

mutual

/-- The value of an expression. -/
def evaluate (s : Scope) : Expression → Step Value
  | .literal _ v _ => return v
  | .complex _ z _ => return Value.ofComplex z
  | .imaginary _ x _ => return Value.ofComplex ⟨0, x⟩
  | .array _ columns => return .array columns
  | .missing _ => return .undefined
  | .identifier _ name => return nameValue s name (areaValue s)
  | .cell m => return cellValue s m.target
  | .range _ r => return areaValue s r.area
  | .unary _ symbol a => do
    let v ← evaluate s a
    return Operator.applySign symbol v
  | .binary _ symbol a b => do
    let v ← evaluate s a
    let w ← evaluate s b
    return Operator.applyBinary symbol v w
  | .call _ name args => do
    let index ← countCall
    match s.library.find? name with
    | none => return .explained .name ("unknown function: " ++ name)
    | some f =>
      noteVolatile f
      let vs ← evaluateArguments s f 0 args
      applyFunction s f index vs
  | .group _ [e] _ => evaluate s e
  | .group _ _ _ => return .ofCode .expr
  | .operator _ _ => return .ofCode .expr

/-- The arguments of a call as they reach the function, from the one at index `i` on. One that cannot be
passed ends the evaluation of those after it. -/
def evaluateArguments (s : Scope) (f : Function) (i : Nat) :
    List Expression → Step (Option (List Value))
  | [] => return some []
  | e :: es => do
    match ← passArgument s (f.passing i) e (evaluate s e) with
    | none => return none
    | some v =>
      let vs ← evaluateArguments s f (i + 1) es
      return vs.map (v :: ·)

end

end Evaluation

/-- What an evaluation gives. -/
structure Evaluation where
  /-- The value. -/
  value : Value
  /-- Whether a function that was called is volatile. -/
  volatile : Bool
  /-- The areas that were referred to without being mentioned. -/
  areas : List Area
  /-- The simulation afterwards. -/
  model : Simulation.Model

namespace Expression

/-- Calculates an expression. -/
def calculate (s : Scope) (model : Simulation.Model) (e : Expression) : Evaluation :=
  let (value, g) := (Evaluation.evaluate s e).run { effects := { model } }
  { value, volatile := g.volatile, areas := g.effects.areas, model := g.effects.model }

/-- Whether an expression calls a function that is volatile outside simulations. -/
def callsVolatile (library : Library) (e : Expression) : Bool :=
  e.units.any fun
    | .call _ name _ => ((library.find? name).map Function.volatile).getD false
    | _ => false

/-- The function that an expression calls at its top, its arguments, and the simulation after they have
been evaluated. A call whose arguments cannot be passed gives no function. -/
def callArguments (s : Scope) (model : Simulation.Model) (e : Expression) :
    Option (Function × List Value) × Simulation.Model :=
  match e with
  | .call _ name args =>
    match s.library.find? name with
    | some f =>
      let (vs, g) := (Evaluation.evaluateArguments s f 0 args).run { effects := { model }, calls := 1 }
      (vs.map fun vs => (f, Function.fillDefaults f.parameters vs), g.effects.model)
    | none => (none, model)
  | _ => (none, model)

end Expression

end Spreadsheet
