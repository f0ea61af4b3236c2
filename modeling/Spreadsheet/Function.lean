import Spreadsheet.Store
import Spreadsheet.Simulation.Model

/-!
Functions of the sheet. A function says how each of its arguments reaches it and what it does with them;
what it does may draw random numbers and refer to areas that no formula mentions.
-/

namespace Spreadsheet

/-- How an argument reaches a function. -/
inductive Passing where
  /-- By its value. -/
  | value
  /-- By its text, which is not evaluated; `$` marks are left out. -/
  | label
  /-- As a reference to a cell, with the value and the format of that cell. -/
  | metadata
  /-- As a cell that a simulation samples; outside simulations its samples are passed. -/
  | samples
deriving DecidableEq, Inhabited

/-- A parameter of a function. -/
structure Parameter where
  /-- The name. -/
  name : String
  /-- How arguments are passed. -/
  passing : Passing := .value
  /-- Whether the function deals with values of any kind and with nothing, too. -/
  anyValue : Bool := false
  /-- Whether an error may be passed; other parameters make the call fail. -/
  acceptsErrors : Bool := false
  /-- What takes the place of an argument that is left out or empty. -/
  default : Option Value := none
deriving Inhabited

/-- The present time, as serial numbers. -/
structure Clock where
  /-- The present instant. -/
  now : Float
  /-- The midnight before it. -/
  midnight : Float
deriving Inhabited

/-- Where and when a function is called. -/
structure CallSite where
  /-- The cell that is calculated. -/
  position : Position
  /-- The number of the call in the formula, counted from 1 in the order of evaluation. -/
  index : Nat
  /-- The cells of the sheet. -/
  store : Store
  /-- The name of the sheet. -/
  sheet : String
  /-- The present time. -/
  clock : Clock

/-- What calculations leave behind: the random numbers drawn and the samples registered, and the areas
that were referred to without being mentioned in the formula. -/
structure Effects where
  /-- The simulation. -/
  model : Simulation.Model
  /-- The areas, in the order in which they were referred to. -/
  areas : List Area := []

/-- A calculation with effects. -/
abbrev Action := StateM Effects

namespace Action

/-- Draws a random number. -/
def random : Action Float :=
  modifyGet fun e =>
    let (x, model) := e.model.random
    (x, { e with model })

/-- Notes that an area is referred to. -/
def refer (a : Area) : Action Unit :=
  modify fun e => { e with areas := e.areas ++ [a] }

end Action

/-- A cell that is drawn or clicked. -/
structure HookSite where
  /-- The cell. -/
  position : Position
  /-- Its calculated value. -/
  value : Value
  /-- The values of the arguments of its formula. -/
  arguments : List Value

/-- What drawing or clicking a cell leads to. -/
structure HookResult where
  /-- Whether nothing else should be done. -/
  handled : Bool := false
  /-- The value to be drawn or stored. -/
  value : Option Value := none
  /-- Where to go. -/
  target : Option String := none

/-- A function of the sheet. -/
structure Function where
  /-- The name. -/
  name : String
  /-- What it does, in words. -/
  description : String := ""
  /-- The parameters; the last one takes all arguments that follow. -/
  parameters : List Parameter := []
  /-- Whether each pass calculates its cells anew. -/
  volatile : Bool := false
  /-- Whether each pass of a simulation calculates its cells anew. -/
  volatileInSimulation : Bool := false
  /-- What it gives for its arguments. -/
  apply : CallSite → List Value → Action Value
  /-- What drawing its cell leads to. -/
  render : HookSite → Option HookResult := fun _ => none
  /-- What clicking its cell leads to. -/
  click : HookSite → Option HookResult := fun _ => none

namespace Function

/-- The parameter that takes the argument at an index, if there are parameters. -/
def parameter? (f : Function) (i : Nat) : Option Parameter :=
  match f.parameters[i]? with
  | some p => some p
  | none => f.parameters.getLast?

/-- How the argument at an index is passed. -/
def passing (f : Function) (i : Nat) : Passing :=
  ((f.parameter? i).map Parameter.passing).getD .value

/-- Whether the argument at an index may be an error. -/
def acceptsError (f : Function) (i : Nat) : Bool :=
  ((f.parameter? i).map Parameter.acceptsErrors).getD false

/-- Whether a call makes its cell volatile. -/
def isVolatile (f : Function) (simulating : Bool) : Bool :=
  f.volatile || (f.volatileInSimulation && simulating)

/-- Puts the defaults in the place of arguments that are left out or empty. -/
def fillDefaults : List Parameter → List Value → List Value
  | [], vs => vs
  | p :: ps, [] =>
    let rest := fillDefaults ps []
    match p.default with
    | some d => d :: rest
    | none => if rest.isEmpty then [] else .undefined :: rest
  | p :: ps, v :: vs =>
    (if v.isUndefined then p.default.getD v else v) :: fillDefaults ps vs

/-- Whether an argument is an error that the function does not accept. -/
def refuses (f : Function) (vs : List Value) : Bool :=
  vs.zipIdx.any fun (v, i) => v.isError && !f.acceptsError i

end Function

end Spreadsheet
