import Spreadsheet.Function.Arguments

/-!
Conditions and errors as arguments.
-/

namespace Spreadsheet.Function

/-- Whether a value makes a choice take its first branch. A text does unless it spells `false` or `f`. -/
def isCondition (v : Value) : Bool :=
  match v.scalar with
  | .text s => !(Text.equalIgnoringCase s "false" || Text.equalIgnoringCase s "f")
  | other => isTrue other

/-- The negation of one argument, element by element. -/
def negation : List Value → Value
  | [] => .ofCode .arg
  | [v] => v.map fun x => .boolean (!isTrue x)
  | _ => .boolean true

/-- The element of a branch at a place; a branch that is no array is the same everywhere. -/
def branchAt (branch : Value) (c r : Nat) : Value :=
  match branch with
  | .array columns => (columns.getD c []).getD r .undefined
  | v => v

/-- Chooses between two branches, for each element of the condition if that is an array. -/
def choice (vs : List Value) : Value :=
  let whenTrue := argument vs 1
  let whenFalse := argument vs 2
  match argument vs 0 with
  | .array columns =>
    .array (columns.zipIdx.map fun (column, c) => column.zipIdx.map fun (v, r) =>
      branchAt (if isCondition v then whenTrue else whenFalse) c r)
  | v => if isCondition v then whenTrue else whenFalse

/-- The first argument, or the second if the first is an error. -/
def withoutError (vs : List Value) : Value :=
  if (argument vs 0).isError then argument vs 1 else argument vs 0

/-- Conditions and tests for errors. -/
def logic : List Function :=
  [plain "AND" [] fun vs => .boolean ((scalars vs).all isTrue),
    plain "OR" [] fun vs => .boolean ((scalars vs).any isTrue),
    plain "NOT" [] negation,
    plain "IF"
      [{ name := "test value", anyValue := true },
        { name := "value if true", anyValue := true, acceptsErrors := true,
          default := some (.boolean true) },
        { name := "value if false", anyValue := true, acceptsErrors := true,
          default := some (.boolean false) }]
      choice,
    plain "IFERROR"
      [{ name := "original value", anyValue := true, acceptsErrors := true },
        { name := "alternate value", default := some (.number 0) }]
      withoutError
      "Returns the original value, or the alternate value if the original value contains an error",
    plain "ISERROR" [{ name := "reference", anyValue := true, acceptsErrors := true }]
      (fun vs => .boolean ((argument vs 0).flatten.any Value.isError))
      "Checks if another cell contains an error"]

end Spreadsheet.Function
