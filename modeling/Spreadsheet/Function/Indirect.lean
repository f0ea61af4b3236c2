import Spreadsheet.Formula.Parse
import Spreadsheet.Function.Arguments

/-!
References built from texts. The area that such a reference names is reported, since no formula mentions
it.
-/

namespace Spreadsheet.Function

/-- Reads a text as an area: one reference, or two with a colon between them. -/
def areaOfText? (s : String) : Option Area := do
  let cs := s.toList
  let first ← Formula.parseReference {} (String.ofList (cs.takeWhile (· != ':')))
  if cs.contains ':' then
    let rest := (cs.dropWhile (· != ':')).drop 1
    return Area.between first (← Formula.parseReference {} (String.ofList rest))
  else return Area.between first first

/-- Reads the reference that a text names. -/
def readText (site : CallSite) (s : String) : Action Value :=
  match areaOfText? s with
  | none => return .explained .ref ("not a reference: " ++ Text.quoted s)
  | some area =>
    if area.first.isOnSheet site.sheet then do
      Action.refer area
      return (site.store.readArea? area).getD (.ofCode .ref)
    else return .ofCode .ref

/-- References built from texts. -/
def indirect : List Function :=
  [{ name := "INDIRECT", description := "Returns the value of a reference given as text",
      parameters := [{ name := "reference text" }],
      apply := fun site vs =>
        elementwiseM (fun xs => readText site (argument xs 0).toText) (vs.take 1) }]

end Spreadsheet.Function
