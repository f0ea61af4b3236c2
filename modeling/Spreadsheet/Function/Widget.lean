import Spreadsheet.Function.Statistics

/-!
Functions whose cells are drawn or clicked. Their hooks tell what should happen; doing it is left to the
program that shows the sheet.
-/

namespace Spreadsheet.Function

/-- A click on a link goes to its target, if it has one. -/
def followLink (site : HookSite) : Option HookResult :=
  let target := (argument site.arguments 1).toText
  some { handled := !target.isEmpty, target := if target.isEmpty then none else some target }

/-- A result that shows or stores a value. -/
def showing (v : Value) : Option HookResult := some { handled := true, value := some v }

/-- The numbers of the first argument, to be plotted. -/
def plotted (site : HookSite) : Option HookResult :=
  showing (.array [(scalars (site.arguments.take 1)).filter isNumber])

/-- A function whose cell is a plot and has no value. -/
def plot (name : String) (parameters : List Parameter) : Function :=
  { name, parameters, apply := fun _ _ => pure .undefined, render := plotted }

/-- Links, boxes to tick and plots. -/
def widgets : List Function :=
  [{ plain "HYPERLINK" [{ name := "text" }, { name := "URL or reference" }]
        (fun vs => .text (argument vs 0).toText) with
      click := followLink },
    { plain "CHECKBOX" [{ name := "checked" }] (fun vs => .boolean (isTrue (argument vs 0))) with
      render := fun site => showing (.boolean (isTrue site.value))
      click := fun site => showing (.boolean (!isTrue site.value)) },
    plot "SPARKLINE.COLUMN" [{ name := "data" }, { name := "color" }, { name := "negative color" }],
    plot "SPARKLINE.LINE" [{ name := "data" }, { name := "color" }, { name := "line width" }]]

end Spreadsheet.Function
