import Spreadsheet.Function.Arithmetic
import Spreadsheet.Function.Calendar
import Spreadsheet.Function.ComplexNumber
import Spreadsheet.Function.Elementary
import Spreadsheet.Function.Indirect
import Spreadsheet.Function.Library
import Spreadsheet.Function.Logic
import Spreadsheet.Function.Random
import Spreadsheet.Function.Statistics
import Spreadsheet.Function.Table
import Spreadsheet.Function.Texts
import Spreadsheet.Function.Widget

/-!
The standard library of functions.
-/

namespace Spreadsheet.Library

/-- All standard functions. Those registered first keep their names. -/
def standard : Library :=
  ([Function.statistics, Function.arithmetic, Function.logic, Function.tables, Function.calendar,
    Function.information, Function.texts, Function.widgets, Function.complexNumbers,
    Function.randomNumbers, Function.indirect, Function.elementary].foldl registerAll empty).addAlias
    "MEAN" "AVERAGE"

end Spreadsheet.Library
