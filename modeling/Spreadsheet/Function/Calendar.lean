import Spreadsheet.Date
import Spreadsheet.Function.Arguments

/-!
The present time, and the parts of dates.
-/

namespace Spreadsheet.Function

/-- A part of the date of a serial number. -/
def datePart (part : Date → Int) (x : Float) : Value :=
  match Instant.ofSerial? x with
  | some i => .number (Number.ofInt (part i.date))
  | none => .explained .value ("not a date serial: " ++ Number.toText x)

/-- The function of a part of dates. -/
def dateFunction (name : String) (part : Date → Int) (description : String) : Function :=
  plain name [{ name := "date" }] (ofOneNumber (datePart part)) description

/-- The present time and the parts of dates. -/
def calendar : List Function :=
  [{ name := "NOW", description := "Returns current time", volatile := true,
      apply := fun site _ => pure (.number site.clock.now) },
    { name := "TODAY", description := "Returns current day", volatile := true,
      apply := fun site _ => pure (.number (site.clock.midnight + 0.5)) },
    dateFunction "YEAR" Date.year "Returns year from date",
    dateFunction "MONTH" (fun d => d.month) "Returns month from date",
    dateFunction "DAY" (fun d => d.day) "Returns day of month from date"]

end Spreadsheet.Function
