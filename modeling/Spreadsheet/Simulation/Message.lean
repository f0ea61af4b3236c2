import Spreadsheet.Json
import Spreadsheet.Simulation.Model

/-!
Messages to and from the workers of a simulation. A message is an object whose field `type` says what it
is, or a list that starts with the type and goes on with the fields in order; unknown fields are ignored.
-/

namespace Spreadsheet.Simulation

/-- A message. -/
inductive Message where
  /-- What a worker needs to know before it starts. -/
  | configure (seed : Option Nat) (locale : String) (sheets : List String)
      (names : List (String × String)) (cells : List Position)
  /-- The start of a number of trials. -/
  | start (trials : Nat) (latinHypercube screenUpdates : Bool)
  /-- How much is done, in percent. -/
  | progress (percent : Float)
  /-- How much is done, and samples of the trials so far. -/
  | update (percent : Float) (data : List Float)
  /-- The samples of all trials. -/
  | complete (data : List Float)

namespace Message

/-- The fields of a record with the given names: those of an object, or all items of a list. A field that
an object lacks is the missing value. -/
def record? (names : List String) : Json → Option (List Json)
  | .object fields => some (names.map fun n => ((Json.object fields).field? n).getD .null)
  | .array items => if items.length = names.length then some items else none
  | _ => none

/-- The bound of integers of 64 bits. -/
def wordBound : Nat := 0x10000000000000000

/-- An integer of 64 bits, or nothing. -/
def optionalWord? : Json → Option (Option Nat)
  | .null => some none
  | j => (j.natural? wordBound).map some

/-- A list whose items all are of one kind. -/
def list? (item : Json → Option α) (j : Json) : Option (List α) := do
  (← j.items?).mapM item

/-- A position as a record of its row and its column. -/
def position? (j : Json) : Option Position := do
  match ← record? ["row", "column"] j with
  | [r, c] => return ⟨← r.natural? Row.numberBound, ← c.natural? Row.numberBound⟩
  | _ => none

/-- Texts by names. -/
def texts? (j : Json) : Option (List (String × String)) := do
  (← j.fields?).mapM fun (name, value) => return (name, ← value.string?)

/-- Reads the fields of a message of the given type. -/
def ofFields? (type : String) (fields : Json) : Option Message := do
  match type with
  | "configure" =>
    match ← record? ["seed", "locale", "serializedSheets", "namedRanges", "additionalCells"] fields with
    | [seed, locale, sheets, names, cells] =>
      return .configure (← optionalWord? seed) (← locale.string?) (← list? Json.string? sheets)
        (← texts? names) (← list? position? cells)
    | _ => none
  | "start" =>
    match ← record? ["trials", "lhs", "screenUpdates"] fields with
    | [trials, lhs, screen] =>
      return .start (← trials.natural? wordBound) (← lhs.boolean?) (← screen.boolean?)
    | _ => none
  | "progress" =>
    match ← record? ["percentComplete"] fields with
    | [percent] => return .progress (← percent.float?)
    | _ => none
  | "update" =>
    match ← record? ["percentComplete", "trialData"] fields with
    | [percent, data] => return .update (← percent.float?) (← list? Json.float? data)
    | _ => none
  | "complete" =>
    match ← record? ["trialData"] fields with
    | [data] => return .complete (← list? Json.float? data)
    | _ => none
  | _ => none

/-- Reads a message. -/
def ofJson? : Json → Option Message
  | .object fields =>
    match (Json.object fields).field? "type" with
    | some (.string type) => ofFields? type (.object fields)
    | _ => none
  | .array (.string type :: fields) => ofFields? type (.array fields)
  | _ => none

/-- An integer. -/
def word (n : Nat) : Json := .number (String.ofList (Nat.toDigits 10 n))

/-- Writes a message; `number` writes its floating-point numbers. -/
def toJson (number : Float → Json) : Message → Json
  | .configure seed locale sheets names cells =>
    .object
      [("type", .string "configure"),
        ("seed", (seed.map word).getD .null),
        ("locale", .string locale),
        ("serializedSheets", .array (sheets.map .string)),
        ("namedRanges", .object (names.map fun (n, s) => (n, .string s))),
        ("additionalCells",
          .array (cells.map fun p => .object [("row", word p.row), ("column", word p.column)]))]
  | .start trials lhs screen =>
    .object
      [("type", .string "start"), ("trials", word trials), ("lhs", .boolean lhs),
        ("screenUpdates", .boolean screen)]
  | .progress percent =>
    .object [("type", .string "progress"), ("percentComplete", number percent)]
  | .update percent data =>
    .object
      [("type", .string "update"), ("percentComplete", number percent),
        ("trialData", .array (data.map number))]
  | .complete data =>
    .object [("type", .string "complete"), ("trialData", .array (data.map number))]

end Message

end Spreadsheet.Simulation
