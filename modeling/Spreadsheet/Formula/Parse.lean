import Spreadsheet.Formula.Arrange
import Spreadsheet.Formula.Fold

/-!
Reading formulas. The reader goes once through the code units of a formula and keeps a stack of frames:
the formula itself and the parentheses, calls and arrays that are open. Closing a frame makes an
expression of its stream and hands it to the frame below. Malformed formulas give an expression too, and
the first fault that shows.
-/

namespace Spreadsheet.Formula

/-- Where a stream of units stands. -/
inductive Frame.Kind where
  /-- The formula itself. -/
  | whole
  /-- Parentheses, opened at the given place. -/
  | parentheses (openAt : Nat)
  /-- The arguments of a call. The word starts at `position` and the parenthesis stands at `openAt`;
  `arguments` are those already read, the last one first, and `index` counts the separators. -/
  | call (position : Nat) (name : String) (openAt : Nat) (arguments : List Expression) (index : Nat)
  /-- An array, opened at the given place. The next member goes to the given column and row; references
  after the first `mark` ones belong to the member that is being read. -/
  | array (openAt : Nat) (columns : List (List Value)) (column row mark : Nat)

/-- A stream of units that is being read, the last unit first. -/
structure Frame where
  /-- Where the stream stands. -/
  kind : Frame.Kind
  /-- The units so far, the last one first. -/
  stream : List Expression := []

/-- A reader in the middle of a formula. -/
structure Reader where
  /-- The innermost open frame. -/
  top : Frame := ⟨.whole, []⟩
  /-- The frames around it, the inner ones first. -/
  below : List Frame := []
  /-- The references so far. -/
  log : ReferenceLog := {}
  /-- The first fault. -/
  error : Option ParseError := none

namespace Reader

/-- Notes a fault, unless there has been one. -/
def fail (r : Reader) (fault : Fault) (position : Nat) : Reader :=
  { r with error := r.error <|> some ⟨fault, position⟩ }

/-- The columns with a value put at the given place; places in between stay empty. -/
def put (columns : List (List Value)) (column row : Nat) (v : Value) : List (List Value) :=
  let wide := columns ++ List.replicate (column + 1 - columns.length) []
  wide.modify column fun c =>
    (c ++ List.replicate (row + 1 - c.length) Value.undefined).set row v

/-- The columns filled up to the height of the highest one. -/
def rectangular (columns : List (List Value)) : List (List Value) :=
  let height := (columns.map List.length).foldl max 0
  columns.map fun c => c ++ List.replicate (height - c.length) Value.undefined

/-- Hands a unit to the innermost frame. An array takes literals only. -/
def deliver (r : Reader) (e : Expression) : Reader :=
  match r.top.kind with
  | .array openAt columns column row mark =>
    match e with
    | .literal _ v _ =>
      { r with top.kind := .array openAt (put columns column row v) column row mark }
    | _ =>
      { r with log := r.log.discardAfter mark }.fail .invalidArrayValue e.position
  | _ => { r with top.stream := e :: r.top.stream }

/-- Opens a frame. -/
def push (r : Reader) (kind : Frame.Kind) : Reader :=
  { r with top := ⟨kind, []⟩, below := r.top :: r.below }

/-- Makes an expression of the innermost stream; an empty stream makes none. -/
def closeStream (locale : Locale) (source : List Nat) (r : Reader) : Option Expression × Reader :=
  match r.top.stream.reverse with
  | [] => (none, r)
  | stream =>
    let (stream, log) := Fold.ranges r.log stream
    let (stream, log) := Fold.complexes locale source log stream
    let r := { r with log }
    match Arrange.tree stream with
    | .ok e => (some e, r)
    | .error err => (some (Arrange.degrade stream), r.fail err.fault err.position)

/-- Leaves the innermost frame and hands a unit to the frame around it. -/
def pop (r : Reader) (e : Option Expression) : Reader :=
  match r.below with
  | [] => r
  | f :: below =>
    let r := { r with top := f, below }
    match e with
    | some e => r.deliver e
    | none => r

/-- Closes the innermost frame; `fault` is what is wrong if its closing mark is missing. -/
def close (locale : Locale) (source : List Nat) (r : Reader) (fault : Option Fault) : Reader :=
  let note (r : Reader) (position : Nat) :=
    match fault with
    | some f => r.fail f position
    | none => r
  match r.top.kind with
  | .whole => r
  | .parentheses openAt =>
    let (inner, r) := r.closeStream locale source
    (note r openAt).pop (inner.map fun e => .group openAt [e] true)
  | .call position name openAt arguments _ =>
    let (last, r) := r.closeStream locale source
    (note r openAt).pop (some (.call position name (last.toList ++ arguments).reverse))
  | .array openAt columns _ _ _ =>
    (note r openAt).pop (some (.array openAt (rectangular columns)))

/-- Ends an argument. Arguments that are left out before it are filled in at the separator. -/
def endArgument (locale : Locale) (source : List Nat) (r : Reader) (i : Nat) : Reader :=
  match r.top.kind with
  | .call position name openAt arguments index =>
    let (last, r) := r.closeStream locale source
    let arguments := last.toList ++ arguments
    let filled := List.replicate (index + 1 - arguments.length) (.missing i) ++ arguments
    { r with top := ⟨.call position name openAt filled (index + 1), []⟩ }
  | _ => r

/-- A mark inside an array: a comma goes to the next column, a semicolon to the next row. -/
def arrayMark (locale : Locale) (source : List Nat) (r : Reader) (i u : Nat) : Reader :=
  match r.top.kind with
  | .array openAt columns column row mark =>
    if u == unitOf ';' then { r with top.kind := .array openAt columns 0 (row + 1) mark }
    else if u == unitOf ',' then { r with top.kind := .array openAt columns (column + 1) row mark }
    else if u == unitOf '\x7d' then r.close locale source none
    else r.fail (.invalidArrayCharacter (Text.charOfUnit u)) i
  | _ => r

/-- A mark outside arrays that closes no frame: a parenthesis or an operator. The second component tells
how many units after the mark belong to it. -/
def otherMark (r : Reader) (i u : Nat) (us : List Nat) : Reader × Nat :=
  if u == unitOf '(' then (r.push (.parentheses i), 0)
  else
    match takeOperator (u :: us) with
    | some (symbol, n) => (r.deliver (.operator i symbol), n - 1)
    | none => (r.fail (.unexpectedCharacter (Text.charOfUnit u)) i, 0)

/-- Takes a mark, which may end an argument or close the innermost frame. -/
def mark (locale : Locale) (source : List Nat) (r : Reader) (i u : Nat) (us : List Nat) :
    Reader × Nat :=
  match r.top.kind with
  | .array _ _ _ _ _ => (r.arrayMark locale source i u, 0)
  | .parentheses _ =>
    if u == unitOf ')' then (r.close locale source none, 0) else r.otherMark i u us
  | .call _ _ _ _ _ =>
    if u == unitOf locale.separator.char then (r.endArgument locale source i, 0)
    else if u == unitOf ')' then (r.close locale source none, 0)
    else r.otherMark i u us
  | .whole => r.otherMark i u us

/-- Takes one lexeme. -/
def take (locale : Locale) (source : List Nat) (r : Reader) (i u : Nat) (us : List Nat) :
    Reader × Nat :=
  match Lexeme.read locale r.top.stream.isEmpty i u us with
  | (.space, n) => (r, n)
  | (.atom e none, n) => ({ r with log := r.log.note e }.deliver e, n)
  | (.atom e (some fault), n) => ((r.fail fault e.position).deliver e, n)
  | (.call name openAt, n) => (r.push (.call i name openAt [] 0), n)
  | (.openArray, n) => (r.push (.array i [] 0 0 r.log.entries.length), n)
  | (.mark u, _) => r.mark locale source i u us

/-- Takes all lexemes; `i` is the position of the units that are left. -/
def takeAll (locale : Locale) (source : List Nat) (r : Reader) (i : Nat) :
    List Nat → Reader
  | [] => r
  | u :: us =>
    let (r, n) := r.take locale source i u us
    takeAll locale source r (i + 1 + n) (us.drop n)
termination_by us => us.length
decreasing_by simp only [List.length_drop, List.length_cons]; omega

/-- The fault of a frame that the end of the formula closes. -/
def missingMark : Frame.Kind → Fault
  | .array _ _ _ _ _ => .unterminatedArray
  | _ => .unmatchedParenthesis

/-- Closes the frames that are still open at the end, `depth` of them. -/
def closeAll (locale : Locale) (source : List Nat) (r : Reader) : Nat → Reader
  | 0 => r
  | depth + 1 =>
    closeAll locale source (r.close locale source (some (missingMark r.top.kind))) depth

end Reader

/-- What reading a formula gives. -/
structure Parsed where
  /-- The expression; a formula without content has none. -/
  expression : Option Expression
  /-- The first fault. -/
  error : Option ParseError
  /-- The cells that the formula depends on, one for each label. -/
  cells : List Mention
  /-- The ranges that the formula depends on, one for each label. -/
  ranges : List RangeMention
  /-- All references in the order of the formula. -/
  references : List ReferenceEntry

namespace Parsed

/-- Whether nothing is wrong. -/
def isValid (p : Parsed) : Bool := p.error.isNone

/-- The expression of a formula without faults. -/
def toExcept (p : Parsed) : Except ParseError Expression :=
  match p.error, p.expression with
  | some e, _ => .error e
  | none, some e => .ok e
  | none, none => .error ⟨.empty, 0⟩

end Parsed

/-- The text of a formula without the blanks around it, its `=`, and the blanks after that. -/
def body (text : String) : String :=
  let cs := Text.trimChars text.toList
  match cs with
  | '=' :: rest => String.ofList (Text.trimChars rest)
  | _ => String.ofList cs

/-- Reads a formula. -/
def parse (locale : Locale) (text : String) : Parsed :=
  let source := Text.units (body text)
  let r := Reader.takeAll locale source {} 0 source
  let r := r.closeAll locale source r.below.length
  let (expression, r) := r.closeStream locale source
  { expression
    error := r.error
    cells := r.log.cells
    ranges := r.log.rangeList
    references := r.log.inOrder }

/-- Reads a text that is one mention and nothing else: of a cell, a whole row or a whole column. -/
def parseReference (locale : Locale) (text : String) : Option Reference :=
  match Text.units (Text.trim text) with
  | [] => none
  | u :: us =>
    match Lexeme.read locale true 0 u us with
    | (.atom e none, n) =>
      if n = us.length then
        match e with
        | .cell m => some m.target
        | e => (Mention.ofUnit? e).map Mention.target
      else none
    | _ => none

end Spreadsheet.Formula
