import Spreadsheet.Formula.ReferenceLog
import Spreadsheet.Formula.Mention
import Spreadsheet.Formula.Operator
import Spreadsheet.Formula.Locale
import Spreadsheet.Text.CodeUnits

/-!
Units that are made of several neighbours: two mentions around a colon make a range, a number and an
imaginary number around a sign make a complex number.
-/

namespace Spreadsheet.Formula.Fold

/-- Rereads a negative number as a minus before a row. -/
def negatedRow? : Expression → Option (Expression × Mention)
  | .literal p (.number x) spelling =>
    if x < 0 then
      let bare := spelling.map fun s => String.ofList (s.toList.dropWhile (· == '-'))
      (Mention.ofRowNumber? (-x) bare (p + 1)).map fun m => (.operator p "-", m)
    else none
  | _ => none

/-- The corner of a range of whole rows or columns before a colon, and the minus before it, if any. -/
def leftCorner? (e : Expression) : Option (Option Expression × Mention) :=
  match Mention.ofUnit? e with
  | some m => some (none, m)
  | none => (negatedRow? e).map fun (minus, m) => (some minus, m)

/-- Whether two mentions are both of rows or both of columns. -/
def sameAxis (a b : Mention) : Bool :=
  (a.target.column.isNone && b.target.column.isNone) || (a.target.row.isNone && b.target.row.isNone)

/-- The range that two units around a colon make, with the minus before it, if any. -/
def range? (log : ReferenceLog) (a b : Expression) :
    Option (Option Expression × RangeMention × ReferenceLog) :=
  match a, b with
  | .cell m, .cell n =>
    some (none, .between m n, (log.release [m, n]).forget [m.position, n.position])
  | _, _ =>
    match leftCorner? a, Mention.ofUnit? b with
    | some (minus, m), some n =>
      if sameAxis m n then some (minus, .between m n, log.forget [a.position, b.position]) else none
    | _, _ => none

/-- Makes the ranges of a stream, from left to right. -/
def ranges (log : ReferenceLog) : List Expression → List Expression × ReferenceLog
  | a :: .operator p ":" :: b :: rest =>
    match range? log a b with
    | some (minus, r, log) =>
      let (units, log) := ranges (log.fold r) rest
      (minus.toList ++ .range r.position r :: units, log)
    | none =>
      let (units, log) := ranges log (.operator p ":" :: b :: rest)
      (a :: units, log)
  | a :: rest =>
    let (units, log) := ranges log rest
    (a :: units, log)
  | [] => ([], log)

/-- The text between two places of a formula. -/
def slice (source : List Nat) (start stop : Nat) : String :=
  Text.ofUnits ((source.take stop).drop start)

/-- The imaginary part that a unit gives, where it ends, and whether it was noted as a name. A name that is
the imaginary unit stands for one times the unit. -/
def imaginaryPart? (locale : Locale) : Expression → Option (Float × Nat × Bool)
  | .imaginary p x spelling => some (x, p + (Text.units spelling).length, false)
  | .identifier p name =>
    if name == locale.imaginary.toString then some (1, p + locale.imaginary.utf8Size, true) else none
  | _ => none

/-- A unit that is an imaginary number by itself. -/
def lone (locale : Locale) (log : ReferenceLog) (e : Expression) : Expression × ReferenceLog :=
  match e with
  | .imaginary p x spelling => (.complex p ⟨0, x⟩ (some spelling), log)
  | .identifier p name =>
    if name == locale.imaginary.toString then (.complex p ⟨0, 1⟩ (some name), log.forget [p])
    else (e, log)
  | _ => (e, log)

/-- Makes the complex numbers of a stream, from left to right. -/
def complexes (locale : Locale) (source : List Nat) (log : ReferenceLog) :
    List Expression → List Expression × ReferenceLog
  | .literal p (.number x) spelling :: .operator q s :: c :: rest =>
    match if Operator.isSign s then imaginaryPart? locale c else none with
    | some (y, stop, named) =>
      let z : Complex := ⟨x, if s == "-" then -y else y⟩
      let log := if named then log.forget [c.position] else log
      let (units, log) := complexes locale source log rest
      (.complex p z (some (slice source p stop)) :: units, log)
    | none =>
      let (units, log) := complexes locale source log (.operator q s :: c :: rest)
      (.literal p (.number x) spelling :: units, log)
  | e :: rest =>
    let (e, log) := lone locale log e
    let (units, log) := complexes locale source log rest
    (e :: units, log)
  | [] => ([], log)

end Spreadsheet.Formula.Fold
