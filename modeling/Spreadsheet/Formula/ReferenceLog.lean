import Spreadsheet.Expression

/-!
The references a formula makes. While a formula is read every mention is noted; a mention that becomes
the corner of a range, or that stands where no reference may stand, is taken back. What is left is the
list of references in the order of the formula and the cells and ranges the formula depends on.
-/

namespace Spreadsheet.Formula

/-- An entry of the list of references. -/
inductive ReferenceEntry where
  /-- A cell. -/
  | cell (mention : Mention)
  /-- A range. -/
  | range (mention : RangeMention)
  /-- A name. -/
  | name (name : String) (position : Nat)
deriving DecidableEq

namespace ReferenceEntry

/-- Where the entry stands in the formula. -/
def position : ReferenceEntry → Nat
  | .cell m => m.position
  | .range r => r.position
  | .name _ p => p

/-- Whether the entry is a range. -/
def isRange : ReferenceEntry → Bool
  | .range _ => true
  | _ => false

end ReferenceEntry

/-- What has been noted so far. -/
structure ReferenceLog where
  /-- The cells seen, the last one first. -/
  seen : List Mention := []
  /-- The labels of the cells that were taken back, once for each time. -/
  released : List String := []
  /-- The ranges seen, the last one first. -/
  ranges : List RangeMention := []
  /-- The references that stand, in the order in which they were noted. -/
  entries : List ReferenceEntry := []
deriving Inhabited

namespace ReferenceLog

/-- Notes an atom of a formula: a cell or a name. -/
def note (log : ReferenceLog) : Expression → ReferenceLog
  | .cell m => { log with seen := m :: log.seen, entries := log.entries ++ [.cell m] }
  | .identifier p name => { log with entries := log.entries ++ [.name name p] }
  | _ => log

/-- Takes the cells and names at the given places out of the list of references. -/
def forget (log : ReferenceLog) (positions : List Nat) : ReferenceLog :=
  { log with entries := log.entries.filter fun r => r.isRange || !positions.contains r.position }

/-- Takes back the cells that become the corners of a range. -/
def release (log : ReferenceLog) (corners : List Mention) : ReferenceLog :=
  { log with released := corners.map Mention.label ++ log.released }

/-- Notes a range. -/
def fold (log : ReferenceLog) (r : RangeMention) : ReferenceLog :=
  { log with ranges := r :: log.ranges, entries := log.entries ++ [.range r] }

/-- Takes back all references after the first `count` ones. -/
def discardAfter (log : ReferenceLog) (count : Nat) : ReferenceLog :=
  let dropped := log.entries.drop count
  let labels := dropped.filterMap fun
    | .cell m => some m.label
    | _ => none
  { log with released := labels ++ log.released, entries := log.entries.take count }

/-- The cells that a formula depends on, one for each label: those seen more often than taken back. -/
def cells (log : ReferenceLog) : List Mention :=
  (log.seen.map Mention.label).eraseDups.filterMap fun label =>
    if log.released.count label < (log.seen.map Mention.label).count label then
      log.seen.find? fun m => m.label == label
    else none

/-- The ranges that a formula depends on, one for each label. -/
def rangeList (log : ReferenceLog) : List RangeMention :=
  let labels := log.entries.filterMap fun
    | .range r => some r.label
    | _ => none
  labels.eraseDups.filterMap fun label => log.ranges.find? fun r => r.label == label

/-- The list of references in the order of the formula. -/
def inOrder (log : ReferenceLog) : List ReferenceEntry :=
  log.entries.mergeSort fun a b => a.position ≤ b.position

end ReferenceLog

end Spreadsheet.Formula
