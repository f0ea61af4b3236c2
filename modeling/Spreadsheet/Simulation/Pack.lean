import Spreadsheet.Simulation.Model

/-!
Samples as flat lists of numbers. Each cell is a block: its column, its row, the number of its samples,
and the samples themselves; the blocks of several cells follow one another.
-/

namespace Spreadsheet.Simulation

/-- What is wrong with a list of numbers that should be blocks. -/
inductive PackError where
  /-- The list is too short for the head of a block. -/
  | missingHeader (length : Nat)
  /-- The head names no cell. -/
  | invalidPosition (column row : Float)
  /-- The head has no valid number of samples. -/
  | invalidCount (count : Float)
  /-- There are fewer samples than the head says. -/
  | truncated (expected found : Nat)

/-- A number in a message. -/
def numeral (n : Nat) : String := String.ofList (Nat.toDigits 10 n)

/-- The wording of a pack error. -/
def PackError.message : PackError → String
  | .missingHeader n => "trial data block needs a 3-value header, got " ++ numeral n ++ " values"
  | .invalidPosition c r =>
    "trial data header is not a valid cell position: column " ++ Number.toText c ++ ", row " ++
      Number.toText r
  | .invalidCount n => "trial data header has an invalid sample count: " ++ Number.toText n
  | .truncated expected found =>
    "trial data truncated: expected " ++ numeral expected ++ " samples, found " ++ numeral found

/-- The samples of one cell. -/
structure Block where
  /-- The cell. -/
  position : Position
  /-- Its samples. -/
  samples : List Float

namespace Block

/-- The numbers of a block. -/
def pack (b : Block) : List Float :=
  Number.ofNat b.position.column :: Number.ofNat b.position.row :: Number.ofNat b.samples.length ::
    b.samples

/-- A number in the head of a block: an integer that 32 bits hold. -/
def headerIndex? (x : Float) : Option Nat :=
  if Number.isIntegral x && 0 ≤ x && x < 4294967296 then some (Number.clampNat 32 x) else none

/-- Reads the block at the front of a list and gives the rest of the list. -/
def take : List Float → Except PackError (Block × List Float)
  | c :: r :: n :: body =>
    match headerIndex? c, headerIndex? r with
    | some column, some row =>
      match headerIndex? n with
      | some count =>
        if body.length < count then .error (.truncated count body.length)
        else .ok (⟨⟨row, column⟩, body.take count⟩, body.drop count)
      | none => .error (.invalidCount n)
    | _, _ => .error (.invalidPosition c r)
  | data => .error (.missingHeader data.length)

theorem length_of_take {data rest : List Float} {b : Block} (h : take data = .ok (b, rest)) :
    rest.length < data.length := by
  unfold take at h
  split at h
  · split at h
    · split at h
      · split at h
        · cases h
        · cases h
          simp only [List.length_drop, List.length_cons]
          omega
      · cases h
    · cases h
  · cases h

/-- Reads a list of blocks. -/
def takeAll (data : List Float) : Except PackError (List Block) :=
  if data.isEmpty then .ok []
  else
    match _h : take data with
    | .error e => .error e
    | .ok (b, rest) => (takeAll rest).map (b :: ·)
termination_by data.length
decreasing_by exact length_of_take ‹_›

end Block

namespace Samples

/-- The blocks of all cells, row by row. -/
def pack (s : Samples) : List Float :=
  s.toList.flatMap fun (p, xs) => Block.pack ⟨p, xs.toList⟩

/-- The samples of a list of blocks; of several blocks of one cell the last counts. -/
def unpack (data : List Float) : Except PackError Samples :=
  (Block.takeAll data).map fun blocks =>
    blocks.foldl (fun s b => s.insert b.position b.samples.toArray) ∅

end Samples

end Spreadsheet.Simulation
