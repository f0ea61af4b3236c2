import Spreadsheet.Proofs.Sheet.Carried

/-!
The extent of a store. The numbers of rows and columns are kept beside the cells: they grow with the cells that are
created, and what is inserted or deleted is added to them or taken off. All cells lie within them, except that a
deletion takes its whole count off, also where it reaches beyond the last row or column, and can strand cells then.
-/

namespace Spreadsheet

/-! ### Coordinates -/

namespace Axis

variable {x y : Axis} {φ : Nat → Option Nat} {p q : Position}

/-- The coordinate of a cell on an axis. -/
def coordinate (x : Axis) (p : Position) : Nat :=
  match x with
  | rows => p.row
  | columns => p.column

/-- A cell that moves along one axis keeps its coordinate on the other one. -/
theorem place_eq_some_iff : x.place φ p = some q ↔
    φ (x.coordinate p) = some (x.coordinate q) ∧ ∀ y, y ≠ x → y.coordinate q = y.coordinate p := by
  obtain ⟨row, column⟩ := p
  obtain ⟨row', column'⟩ := q
  constructor
  · intro hp
    cases x <;>
      · obtain ⟨z, hz, heq⟩ := Option.map_eq_some_iff.1 hp
        cases heq
        refine ⟨hz, fun y hy => ?_⟩
        cases y <;> first
          | exact absurd rfl hy
          | rfl
  · rintro ⟨hz, hother⟩
    cases x with
    | rows =>
      obtain rfl : column' = column := hother columns (by decide)
      exact Option.map_eq_some_iff.2 ⟨row', hz, rfl⟩
    | columns =>
      obtain rfl : row' = row := hother rows (by decide)
      exact Option.map_eq_some_iff.2 ⟨column', hz, rfl⟩

theorem extent_insert (x : Axis) (s : Store) (start count : Nat) :
    x.extent (x.insert s start count) = min Store.extentBound (x.extent s + count) := by
  cases x <;> rfl

theorem extent_delete (x : Axis) (s : Store) (start count : Nat) :
    x.extent (x.delete s start count) = x.extent s - count := by
  cases x <;> rfl

theorem extent_insert_of_ne (hy : y ≠ x) (s : Store) (start count : Nat) :
    y.extent (x.insert s start count) = y.extent s := by
  cases x <;> cases y <;> first
    | exact absurd rfl hy
    | rfl

theorem extent_delete_of_ne (hy : y ≠ x) (s : Store) (start count : Nat) :
    y.extent (x.delete s start count) = y.extent s := by
  cases x <;> cases y <;> first
    | exact absurd rfl hy
    | rfl

/-- Whether a deletion leaves a cell outside the extent: one in front of what is deleted, with fewer rows or columns
of the sheet behind it than are taken off the extent. -/
def Strands (x : Axis) (s : Store) (start count : Nat) : Prop :=
  ∃ p c, s.cell? p = some c ∧ x.coordinate p < start ∧ x.extent s ≤ x.coordinate p + count

/-- Deleting rows or columns of the sheet only strands no cell. -/
theorem not_strands_of_le {s : Store} {start count : Nat} (h : start + count ≤ x.extent s) :
    ¬x.Strands s start count := by
  rintro ⟨p, c, -, hlt, hle⟩
  omega

end Axis

/-- Whether the row and the column of a cell can be counted, so that there is room for the cell. -/
def Position.Countable (p : Position) : Prop := ∀ x : Axis, x.coordinate p < Store.extentBound

namespace Store

variable {s s' : Store} {x : Axis} {p : Position} {start count : Nat}

/-! ### Stores -/

/-- All cells lie within the extent. -/
structure Contained (s : Store) : Prop where
  within : ∀ p c, s.cell? p = some c → ∀ x : Axis, x.coordinate p < x.extent s
  countable : ∀ p c, s.cell? p = some c → p.Countable

theorem Spans.extent (h : s.Spans s') (x : Axis) : x.extent s ≤ x.extent s' := by
  cases x
  · exact h.rows
  · exact h.columns

/-- The second store has no other cells than the first one and is no smaller. -/
structure Covers (s s' : Store) : Prop extends Spans s s' where
  cell : ∀ p c', s'.cell? p = some c' → ∃ c, s.cell? p = some c

namespace Covers

theorem refl (s : Store) : Covers s s := ⟨.refl s, fun _ c hc => ⟨c, hc⟩⟩

theorem trans {s'' : Store} (h : Covers s s') (h' : Covers s' s'') : Covers s s'' :=
  ⟨h.toSpans.trans h'.toSpans, fun p c hc => by
    obtain ⟨c', hc'⟩ := h'.cell p c hc
    exact h.cell p c' hc'⟩

theorem adjust (s : Store) (p : Position) (f : Cell → Cell) : Covers s (s.adjust p f) := by
  refine ⟨.adjust s p f, fun q c' hc' => ?_⟩
  rw [cell?_adjust] at hc'
  split at hc'
  · rename_i hq
    obtain ⟨c, hc, -⟩ := Option.map_eq_some_iff.1 hc'
    exact ⟨c, hq ▸ hc⟩
  · exact ⟨c', hc'⟩

theorem mapCells (s : Store) (f : Cell → Cell) : Covers s (s.mapCells f) := by
  refine ⟨⟨Nat.le_refl _, Nat.le_refl _⟩, fun q c' hc' => ?_⟩
  rw [cell?_mapCells] at hc'
  obtain ⟨c, hc, -⟩ := Option.map_eq_some_iff.1 hc'
  exact ⟨c, hc⟩

theorem of_alike (hspans : s.Spans s') (halike : s.Alike s') : Covers s s' :=
  ⟨hspans, fun _ _ hc' => by
    obtain ⟨c, hc, -⟩ := halike.cell hc'
    exact ⟨c, hc⟩⟩

end Covers

namespace Contained

theorem empty : ({} : Store).Contained := by
  refine ⟨fun p c hc => ?_, fun p c hc => ?_⟩ <;>
    · rw [cell?_empty] at hc
      cases hc

theorem covers (h : s.Contained) (hcovers : s.Covers s') : s'.Contained := by
  refine ⟨fun p c' hc' x => ?_, fun p c' hc' => ?_⟩
  · obtain ⟨c, hc⟩ := hcovers.cell p c' hc'
    exact Nat.lt_of_lt_of_le (h.within p c hc x) (hcovers.extent x)
  · obtain ⟨c, hc⟩ := hcovers.cell p c' hc'
    exact h.countable p c hc

theorem update (h : s.Contained) (hp : p.Countable) (f : Cell → Cell) : (s.update p f).Contained := by
  have hspans := Spans.update s p f
  refine ⟨fun q c' hc' x => ?_, fun q c' hc' => ?_⟩ <;>
    rw [cell?_update] at hc' <;> split at hc'
  · rename_i hq
    subst hq
    cases x
    · exact Nat.le_max_right _ _
    · exact Nat.le_max_right _ _
  · exact Nat.lt_of_lt_of_le (h.within q c' hc' x) (hspans.extent x)
  · rename_i hq
    exact hq ▸ hp
  · exact h.countable q c' hc'

/-- What is inserted behind all cells moves none of them, even if the extent has come to its bound. -/
theorem insert (h : s.Contained) (hroom : start < x.extent s → x.extent s + count ≤ extentBound) :
    (x.insert s start count).Contained := by
  have hmoved (q : Position) (c : Cell) (hc : (x.insert s start count).cell? q = some c) (y : Axis) :
      y.coordinate q < y.extent (x.insert s start count) ∧ y.coordinate q < extentBound := by
    obtain ⟨p, hp, hc⟩ := (x.cell?_insert s start count).1 hc
    rw [Axis.place_eq_some_iff] at hp
    have hwithin := h.within p c hc y
    have hcountable := h.countable p c hc y
    by_cases hy : y = x
    · subst hy
      have hplace := Option.some.inj hp.1
      rw [afterInsert] at hplace
      rw [y.extent_insert]
      split at hplace <;> omega
    · rw [hp.2 y hy, Axis.extent_insert_of_ne hy]
      exact ⟨hwithin, hcountable⟩
  exact ⟨fun q c hc y => (hmoved q c hc y).1, fun q c hc y => (hmoved q c hc y).2⟩

end Contained

/-- A deletion keeps all cells within the extent just if it strands none. -/
theorem contained_delete_iff (h : s.Contained) : (x.delete s start count).Contained ↔ ¬x.Strands s start count := by
  constructor
  · rintro hdelete ⟨p, c, hc, hlt, hle⟩
    have hkept : x.place (afterDelete? start count) p = some p :=
      Axis.place_eq_some_iff.2 ⟨Axis.afterDelete?_eq_some_iff.2 (.inl ⟨hlt, rfl⟩), fun _ _ => rfl⟩
    have hwithin := hdelete.within p c ((x.cell?_delete s start count).2 ⟨p, hkept, hc⟩) x
    rw [x.extent_delete] at hwithin
    omega
  · intro hstrands
    have hmoved (q : Position) (c : Cell) (hc : (x.delete s start count).cell? q = some c) (y : Axis) :
        y.coordinate q < y.extent (x.delete s start count) ∧ y.coordinate q < extentBound := by
      obtain ⟨p, hp, hcell⟩ := (x.cell?_delete s start count).1 hc
      rw [Axis.place_eq_some_iff] at hp
      have hwithin := h.within p c hcell y
      have hcountable := h.countable p c hcell y
      by_cases hy : y = x
      · subst hy
        rw [y.extent_delete]
        rcases Axis.afterDelete?_eq_some_iff.1 hp.1 with ⟨hlt, hq⟩ | ⟨hle, hq⟩
        · have hroom : ¬y.extent s ≤ y.coordinate p + count := fun hle => hstrands ⟨p, c, hcell, hlt, hle⟩
          omega
        · omega
      · rw [hp.2 y hy, Axis.extent_delete_of_ne hy]
        exact ⟨hwithin, hcountable⟩
    exact ⟨fun q c hc y => (hmoved q c hc y).1, fun q c hc y => (hmoved q c hc y).2⟩

/-- What can be done to a store. -/
inductive Edit where
  /-- Changes a cell, which is created if there is none. -/
  | ensure (p : Position) (f : Cell → Cell)
  | setValue (p : Position) (v : Value)
  | setFormula (p : Position) (text : String)
  | clear (p : Position)
  | insert (x : Axis) (start count : Nat)
  | delete (x : Axis) (start count : Nat)

namespace Edit

/-- What an edit makes of a store. -/
def apply (s : Store) : Edit → Store
  | ensure p f => s.update p f
  | setValue p v => s.setValue p v
  | setFormula p text => s.setFormula p text
  | clear p => s.clear p
  | insert x start count => x.insert s start count
  | delete x start count => x.delete s start count

/-- Whether the extent can count the rows and columns that are there after an edit. -/
def Fits (s : Store) : Edit → Prop
  | ensure p _ => p.Countable
  | setValue p _ => p.Countable
  | setFormula p _ => p.Countable
  | clear _ => True
  | insert x start count => start < x.extent s → x.extent s + count ≤ extentBound
  | delete _ _ _ => True

/-- Whether an edit is no deletion that strands a cell. -/
def Spares (s : Store) : Edit → Prop
  | delete x start count => ¬x.Strands s start count
  | _ => True

end Edit

/-- An edit keeps all cells within the extent just if it strands none. -/
theorem contained_edit_iff (h : s.Contained) {e : Edit} (hfits : e.Fits s) :
    (e.apply s).Contained ↔ e.Spares s := by
  cases e with
  | ensure p f => exact iff_of_true (h.update hfits f) trivial
  | setValue p v => exact iff_of_true (h.update hfits (·.setValue v)) trivial
  | setFormula p text => exact iff_of_true (h.update hfits (·.setFormula text)) trivial
  | clear p => exact iff_of_true (h.covers (.adjust s p Cell.reset)) trivial
  | insert x start count => exact iff_of_true (h.insert hfits) trivial
  | delete x start count => exact contained_delete_iff h

/-- The stores that come about by edits of which none strands a cell. -/
inductive Built : Store → Prop
  | empty : Built {}
  | edit {s : Store} (e : Edit) (h : Built s) (hfits : e.Fits s) (hspares : e.Spares s) : Built (e.apply s)

theorem Built.contained (h : s.Built) : s.Contained := by
  induction h with
  | empty => exact .empty
  | edit e _ hfits hspares ih => exact (contained_edit_iff ih hfits).2 hspares

end Store

end Spreadsheet
