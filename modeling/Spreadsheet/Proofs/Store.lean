import Spreadsheet.Proofs.Evaluation.Agreement

/-!
Look-ups in stores. What stands at a position after a store has been changed, after every cell has been changed and
after rows or columns have been inserted or deleted. How far the stored rows go makes no difference to any of them.
-/

namespace Spreadsheet

/-! ### Lists with gaps -/

namespace Gapped

variable {α β : Type} {xs : List α} {gap : α} {i : Nat}

theorem getD_reach (gap : α) (i : Nat) (xs : List α) (j : Nat) : (reach gap i xs).getD j gap = xs.getD j gap := by
  simp only [reach, List.getD_eq_getElem?_getD, List.getElem?_append, List.getElem?_replicate]
  grind

theorem lt_length_reach (gap : α) (i : Nat) (xs : List α) : i < (reach gap i xs).length := by
  simp only [reach, List.length_append, List.length_replicate]
  omega

/-- A place that the list does not have can be changed only by what leaves gaps as they are. -/
theorem getD_modify {f : α → α} (h : i < xs.length ∨ f gap = gap) (j : Nat) :
    (xs.modify i f).getD j gap = if i = j then f (xs.getD j gap) else xs.getD j gap := by
  simp only [List.getD_eq_getElem?_getD, List.getElem?_modify]
  grind

theorem getD_modify_reach (gap : α) (i : Nat) (f : α → α) (xs : List α) (j : Nat) :
    ((reach gap i xs).modify i f).getD j gap = if i = j then f (xs.getD j gap) else xs.getD j gap := by
  rw [getD_modify (.inl (lt_length_reach gap i xs)), getD_reach]

theorem getD_map {f : α → β} {gap' : β} (h : f gap = gap') (xs : List α) (i : Nat) :
    (xs.map f).getD i gap' = f (xs.getD i gap) := by
  simp only [List.getD_eq_getElem?_getD, List.getElem?_map]
  cases xs[i]? with
  | none => exact h.symm
  | some x => rfl

theorem getD_insert (gap : α) (start count : Nat) (xs : List α) (i : Nat) : (insert gap start count xs).getD i gap =
    if i < start then xs.getD i gap else if i < start + count then gap else xs.getD (i - count) gap := by
  unfold insert
  simp only [List.getD_eq_getElem?_getD]
  grind

theorem getD_delete (gap : α) (start count : Nat) (xs : List α) (i : Nat) : (delete start count xs).getD i gap =
    if i < start then xs.getD i gap else xs.getD (i + count) gap := by
  unfold delete
  simp only [List.getD_eq_getElem?_getD]
  grind

end Gapped

namespace Store

variable {s s' : Store} {p q : Position} {c : Cell}

theorem cell?_update (s : Store) (p : Position) (f : Cell → Cell) (q : Position) :
    (s.update p f).cell? q = if p = q then some (f ((s.cell? p).getD {})) else s.cell? q := by
  obtain ⟨row, column⟩ := p
  obtain ⟨row', column'⟩ := q
  simp only [update, cell?, Gapped.getD_modify_reach, Position.mk.injEq]
  by_cases hrow : row = row'
  · subst hrow
    rw [if_pos rfl, Gapped.getD_modify_reach]
    by_cases hcolumn : column = column'
    · subst hcolumn
      rw [if_pos rfl, if_pos ⟨rfl, rfl⟩]
    · rw [if_neg hcolumn, if_neg fun h => hcolumn h.2]
  · rw [if_neg hrow, if_neg fun h => hrow h.1]

theorem cell?_update_self (s : Store) (p : Position) (f : Cell → Cell) :
    (s.update p f).cell? p = some (f ((s.cell? p).getD {})) := by
  rw [cell?_update, if_pos rfl]

theorem cell?_update_of_ne (s : Store) (f : Cell → Cell) (hq : q ≠ p) :
    (s.update p f).cell? q = s.cell? q := by
  rw [cell?_update, if_neg (Ne.symm hq)]

theorem cell?_adjust (s : Store) (p : Position) (f : Cell → Cell) (q : Position) :
    (s.adjust p f).cell? q = if p = q then (s.cell? p).map f else s.cell? q := by
  obtain ⟨row, column⟩ := p
  obtain ⟨row', column'⟩ := q
  have hempty : ([] : List (Option Cell)).modify column (Option.map f) = [] := by cases column <;> rfl
  simp only [adjust, cell?, Position.mk.injEq]
  rw [Gapped.getD_modify (f := fun line : List (Option Cell) => line.modify column (Option.map f)) (.inr hempty)]
  by_cases hrow : row = row'
  · subst hrow
    rw [if_pos rfl, Gapped.getD_modify (.inr rfl)]
    by_cases hcolumn : column = column'
    · subst hcolumn
      rw [if_pos rfl, if_pos ⟨rfl, rfl⟩]
    · rw [if_neg hcolumn, if_neg fun h => hcolumn h.2]
  · rw [if_neg hrow, if_neg fun h => hrow h.1]

theorem cell?_clear_self (s : Store) (p : Position) : (s.clear p).cell? p = (s.cell? p).map Cell.reset := by
  rw [clear, cell?_adjust, if_pos rfl]

theorem cell?_clear_of_ne (s : Store) (hq : q ≠ p) : (s.clear p).cell? q = s.cell? q := by
  rw [clear, cell?_adjust, if_neg (Ne.symm hq)]

theorem mem_toList : (p, c) ∈ s.toList ↔ s.cell? p = some c := by
  obtain ⟨row, column⟩ := p
  simp only [toList, cell?, List.mem_flatMap, List.mem_filterMap, Prod.exists, List.mem_zipIdx_iff_getElem?,
    Option.map_eq_some_iff, Prod.mk.injEq, Position.mk.injEq, List.getD_eq_getElem?_getD]
  constructor
  · rintro ⟨cells, row, hcells, c', column, hc, c, rfl, ⟨rfl, rfl⟩, rfl⟩
    simp [hcells, hc]
  · intro hc
    obtain ⟨cells, hcells⟩ : ∃ cells, s.lines[row]? = some cells := by
      cases hrow : s.lines[row]? with
      | none => simp [hrow] at hc
      | some cells => exact ⟨cells, rfl⟩
    have hcolumn : cells[column]? = some (some c) := by
      cases hcolumn : cells[column]? with
      | none => simp [hcells, hcolumn] at hc
      | some c' => simpa [hcells, hcolumn] using hc
    exact ⟨cells, row, hcells, some c, column, hcolumn, c, rfl, ⟨rfl, rfl⟩, rfl⟩

theorem read_eq_of_cell? (h : s'.cell? p = s.cell? p) : s'.read p = s.read p := by
  rw [read, read, h]

theorem agreeAt_of_cell? (h : s'.cell? p = s.cell? p) : AgreeAt s s' p :=
  ⟨read_eq_of_cell? h, by rw [h]⟩

theorem cell?_mapCells (s : Store) (f : Cell → Cell) (q : Position) :
    (s.mapCells f).cell? q = (s.cell? q).map f := by
  have hempty : ([] : List (Option Cell)).map (Option.map f) = [] := rfl
  have hgap : (none : Option Cell).map f = none := rfl
  simp only [mapCells, cell?, Gapped.getD_map hempty, Gapped.getD_map hgap]

/-! ### Inserted and deleted rows and columns -/

/-- Where a coordinate goes when `count` rows or columns are inserted before `start`. -/
def afterInsert (start count x : Nat) : Nat :=
  if x < start then x else x + count

/-- Where a coordinate goes when `count` rows or columns are deleted from `start` on. -/
def afterDelete? (start count x : Nat) : Option Nat :=
  if x < start then some x else if x < start + count then none else some (x - count)

/-- Deleting what has been inserted takes each coordinate back. -/
theorem afterDelete?_eq_some_iff {start count x y : Nat} :
    afterDelete? start count x = some y ↔ afterInsert start count y = x := by
  unfold afterDelete? afterInsert
  grind

theorem cell?_insertRows (s : Store) (start count row column : Nat) : (s.insertRows start count).cell? ⟨row, column⟩ =
    if row < start then s.cell? ⟨row, column⟩
    else if row < start + count then none else s.cell? ⟨row - count, column⟩ := by
  simp only [insertRows, cell?, Gapped.getD_insert]
  split
  · rfl
  · split <;> rfl

theorem cell?_deleteRows (s : Store) (start count row column : Nat) : (s.deleteRows start count).cell? ⟨row, column⟩ =
    if row < start then s.cell? ⟨row, column⟩ else s.cell? ⟨row + count, column⟩ := by
  simp only [deleteRows, cell?, Gapped.getD_delete]
  split <;> rfl

theorem cell?_insertColumns (s : Store) (start count row column : Nat) :
    (s.insertColumns start count).cell? ⟨row, column⟩ =
      if column < start then s.cell? ⟨row, column⟩
      else if column < start + count then none else s.cell? ⟨row, column - count⟩ := by
  have hempty : Gapped.insert none start count ([] : List (Option Cell)) = [] := rfl
  simp only [insertColumns, cell?, Gapped.getD_map hempty, Gapped.getD_insert]

theorem cell?_deleteColumns (s : Store) (start count row column : Nat) :
    (s.deleteColumns start count).cell? ⟨row, column⟩ =
      if column < start then s.cell? ⟨row, column⟩ else s.cell? ⟨row, column + count⟩ := by
  have hempty : Gapped.delete start count ([] : List (Option Cell)) = [] := by simp [Gapped.delete]
  simp only [deleteColumns, cell?, Gapped.getD_map hempty, Gapped.getD_delete]

/-- Each cell has stood where `origin` says; where it says nothing there is no cell. -/
def From (f : Store → Store) (origin : Position → Option Position) : Prop :=
  ∀ s p, (f s).cell? p = (origin p).bind s.cell?

/-- The position with its row changed. -/
def alongRows (φ : Nat → Option Nat) (p : Position) : Option Position := (φ p.row).map fun row => ⟨row, p.column⟩

/-- The position with its column changed. -/
def alongColumns (φ : Nat → Option Nat) (p : Position) : Option Position :=
  (φ p.column).map fun column => ⟨p.row, column⟩

section

variable {f g : Store → Store} {φ ψ : Position → Option Position} (start count : Nat)

theorem from_insertRows : From (·.insertRows start count) (alongRows (afterDelete? start count)) := by
  intro s p
  rw [cell?_insertRows, alongRows, afterDelete?]
  split
  · rfl
  · split <;> rfl

theorem from_deleteRows : From (·.deleteRows start count) (alongRows fun row => some (afterInsert start count row)) := by
  intro s p
  rw [cell?_deleteRows, alongRows, afterInsert]
  split <;> rfl

theorem from_insertColumns : From (·.insertColumns start count) (alongColumns (afterDelete? start count)) := by
  intro s p
  rw [cell?_insertColumns, alongColumns, afterDelete?]
  split
  · rfl
  · split <;> rfl

theorem from_deleteColumns :
    From (·.deleteColumns start count) (alongColumns fun column => some (afterInsert start count column)) := by
  intro s p
  rw [cell?_deleteColumns, alongColumns, afterInsert]
  split <;> rfl

/-- A cell has stood where the later change says that it stood after the earlier one. -/
theorem From.cell?_comp (hf : From f φ) (hg : From g ψ) (s : Store) (p : Position) :
    (g (f s)).cell? p = ((ψ p).bind φ).bind s.cell? := by
  rw [hg, Option.bind_assoc]
  exact congrArg _ (funext (hf s))

/-- One change undoes another if it takes each cell back to where it has stood. -/
theorem From.cancel (hf : From f φ) (hg : From g ψ) (h : ∀ p, (ψ p).bind φ = some p) (s : Store) (p : Position) :
    (g (f s)).cell? p = s.cell? p := by
  rw [hf.cell?_comp hg, h, Option.bind_some]

/-- Changes of rows and of columns do not interfere. -/
theorem From.comm {φ ψ : Nat → Option Nat} (hf : From f (alongRows φ)) (hg : From g (alongColumns ψ)) (s : Store)
    (p : Position) : (g (f s)).cell? p = (f (g s)).cell? p := by
  have hcomm : (alongColumns ψ p).bind (alongRows φ) = (alongRows φ p).bind (alongColumns ψ) := by
    cases hrow : φ p.row <;> cases hcolumn : ψ p.column <;> simp [alongRows, alongColumns, hrow, hcolumn]
  rw [hf.cell?_comp hg, hg.cell?_comp hf, hcomm]

theorem alongRows_bind {φ ψ : Nat → Option Nat} (h : ∀ row, (ψ row).bind φ = some row) (p : Position) :
    (alongRows ψ p).bind (alongRows φ) = some p := by
  obtain ⟨row', hrow', hrow⟩ := Option.bind_eq_some_iff.1 (h p.row)
  simp [alongRows, hrow', hrow]

theorem alongColumns_bind {φ ψ : Nat → Option Nat} (h : ∀ column, (ψ column).bind φ = some column) (p : Position) :
    (alongColumns ψ p).bind (alongColumns φ) = some p := by
  obtain ⟨column', hcolumn', hcolumn⟩ := Option.bind_eq_some_iff.1 (h p.column)
  simp [alongColumns, hcolumn', hcolumn]

end

/-- Inserting rows or columns moves what stands behind the band and leaves the band without cells, deleting them takes
the band away, a deletion undoes the insertion of its band, and what is done to rows does not interfere with what is
done to columns. -/
theorem cell?_of_bands (s : Store) (start count start' count' : Nat) :
    (∀ row column, (s.insertRows start count).cell? ⟨row, column⟩ =
      if row < start then s.cell? ⟨row, column⟩
      else if row < start + count then none else s.cell? ⟨row - count, column⟩) ∧
    (∀ row column, (s.deleteRows start count).cell? ⟨row, column⟩ =
      if row < start then s.cell? ⟨row, column⟩ else s.cell? ⟨row + count, column⟩) ∧
    (∀ p, ((s.insertRows start count).deleteRows start count).cell? p = s.cell? p) ∧
    (∀ row column, (s.insertColumns start count).cell? ⟨row, column⟩ =
      if column < start then s.cell? ⟨row, column⟩
      else if column < start + count then none else s.cell? ⟨row, column - count⟩) ∧
    (∀ row column, (s.deleteColumns start count).cell? ⟨row, column⟩ =
      if column < start then s.cell? ⟨row, column⟩ else s.cell? ⟨row, column + count⟩) ∧
    (∀ p, ((s.insertColumns start count).deleteColumns start count).cell? p = s.cell? p) ∧
    (∀ p, ((s.insertRows start count).insertColumns start' count').cell? p =
      ((s.insertColumns start' count').insertRows start count).cell? p) ∧
    (∀ p, ((s.insertRows start count).deleteColumns start' count').cell? p =
      ((s.deleteColumns start' count').insertRows start count).cell? p) ∧
    (∀ p, ((s.deleteRows start count).insertColumns start' count').cell? p =
      ((s.insertColumns start' count').deleteRows start count).cell? p) ∧
    ∀ p, ((s.deleteRows start count).deleteColumns start' count').cell? p =
      ((s.deleteColumns start' count').deleteRows start count).cell? p := by
  have hback (x : Nat) : (some (afterInsert start count x)).bind (afterDelete? start count) = some x :=
    afterDelete?_eq_some_iff.2 rfl
  have hinsertRows := from_insertRows start count
  have hdeleteRows := from_deleteRows start count
  have hinsertColumns := from_insertColumns start' count'
  have hdeleteColumns := from_deleteColumns start' count'
  exact ⟨cell?_insertRows s start count, cell?_deleteRows s start count,
    hinsertRows.cancel hdeleteRows (alongRows_bind hback) s,
    cell?_insertColumns s start count, cell?_deleteColumns s start count,
    (from_insertColumns start count).cancel (from_deleteColumns start count) (alongColumns_bind hback) s,
    hinsertRows.comm hinsertColumns s, hinsertRows.comm hdeleteColumns s, hdeleteRows.comm hinsertColumns s,
    hdeleteRows.comm hdeleteColumns s⟩

end Store

end Spreadsheet
