import Mathlib.Data.List.GetD
import Spreadsheet.Formula.Parse
import Spreadsheet.Proofs.Expression.Moved

/-!
Arrays in formulas. Members are put into columns one after the other, and columns that are too short are filled
up at the end. The last row and the last column of an array have a member, so an array that is read again has the
same size.
-/

namespace Spreadsheet.Formula.Reader

variable {columns columns' : List (List Value)} {column row height c r : Nat} {v : Value}

/-- What an array in a formula holds: numbers, texts, truth values and gaps. -/
def IsMember : Value → Prop
  | .undefined | .number _ | .text _ | .boolean _ => True
  | _ => False

/-- The member at a place, or nothing. -/
def memberAt (columns : List (List Value)) (c r : Nat) : Value :=
  (columns.getD c []).getD r .undefined

/-! ### Putting members into columns -/

/-- The columns, of which there are enough for a member in the given one. -/
def widened (columns : List (List Value)) (column : Nat) : List (List Value) :=
  columns ++ List.replicate (column + 1 - columns.length) []

/-- A column with a member put into it. -/
def columnWith (row : Nat) (v : Value) (c : List Value) : List Value :=
  (c ++ List.replicate (row + 1 - c.length) Value.undefined).set row v

theorem put_eq (columns : List (List Value)) (column row : Nat) (v : Value) :
    put columns column row v = (widened columns column).modify column (columnWith row v) := rfl

theorem length_widened (columns : List (List Value)) (column : Nat) :
    (widened columns column).length = max columns.length (column + 1) := by
  simp only [widened, List.length_append, List.length_replicate]
  omega

theorem length_put (columns : List (List Value)) (column row : Nat) (v : Value) :
    (put columns column row v).length = max columns.length (column + 1) := by
  rw [put_eq, List.length_modify, length_widened]

theorem length_columnWith (row : Nat) (v : Value) (c : List Value) :
    (columnWith row v c).length = max c.length (row + 1) := by
  simp only [columnWith, List.length_set, List.length_append, List.length_replicate]
  omega

theorem getD_widened (columns : List (List Value)) (column c : Nat) :
    (widened columns column).getD c [] = columns.getD c [] := by
  simp only [widened, List.getD_eq_getElem?_getD, List.getElem?_append, List.getElem?_replicate]
  split
  · rfl
  · rename_i h
    rw [List.getElem?_eq_none (by omega)]
    split <;> rfl

/-- A column after a member was put somewhere. -/
theorem getD_put (columns : List (List Value)) (column row : Nat) (v : Value) (c : Nat) :
    (put columns column row v).getD c [] =
      if c = column then columnWith row v (columns.getD c []) else columns.getD c [] := by
  have hlength := length_widened columns column
  rw [put_eq, List.getD_eq_getElem?_getD, List.getElem?_modify]
  split
  · rename_i h
    subst h
    rw [if_pos rfl, ← getD_widened columns column, List.getD_eq_getElem?_getD,
      List.getElem?_eq_getElem (by omega : column < (widened columns column).length)]
    rfl
  · rename_i h
    rw [if_neg (Ne.symm h), ← getD_widened columns column, List.getD_eq_getElem?_getD]
    cases (widened columns column)[c]? <;> rfl

theorem getD_columnWith (row : Nat) (v : Value) (c : List Value) (r : Nat) :
    (columnWith row v c).getD r .undefined = if r = row then v else c.getD r .undefined := by
  simp only [columnWith, List.getD_eq_getElem?_getD, List.getElem?_set, List.length_append, List.length_replicate,
    List.getElem?_append, List.getElem?_replicate]
  split
  · rename_i h
    rw [if_pos (by omega), if_pos h.symm]
    rfl
  · rename_i h
    rw [if_neg (Ne.symm h)]
    split
    · rfl
    · rename_i hr
      rw [List.getElem?_eq_none (by omega)]
      split <;> rfl

/-- A member stands where it was put, and the others stay. -/
theorem memberAt_put (columns : List (List Value)) (column row : Nat) (v : Value) (c r : Nat) :
    memberAt (put columns column row v) c r = if c = column ∧ r = row then v else memberAt columns c r := by
  unfold memberAt
  rw [getD_put]
  by_cases hc : c = column
  · rw [if_pos hc, getD_columnWith]
    simp [hc]
  · rw [if_neg hc, if_neg fun h => hc h.1]

theorem mem_getD {cs : List Value} (h : cs ∈ columns) : ∃ c, c < columns.length ∧ columns.getD c [] = cs := by
  obtain ⟨c, hc, rfl⟩ := List.getElem_of_mem h
  exact ⟨c, hc, List.getD_eq_getElem _ _ hc⟩

theorem getD_mem (h : c < columns.length) : columns.getD c [] ∈ columns := by
  rw [List.getD_eq_getElem _ _ h]
  exact List.getElem_mem h

/-! ### Arrays that are being read -/

/-- Columns that have been filled by putting members: each ends with a member, and the last one has some. -/
structure Heaped (columns : List (List Value)) : Prop where
  member : ∀ c r, IsMember (memberAt columns c r)
  ends : ∀ c, columns.getD c [] ≠ [] → (memberAt columns c ((columns.getD c []).length - 1)).isUndefined = false
  last : columns ≠ [] → columns.getD (columns.length - 1) [] ≠ []

theorem heaped_nil : Heaped [] :=
  ⟨fun _ _ => trivial, fun _ h => absurd rfl h, fun h => absurd rfl h⟩

theorem Heaped.put (h : Heaped columns) (hv : IsMember v) (hdefined : v.isUndefined = false) (column row : Nat) :
    Heaped (put columns column row v) := by
  refine ⟨fun c r => ?_, fun c hc => ?_, fun _ => ?_⟩
  · rw [memberAt_put]
    split
    · exact hv
    · exact h.member c r
  · rw [getD_put] at hc ⊢
    rw [memberAt_put]
    split at hc
    · rename_i heq
      rw [if_pos heq, length_columnWith]
      split
      · exact hdefined
      · rename_i hrow
        have hlonger : row + 1 < (columns.getD c []).length := by
          have : ¬max (columns.getD c []).length (row + 1) - 1 = row := fun hr => hrow ⟨heq, hr⟩
          omega
        rw [show max (columns.getD c []).length (row + 1) - 1 = (columns.getD c []).length - 1 by omega]
        refine h.ends c fun hnil => ?_
        rw [hnil] at hlonger
        simp at hlonger
    · rename_i heq
      rw [if_neg heq, if_neg fun hr => heq hr.1]
      exact h.ends c hc
  · rw [length_put, getD_put]
    split
    · intro hnil
      have := length_columnWith row v (columns.getD (max columns.length (column + 1) - 1) [])
      rw [hnil] at this
      simp only [List.length_nil] at this
      omega
    · rename_i heq
      rw [show max columns.length (column + 1) - 1 = columns.length - 1 by omega]
      refine h.last fun hnil => ?_
      rw [hnil] at heq
      simp at heq

/-! ### Arrays that have been read -/

/-- The height of the highest column. -/
def heightOf (columns : List (List Value)) : Nat := (columns.map List.length).foldl max 0

theorem foldl_max_le {ns : List Nat} {k bound : Nat} (hk : k ≤ bound) (h : ∀ n ∈ ns, n ≤ bound) :
    ns.foldl max k ≤ bound := by
  induction ns generalizing k with
  | nil => exact hk
  | cons n ns ih =>
    have hn := h n List.mem_cons_self
    exact ih (by omega) fun m hm => h m (List.mem_cons_of_mem n hm)

theorem le_foldl_max (ns : List Nat) (k : Nat) : k ≤ ns.foldl max k ∧ ∀ n ∈ ns, n ≤ ns.foldl max k := by
  induction ns generalizing k with
  | nil => exact ⟨Nat.le_refl k, fun n hn => absurd hn List.not_mem_nil⟩
  | cons n ns ih =>
    obtain ⟨hk, hns⟩ := ih (max k n)
    rw [List.foldl_cons]
    refine ⟨by omega, fun m hm => ?_⟩
    rcases List.mem_cons.1 hm with rfl | hm
    · omega
    · exact hns m hm

theorem length_le_heightOf (columns : List (List Value)) (c : Nat) : (columns.getD c []).length ≤ heightOf columns := by
  by_cases hc : c < columns.length
  · exact (le_foldl_max _ 0).2 _ (List.mem_map_of_mem (getD_mem hc))
  · rw [List.getD_eq_default _ _ (by omega)]
    exact Nat.zero_le _

theorem exists_length_eq_heightOf (h : columns ≠ []) : ∃ c, c < columns.length ∧
    (columns.getD c []).length = heightOf columns := by
  have hfold (ns : List Nat) (k : Nat) : ns.foldl max k = k ∨ ns.foldl max k ∈ ns := by
    induction ns generalizing k with
    | nil => exact .inl rfl
    | cons n ns ih =>
      rw [List.foldl_cons]
      rcases ih (max k n) with hk | hn
      · rcases Nat.le_total k n with hle | hle
        · exact .inr (List.mem_cons.2 (.inl (by omega)))
        · exact .inl (by omega)
      · exact .inr (List.mem_cons_of_mem n hn)
  rcases hfold (columns.map List.length) 0 with hzero | hmem
  · have hpos := List.length_pos_iff.2 h
    have := length_le_heightOf columns 0
    exact ⟨0, hpos, by rw [heightOf] at this ⊢; omega⟩
  · obtain ⟨cs, hcs, hlength⟩ := List.mem_map.1 hmem
    obtain ⟨c, hc, rfl⟩ := mem_getD hcs
    exact ⟨c, hc, hlength⟩

theorem length_rectangular (columns : List (List Value)) : (rectangular columns).length = columns.length := by
  simp [rectangular]

theorem getD_rectangular (hc : c < columns.length) : (rectangular columns).getD c [] =
    columns.getD c [] ++ List.replicate (heightOf columns - (columns.getD c []).length) Value.undefined := by
  rw [List.getD_eq_getElem _ _ (by rwa [length_rectangular]), List.getD_eq_getElem _ _ hc]
  simp [rectangular, heightOf]

theorem memberAt_rectangular (columns : List (List Value)) (c r : Nat) :
    memberAt (rectangular columns) c r = memberAt columns c r := by
  unfold memberAt
  by_cases hc : c < columns.length
  · rw [getD_rectangular hc]
    generalize columns.getD c [] = cs
    simp only [List.getD_eq_getElem?_getD, List.getElem?_append, List.getElem?_replicate]
    split
    · rfl
    · rename_i hr
      rw [List.getElem?_eq_none (by omega)]
      split <;> rfl
  · have hout : columns.length ≤ c := by omega
    have hout' : (rectangular columns).length ≤ c := by rwa [length_rectangular]
    rw [List.getD_eq_default _ [] hout, List.getD_eq_default _ [] hout']

/-- An array as reading a formula makes it: all columns have the same height, and there is a member in the last
column and in the last row. -/
structure IsArray (columns : List (List Value)) (height : Nat) : Prop where
  length : ∀ c, c < columns.length → (columns.getD c []).length = height
  member : ∀ c r, IsMember (memberAt columns c r)
  lastColumn : columns ≠ [] → ∃ r, (memberAt columns (columns.length - 1) r).isUndefined = false
  lastRow : columns ≠ [] → ∃ c, (memberAt columns c (height - 1)).isUndefined = false

theorem Heaped.isArray (h : Heaped columns) : IsArray (rectangular columns) (heightOf columns) := by
  have hne (hrectangular : rectangular columns ≠ []) : columns ≠ [] := by
    rintro rfl
    exact hrectangular rfl
  refine ⟨fun c hc => ?_, fun c r => ?_, fun hr => ?_, fun hr => ?_⟩
  · rw [length_rectangular] at hc
    have := length_le_heightOf columns c
    rw [getD_rectangular hc, List.length_append, List.length_replicate]
    omega
  · rw [memberAt_rectangular]
    exact h.member c r
  · rw [length_rectangular]
    exact ⟨_, by rw [memberAt_rectangular]; exact h.ends _ (h.last (hne hr))⟩
  · obtain ⟨c, hc, hlength⟩ := exists_length_eq_heightOf (hne hr)
    have hlast := h.last (hne hr)
    have hpos : 0 < heightOf columns := by
      have := length_le_heightOf columns (columns.length - 1)
      have := List.length_pos_iff.2 hlast
      omega
    refine ⟨c, ?_⟩
    rw [memberAt_rectangular, ← hlength]
    exact h.ends c fun hnil => by rw [hnil, List.length_nil] at hlength; omega

/-! ### Arrays that are read again -/

variable {t : Rereading}

/-- The members at the places that are done may be read in the place of those of an array, and there is nothing at the
others. -/
structure Copies (t : Rereading) (columns : List (List Value)) (height : Nat) (done : Nat → Nat → Prop)
    (columns' : List (List Value)) : Prop where
  value : ∀ c r, done c r → t.Member (memberAt columns' c r) (memberAt columns c r)
  blank : ∀ c r, ¬done c r → memberAt columns' c r = .undefined
  width : columns'.length ≤ columns.length
  low : ∀ c, (columns'.getD c []).length ≤ height

variable {done done' : Nat → Nat → Prop}

theorem copies_nil (columns : List (List Value)) (height : Nat) (hdone : ∀ c r, ¬done c r) :
    Copies t columns height done [] :=
  ⟨fun c r h => absurd h (hdone c r), fun _ _ _ => rfl, Nat.zero_le _, fun _ => Nat.zero_le _⟩

/-- The next member is put where it stands in the array. -/
theorem Copies.put (h : Copies t columns height done columns') (hcolumn : column < columns.length) (hrow : row < height)
    (hv : t.Member v (memberAt columns column row))
    (hdone : ∀ c r, done' c r ↔ done c r ∨ c = column ∧ r = row) :
    Copies t columns height done' (put columns' column row v) := by
  refine ⟨fun c r hcr => ?_, fun c r hcr => ?_, ?_, fun c => ?_⟩
  · rw [memberAt_put]
    split
    · rename_i heq
      rw [heq.1, heq.2]
      exact hv
    · rename_i heq
      exact h.value c r (((hdone c r).1 hcr).resolve_right heq)
  · rw [hdone, not_or] at hcr
    rw [memberAt_put, if_neg hcr.2]
    exact h.blank c r hcr.1
  · rw [length_put]
    have := h.width
    omega
  · have := h.low c
    rw [getD_put]
    split
    · rw [length_columnWith]
      omega
    · exact this

/-- At a gap of the array nothing is put. -/
theorem Copies.skip (h : Copies t columns height done columns') (hnew : ¬done column row)
    (hgap : memberAt columns column row = .undefined) (hdone : ∀ c r, done' c r ↔ done c r ∨ c = column ∧ r = row) :
    Copies t columns height done' columns' := by
  refine ⟨fun c r hcr => ?_, fun c r hcr => h.blank c r fun hc => hcr ((hdone c r).2 (.inl hc)), h.width, h.low⟩
  rcases (hdone c r).1 hcr with hcr | ⟨rfl, rfl⟩
  · exact h.value c r hcr
  · rw [hgap, h.blank c r hnew]
    exact .undefined

theorem Copies.congr (h : Copies t columns height done columns') (hdone : ∀ c r, done' c r ↔ done c r) :
    Copies t columns height done' columns' :=
  ⟨fun c r hcr => h.value c r ((hdone c r).1 hcr), fun c r hcr => h.blank c r fun hc => hcr ((hdone c r).2 hc), h.width,
    h.low⟩

theorem not_undefined_of_member {v w : Value} (h : t.Member v w) (hw : w.isUndefined = false) :
    v.isUndefined = false := by
  cases h with
  | undefined => exact hw
  | _ => rfl

theorem lt_of_defined (h : (memberAt columns c r).isUndefined = false) :
    c < columns.length ∧ r < (columns.getD c []).length := by
  have hr : r < (columns.getD c []).length := by
    refine Nat.lt_of_not_le fun hle => ?_
    rw [memberAt, List.getD_eq_default _ _ hle] at h
    cases h
  refine ⟨Nat.lt_of_not_le fun hle => ?_, hr⟩
  rw [List.getD_eq_default _ _ hle] at hr
  cases hr

/-- An array that has been read again has the members of the array where they stand in it. -/
theorem Copies.members (h : Copies t columns height done columns') (harray : IsArray columns height)
    (hdone : ∀ c < columns.length, ∀ r < height, done c r) :
    List.Forall₂ (List.Forall₂ t.Member) (rectangular columns') columns := by
  have hdefined {c r : Nat} (hcr : (memberAt columns c r).isUndefined = false) :
      c < columns'.length ∧ r < (columns'.getD c []).length := by
    obtain ⟨hc, hr⟩ := lt_of_defined hcr
    rw [harray.length c hc] at hr
    exact lt_of_defined (not_undefined_of_member (h.value c r (hdone c hc r hr)) hcr)
  have hwidth : columns'.length = columns.length := by
    have := h.width
    by_cases hnil : columns = []
    · simp [hnil] at this ⊢
      exact this
    · obtain ⟨r, hr⟩ := harray.lastColumn hnil
      have := (hdefined hr).1
      omega
  have hheight (hnil : columns ≠ []) : heightOf columns' = height := by
    obtain ⟨c, hc⟩ := harray.lastRow hnil
    have hlast := (hdefined hc).2
    have := length_le_heightOf columns' c
    have : heightOf columns' ≤ height := foldl_max_le (Nat.zero_le _) fun n hn => by
      obtain ⟨cs, hcs, rfl⟩ := List.mem_map.1 hn
      obtain ⟨d, -, rfl⟩ := mem_getD hcs
      exact h.low d
    omega
  refine List.forall₂_iff_get.2 ⟨by rw [length_rectangular, hwidth], fun c hc' hc => ?_⟩
  have hnil : columns ≠ [] := by
    rintro rfl
    cases hc
  have hlow := h.low c
  have hlength : ((rectangular columns').getD c []).length = height := by
    rw [getD_rectangular (by omega), hheight hnil, List.length_append, List.length_replicate]
    omega
  rw [List.get_eq_getElem, List.get_eq_getElem, ← List.getD_eq_getElem _ [] hc', ← List.getD_eq_getElem _ [] hc]
  refine List.forall₂_iff_get.2 ⟨by rw [hlength, harray.length c hc], fun r hr' hr => ?_⟩
  rw [List.get_eq_getElem, List.get_eq_getElem, ← List.getD_eq_getElem _ .undefined hr',
    ← List.getD_eq_getElem _ .undefined hr]
  rw [hlength] at hr'
  have hvalue := h.value c r (hdone c hc r hr')
  rw [← memberAt_rectangular] at hvalue
  exact hvalue

end Spreadsheet.Formula.Reader
