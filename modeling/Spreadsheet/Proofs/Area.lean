import Spreadsheet.Proofs.Sheet.Cells

/-!
Areas as sets of cells. An area between two corners holds the cells that lie between them on each axis, where an axis on
which a corner is infinite is no restriction; overlap, listing and cutting down are read off that.
-/

namespace Spreadsheet

theorem Reference.row_column_of_position? {r : Reference} {p : Position} (hp : r.position? = some p) :
    r.row = some p.row ∧ r.column = some p.column := by
  unfold position? at hp
  split at hp
  · cases hp
    exact ⟨‹_›, ‹_›⟩
  · cases hp

namespace Area

variable {a b : Area} {p q : Position} {r s : Reference} {x y low high low' high' : Option Nat} {n count : Nat}

/-! ### One axis -/

/-- The coordinate lies between the coordinates of two corners, or one of these is infinite. -/
def Spans (x y : Option Nat) (n : Nat) : Prop := ∀ u ∈ x, ∀ v ∈ y, min u v ≤ n ∧ n ≤ max u v

theorem axisContains_bounds_iff : axisContains (bounds x y).1 (bounds x y).2 n = true ↔ Spans x y n := by
  cases x <;> cases y <;> simp [bounds, axisContains, Spans]

theorem bounds_eq_none_iff : (bounds x y).1 = none ↔ x = none ∨ y = none := by
  cases x <;> cases y <;> simp [bounds]

/-- Intervals overlap just if they share a coordinate. -/
theorem axisOverlap_iff (h : AxisOrdered low high) (h' : AxisOrdered low' high') :
    axisOverlap low high low' high' = true ↔
      ∃ n, axisContains low high n = true ∧ axisContains low' high' n = true := by
  match low, high, low', high' with
  | some l, some u, some l', some u' =>
    simp only [AxisOrdered] at h h'
    simp only [axisOverlap, axisContains, Bool.and_eq_true, decide_eq_true_eq]
    constructor
    · intro hoverlap
      exact ⟨max l l', by omega⟩
    · rintro ⟨n, hn, hn'⟩
      omega
  | some l, some u, none, none =>
    simp only [AxisOrdered] at h
    exact iff_of_true rfl ⟨l, by simp [axisContains, h]⟩
  | none, none, some l', some u' =>
    simp only [AxisOrdered] at h'
    exact iff_of_true rfl ⟨l', by simp [axisContains, h']⟩
  | none, none, none, none => exact iff_of_true rfl ⟨0, rfl, rfl⟩

theorem axisContains_clippedAxis (h : AxisOrdered low high) (hcount : 1 ≤ count) :
    axisContains (clippedAxis low high count).1 (clippedAxis low high count).2 n = true ↔
      axisContains low high n = true ∧ (low = none → n < count) := by
  match low, high with
  | some l, some u => simp [clippedAxis]
  | none, none =>
    simp [clippedAxis, axisContains]
    omega

/-! ### The cells between two corners -/

theorem contains_between_iff : (between r s).contains p = true ↔
    Spans r.row s.row p.row ∧ Spans r.column s.column p.column := by
  rw [contains, Bool.and_eq_true]
  exact and_congr axisContains_bounds_iff axisContains_bounds_iff

/-- Corners that are cells lie in the area. -/
theorem contains_corner (hp : r.position? = some p ∨ s.position? = some p) : (between r s).contains p = true := by
  have hrow : r.row = some p.row ∨ s.row = some p.row :=
    hp.imp (Reference.row_column_of_position? · |>.1) (Reference.row_column_of_position? · |>.1)
  have hcolumn : r.column = some p.column ∨ s.column = some p.column :=
    hp.imp (Reference.row_column_of_position? · |>.2) (Reference.row_column_of_position? · |>.2)
  rw [contains, Bool.and_eq_true]
  exact ⟨axisContains_bounds hrow, axisContains_bounds hcolumn⟩

/-- Areas intersect just if they share a cell. -/
theorem intersects_iff (ha : a.Ordered) (hb : b.Ordered) :
    a.intersects b = true ↔ ∃ p, a.contains p = true ∧ b.contains p = true := by
  simp only [intersects, contains, Bool.and_eq_true, axisOverlap_iff ha.rows hb.rows,
    axisOverlap_iff ha.columns hb.columns]
  constructor
  · rintro ⟨⟨row, hrow, hrow'⟩, column, hcolumn, hcolumn'⟩
    exact ⟨⟨row, column⟩, ⟨hrow, hcolumn⟩, hrow', hcolumn'⟩
  · rintro ⟨p, ⟨hrow, hcolumn⟩, hrow', hcolumn'⟩
    exact ⟨⟨p.row, hrow, hrow'⟩, p.column, hcolumn, hcolumn'⟩

theorem contains_resolve (ha : a.Ordered) {rows columns : Nat} (hrows : 1 ≤ rows) (hcolumns : 1 ≤ columns) :
    (a.resolve rows columns).contains p = true ↔ a.contains p = true ∧
      (a.first.row = none → p.row < rows) ∧ (a.first.column = none → p.column < columns) := by
  have hrow := a.row_resolve rows columns
  have hcolumn := a.column_resolve rows columns
  rw [Prod.ext_iff] at hrow hcolumn
  simp only at hrow hcolumn
  rw [contains, hrow.1, hrow.2, hcolumn.1, hcolumn.2, Bool.and_eq_true, axisContains_clippedAxis ha.rows hrows,
    axisContains_clippedAxis ha.columns hcolumns, contains, Bool.and_eq_true]
  tauto

/-! ### The list of cells -/

/-- A cell goes before another in the order of columns, and in a column from top to bottom. -/
def Precedes (p q : Position) : Prop := p.column < q.column ∨ p.column = q.column ∧ p.row < q.row

theorem length_span (low high : Nat) : (span low high).length = high + 1 - low := List.length_range'

theorem pairwise_span (low high : Nat) : (span low high).Pairwise (· < ·) := List.pairwise_lt_range'

/-- The cells with the rows and the columns of two intervals, column by column. -/
def block (top bottom left right : Nat) : List Position :=
  (span left right).flatMap fun c => (span top bottom).map fun r => ⟨r, c⟩

theorem pairwise_block (top bottom left right : Nat) : (block top bottom left right).Pairwise Precedes := by
  refine List.pairwise_flatMap.2 ⟨fun c _ => ?_, (pairwise_span left right).imp fun hlt p hp q hq => ?_⟩
  · exact List.pairwise_map.2 ((pairwise_span top bottom).imp fun hlt => .inr ⟨rfl, hlt⟩)
  · obtain ⟨r, -, rfl⟩ := List.mem_map.1 hp
    obtain ⟨r', -, rfl⟩ := List.mem_map.1 hq
    exact .inl hlt

theorem length_block (top bottom left right : Nat) :
    (block top bottom left right).length = (bottom + 1 - top) * (right + 1 - left) := by
  simp [block, List.length_flatMap, length_span, Nat.mul_comm]

theorem Precedes.ne (h : Precedes p q) : p ≠ q := by
  rintro rfl
  simp [Precedes] at h

theorem exists_block_of_isBounded (hordered : a.Ordered) (hbounded : a.isBounded = true) :
    ∃ top bottom left right, top ≤ bottom ∧ left ≤ right ∧ a.cells = .ok (block top bottom left right) ∧
      a.size? = some (bottom - top + 1, right - left + 1) := by
  have hrows := hordered.rows
  have hcolumns := hordered.columns
  simp only [isBounded, Reference.isBounded, Bool.and_eq_true, Option.isSome_iff_exists] at hbounded
  obtain ⟨⟨⟨top, htop⟩, left, hleft⟩, ⟨bottom, hbottom⟩, right, hright⟩ := hbounded
  rw [htop, hbottom] at hrows
  rw [hleft, hright] at hcolumns
  exact ⟨top, bottom, left, right, hrows, hcolumns, by simp [cells, block, htop, hbottom, hleft, hright],
    by simp [size?, htop, hbottom, hleft, hright]⟩

/-- A bounded area lists the cells that it contains in the order of columns, and there are as many of them as its rows
times its columns. -/
theorem exists_cells (hordered : a.Ordered) (hbounded : a.isBounded = true) :
    ∃ ps rows columns, a.cells = .ok ps ∧ (∀ p, p ∈ ps ↔ a.contains p = true) ∧ ps.Nodup ∧ ps.Pairwise Precedes ∧
      a.size? = some (rows, columns) ∧ ps.length = rows * columns := by
  obtain ⟨top, bottom, left, right, hrows, hcolumns, hcells, hsize⟩ := exists_block_of_isBounded hordered hbounded
  have hpairwise := pairwise_block top bottom left right
  refine ⟨_, _, _, hcells, fun p => ?_, hpairwise.imp Precedes.ne, hpairwise, hsize, ?_⟩
  · rw [← mem_members hbounded, members, hcells]
  · rw [length_block, Nat.sub_add_comm hrows, Nat.sub_add_comm hcolumns]

/-! ### The laws of areas -/

/-- The area between two corners contains them and what lies between them; it intersects another one just if they share
a cell; when it is bounded its cells are listed in the order of columns, each once; and cutting it down takes away the
cells beyond the sheet on its infinite axes, and nothing else. -/
theorem between_laws (r s r' s' : Reference) :
    (∀ p, (between r s).contains p = true ↔ Spans r.row s.row p.row ∧ Spans r.column s.column p.column) ∧
    (∀ p, r.position? = some p ∨ s.position? = some p → (between r s).contains p = true) ∧
    ((between r s).intersects (between r' s') = true ↔
      ∃ p, (between r s).contains p = true ∧ (between r' s').contains p = true) ∧
    ((between r s).isBounded = true → ∃ ps rows columns, (between r s).cells = .ok ps ∧
      (∀ p, p ∈ ps ↔ (between r s).contains p = true) ∧ ps.Nodup ∧ ps.Pairwise Precedes ∧
      (between r s).size? = some (rows, columns) ∧ ps.length = rows * columns) ∧
    ∀ rows columns, 1 ≤ rows → 1 ≤ columns → ∀ p, ((between r s).resolve rows columns).contains p = true ↔
      (between r s).contains p = true ∧ (r.row = none ∨ s.row = none → p.row < rows) ∧
        (r.column = none ∨ s.column = none → p.column < columns) := by
  have h := ordered_between r s
  refine ⟨fun p => contains_between_iff, fun p => contains_corner, intersects_iff h (ordered_between r' s'),
    exists_cells h, fun rows columns hrows hcolumns p => ?_⟩
  rw [contains_resolve h hrows hcolumns, ← bounds_eq_none_iff, ← bounds_eq_none_iff]
  rfl

/-- Corners that are swapped on one axis only, and an area that is cut down on the axis where one corner is infinite. -/
theorem between_laws_swapped :
    (∃ ps, (between (.ofPosition ⟨4, 1⟩) (.ofPosition ⟨2, 2⟩)).cells = .ok ps ∧
      (∀ p, p ∈ ps ↔ (between (.ofPosition ⟨4, 1⟩) (.ofPosition ⟨2, 2⟩)).contains p = true) ∧ ps.length = 3 * 2) ∧
    ∀ p, ((between { column := some 3 } { row := some 7, column := some 1 }).resolve 5 1).contains p = true ↔
      Spans (some 3) (some 1) p.column ∧ p.row < 5 := by
  obtain ⟨ps, rows, columns, hcells, hmem, -, -, hsize, hlength⟩ :=
    (between_laws (.ofPosition ⟨4, 1⟩) (.ofPosition ⟨2, 2⟩) default default).2.2.2.1 rfl
  obtain ⟨rfl, rfl⟩ := Prod.ext_iff.1 (Option.some.inj hsize)
  obtain ⟨hcontains, -, -, -, hresolve⟩ :=
    between_laws { column := some 3 } { row := some 7, column := some 1 } default default
  refine ⟨⟨ps, hcells, hmem, hlength⟩, fun p => ?_⟩
  rw [hresolve 5 1 (by decide) (by decide), hcontains]
  simp [Spans]

end Area

end Spreadsheet
