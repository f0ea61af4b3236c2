import Spreadsheet.Dependencies
import Spreadsheet.Store

/-!
Stores that agree on some cells. What is read from an area is the same in two stores that agree on the
cells of the area, as long as infinite axes are cut down to the same extent.
-/

namespace Spreadsheet

namespace Area

/-- The two bounds of an axis are in order, or the axis is infinite at both ends. -/
def AxisOrdered : Option Nat → Option Nat → Prop
  | some low, some high => low ≤ high
  | none, none => True
  | _, _ => False

/-- The first corner of an area is its top left one, as it is in every area between two corners. -/
structure Ordered (a : Area) : Prop where
  rows : AxisOrdered a.first.row a.last.row
  columns : AxisOrdered a.first.column a.last.column

theorem axisOrdered_bounds (low high : Option Nat) :
    AxisOrdered (bounds low high).1 (bounds low high).2 := by
  cases low <;> cases high <;> simp only [bounds, AxisOrdered]
  omega

theorem ordered_between (a b : Reference) : (between a b).Ordered :=
  ⟨axisOrdered_bounds a.row b.row, axisOrdered_bounds a.column b.column⟩

/-- Each corner lies between the bounds of the axis. -/
theorem axisContains_bounds {x y : Option Nat} {n : Nat} (hn : x = some n ∨ y = some n) :
    axisContains (bounds x y).1 (bounds x y).2 n = true := by
  cases x <;> cases y <;> simp [bounds, axisContains] at hn ⊢
  omega

/-- An area between two corners contains its corners, where these are cells. -/
theorem contains_between {a b : Reference} {p : Position} (hp : a.position? = some p) :
    (between a b).contains p = true := by
  unfold Reference.position? at hp
  split at hp
  · rename_i r c hr hc
    cases hp
    rw [contains, Bool.and_eq_true]
    exact ⟨axisContains_bounds (.inl hr), axisContains_bounds (.inl hc)⟩
  · cases hp

/-- The bounds of an axis when an infinite one is cut down to `count` coordinates. -/
def clippedAxis (low high : Option Nat) (count : Nat) : Option Nat × Option Nat :=
  if low.isNone then (some 0, some (count - 1)) else (low, high)

theorem row_resolve (a : Area) (rows columns : Nat) :
    ((a.resolve rows columns).first.row, (a.resolve rows columns).last.row) =
      clippedAxis a.first.row a.last.row rows := by
  obtain ⟨⟨row, column, _, _, _⟩, last⟩ := a
  cases row <;> cases column <;> rfl

theorem column_resolve (a : Area) (rows columns : Nat) :
    ((a.resolve rows columns).first.column, (a.resolve rows columns).last.column) =
      clippedAxis a.first.column a.last.column columns := by
  obtain ⟨⟨row, column, _, _, _⟩, last⟩ := a
  cases row <;> cases column <;> rfl

theorem resolve_eq_self (a : Area) (hbounded : a.isBounded = true) (rows columns : Nat) :
    a.resolve rows columns = a := by
  simp only [isBounded, Reference.isBounded, Bool.and_eq_true, Option.isSome_iff_ne_none] at hbounded
  simp [resolve, takesColumns, takesRows, hbounded.1.1, hbounded.1.2]

/-- What lies between the bounds of an axis that has been cut down lies between those of the axis. -/
theorem axisContains_of_clipped {low high : Option Nat} {count l h x : Nat} (hordered : AxisOrdered low high)
    (hclip : clippedAxis low high count = (some l, some h)) (hlow : min l h ≤ x) (hhigh : x ≤ max l h) :
    axisContains low high x = true := by
  cases low <;> cases high <;> simp [clippedAxis, AxisOrdered, axisContains] at hclip hordered ⊢
  obtain ⟨rfl, rfl⟩ := hclip
  omega

end Area

namespace Store

variable {s s' : Store} {a : Area} {p : Position}

/-- Whether two stores show the same at a position. -/
structure AgreeAt (s s' : Store) (p : Position) : Prop where
  value : s'.read p = s.read p
  format : (s'.cell? p).bind Cell.format = (s.cell? p).bind Cell.format

/-- Whether two stores show the same in an area. -/
structure AgreeOn (s s' : Store) (a : Area) : Prop where
  cells : ∀ p, a.contains p = true → AgreeAt s s' p
  extent : a.isBounded = true ∨ s'.rows = s.rows ∧ s'.columns = s.columns

theorem AgreeAt.refl (s : Store) (p : Position) : AgreeAt s s p := ⟨rfl, rfl⟩

theorem AgreeAt.trans {s₁ s₂ s₃ : Store} (h : AgreeAt s₁ s₂ p) (h' : AgreeAt s₂ s₃ p) : AgreeAt s₁ s₃ p :=
  ⟨h'.value.trans h.value, h'.format.trans h.format⟩

theorem mem_span {low high x : Nat} : x ∈ Area.span low high ↔ low ≤ x ∧ x ≤ high := by
  simp only [Area.span, List.mem_range'_1]
  omega

theorem readBlock_congr {q : Position}
    (h : ∀ r c, min p.row q.row ≤ r → r ≤ max p.row q.row → min p.column q.column ≤ c →
      c ≤ max p.column q.column → AgreeAt s s' ⟨r, c⟩) : s'.readBlock p q = s.readBlock p q := by
  unfold readBlock
  split
  · rename_i heq
    subst heq
    exact (h p.row p.column (by simp) (by simp) (by simp) (by simp)).value
  · simp only [Value.array.injEq]
    refine List.map_congr_left fun c hc => List.map_congr_left fun r hr => ?_
    rw [mem_span] at hc hr
    exact (h r c hr.1 hr.2 hc.1 hc.2).value

/-- Reading an area only reads the cells of the area. -/
theorem readArea?_congr (hordered : a.Ordered) (h : AgreeOn s s' a) : s'.readArea? a = s.readArea? a := by
  have hclip : a.resolve s'.rows s'.columns = a.resolve s.rows s.columns := by
    rcases h.extent with hb | ⟨hr, hc⟩
    · rw [a.resolve_eq_self hb, a.resolve_eq_self hb]
    · rw [hr, hc]
  unfold readArea?
  simp only [hclip]
  split
  · rename_i p q hp hq
    refine congrArg some (readBlock_congr fun r c hr hr' hc hc' => h.cells ⟨r, c⟩ ?_)
    unfold Reference.position? at hp hq
    split at hp
    · rename_i top left htop hleft
      split at hq
      · rename_i bottom right hbottom hright
        cases hp
        cases hq
        have hrows := a.row_resolve s.rows s.columns
        have hcolumns := a.column_resolve s.rows s.columns
        rw [htop, hbottom] at hrows
        rw [hleft, hright] at hcolumns
        rw [Area.contains, Bool.and_eq_true]
        exact ⟨Area.axisContains_of_clipped hordered.rows hrows.symm hr hr',
          Area.axisContains_of_clipped hordered.columns hcolumns.symm hc hc'⟩
      · cases hq
    · cases hp
  · rfl

end Store

end Spreadsheet
