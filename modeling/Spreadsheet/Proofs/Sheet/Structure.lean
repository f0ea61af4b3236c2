import Spreadsheet.Proofs.Sheet.Rebuild

/-!
Inserting and deleting keeps sheets faithful and coherent. Cells move along one axis, array formulas that are not cut
move as a whole, and the graph is built anew.
-/

namespace Spreadsheet

/-! ### Intervals and areas that move -/

namespace Axis

variable {x : Axis} {φ : Nat → Option Nat} {f : Nat → Nat} {start count t u t' u' : Nat} {a : Area} {p q : Position}

/-- Where a cell goes when coordinates on an axis move. -/
def place (x : Axis) (φ : Nat → Option Nat) (p : Position) : Option Position :=
  match x with
  | rows => (φ p.row).map fun row => { p with row }
  | columns => (φ p.column).map fun column => { p with column }

/-- The coordinates of an interval move to those of another one, and the first one to the first one. -/
structure Shifts (φ : Nat → Option Nat) (t u t' u' : Nat) : Prop where
  ordered : t' ≤ u'
  mem : ∀ y, (t' ≤ y ∧ y ≤ u') ↔ ∃ z, φ z = some y ∧ t ≤ z ∧ z ≤ u
  first : ∀ z y, φ z = some y → (t' = y ↔ t = z)

/-- The cells of an area move to those of another one, and the first one to the first one. -/
structure Carries (place : Position → Option Position) (a a' : Area) : Prop where
  bounded : a'.isBounded = true
  ordered : a'.Ordered
  contains : ∀ q, a'.contains q = true ↔ ∃ p, place p = some q ∧ a.contains p = true
  topLeft : ∀ p q, place p = some q → (a'.topLeft? = some q ↔ a.topLeft? = some p)

theorem shifts_insert (hordered : t ≤ u) (hcut : ¬(t < start ∧ start ≤ u)) :
    Shifts (fun z => some (Store.afterInsert start count z)) t u
      (if start ≤ t then t + count else t) (if start ≤ t then u + count else u) := by
  refine ⟨?_, fun y => ?_, fun z y hz => ?_⟩
  · split <;> omega
  · simp only [Store.afterInsert, Option.some.injEq]
    constructor
    · intro hy
      split at hy
      · exact ⟨y - count, by split <;> omega, by omega⟩
      · exact ⟨y, by split <;> omega, by omega⟩
    · rintro ⟨z, hz, hzt⟩
      split at hz <;> split <;> omega
  · simp only [Store.afterInsert, Option.some.injEq] at hz
    split at hz <;> split <;> omega

theorem afterDelete?_eq_some_iff {z y : Nat} : Store.afterDelete? start count z = some y ↔
    (z < start ∧ y = z) ∨ (start + count ≤ z ∧ y = z - count) := by
  unfold Store.afterDelete?
  split
  · rw [Option.some.injEq]
    omega
  · split
    · simp only [reduceCtorEq, false_iff]
      omega
    · rw [Option.some.injEq]
      omega

theorem shifts_delete (hordered : t ≤ u) (hcut : ¬(t < start + count ∧ start ≤ u ∧ (t < start ∨ start + count ≤ u)))
    {z : Nat} (hz : t ≤ z ∧ z ≤ u) (hkept : (Store.afterDelete? start count z).isSome = true) :
    Shifts (Store.afterDelete? start count) t u (if start ≤ t then t - count else t)
      (if start ≤ t then u - count else u) := by
  obtain ⟨w, hw⟩ := Option.isSome_iff_exists.1 hkept
  rw [afterDelete?_eq_some_iff] at hw
  refine ⟨?_, fun y => ?_, fun z y hz => ?_⟩
  · split <;> omega
  · simp only [afterDelete?_eq_some_iff]
    constructor
    · intro hy
      split at hy
      · exact ⟨y + count, by omega, by omega⟩
      · exact ⟨y, by omega, by omega⟩
    · rintro ⟨z', hz', hzt⟩
      split <;> omega
  · rw [afterDelete?_eq_some_iff] at hz
    split <;> omega

/-- A bounded area has finite bounds on the axis. -/
theorem exists_span? (x : Axis) (hbounded : a.isBounded = true) (hordered : a.Ordered) :
    ∃ t u, x.span? a = some (t, u) ∧ t ≤ u := by
  obtain ⟨⟨top, left, _, _, _⟩, ⟨bottom, right, _, _, _⟩⟩ := a
  have hrows := hordered.rows
  have hcolumns := hordered.columns
  cases top <;> cases left <;> cases bottom <;> cases right <;>
    simp [Area.isBounded, Reference.isBounded] at hbounded
  cases x
  · exact ⟨_, _, rfl, hrows⟩
  · exact ⟨_, _, rfl, hcolumns⟩

/-- The area with other bounds on an axis. -/
def spanning (x : Axis) (a : Area) (t u : Nat) : Area :=
  match x with
  | rows => ⟨{ a.first with row := some t }, { a.last with row := some u }⟩
  | columns => ⟨{ a.first with column := some t }, { a.last with column := some u }⟩

theorem moveArea_eq (hspan : x.span? a = some (t, u)) :
    x.moveArea start f a = x.spanning a (if start ≤ t then f t else t) (if start ≤ t then f u else u) := by
  obtain ⟨⟨top, left, _, _, _⟩, ⟨bottom, right, _, _, _⟩⟩ := a
  simp only [moveArea, hspan]
  cases x
  · cases top <;> cases bottom <;> cases hspan
    split <;> rfl
  · cases left <;> cases right <;> cases hspan
    split <;> rfl

/-- An area whose interval moves on an axis moves along the axis. -/
theorem carries_spanning (hbounded : a.isBounded = true) (hordered : a.Ordered) (hspan : x.span? a = some (t, u))
    (h : Shifts φ t u t' u') : Carries (x.place φ) a (x.spanning a t' u') := by
  obtain ⟨⟨top, left, _, _, _⟩, ⟨bottom, right, _, _, _⟩⟩ := a
  have hrows := hordered.rows
  have hcolumns := hordered.columns
  cases top <;> cases left <;> cases bottom <;> cases right <;>
    simp [Area.isBounded, Reference.isBounded] at hbounded
  cases x with
  | rows =>
    cases hspan
    refine ⟨rfl, ⟨h.ordered, hcolumns⟩, fun q => ?_, fun p q hq => ?_⟩
    · simp only [spanning, Area.contains, Area.axisContains, Bool.and_eq_true, decide_eq_true_eq, h.mem]
      constructor
      · rintro ⟨⟨z, hz, hin⟩, hcolumn⟩
        exact ⟨⟨z, q.column⟩, by simp [place, hz], hin, hcolumn⟩
      · rintro ⟨p, hp, hin, hcolumn⟩
        obtain ⟨row, hrow, rfl⟩ := Option.map_eq_some_iff.1 hp
        exact ⟨⟨p.row, hrow, hin⟩, hcolumn⟩
    · obtain ⟨row, column⟩ := p
      obtain ⟨row', hrow, rfl⟩ := Option.map_eq_some_iff.1 hq
      simp only [spanning, Area.topLeft?, Reference.position?, Option.some.injEq, Position.mk.injEq, h.first _ _ hrow]
  | columns =>
    cases hspan
    refine ⟨rfl, ⟨hrows, h.ordered⟩, fun q => ?_, fun p q hq => ?_⟩
    · simp only [spanning, Area.contains, Area.axisContains, Bool.and_eq_true, decide_eq_true_eq, h.mem]
      constructor
      · rintro ⟨hrow, z, hz, hin⟩
        exact ⟨⟨q.row, z⟩, by simp [place, hz], hrow, hin⟩
      · rintro ⟨p, hp, hrow, hin⟩
        obtain ⟨column, hcolumn, rfl⟩ := Option.map_eq_some_iff.1 hp
        exact ⟨hrow, p.column, hcolumn, hin⟩
    · obtain ⟨row, column⟩ := p
      obtain ⟨column', hcolumn, rfl⟩ := Option.map_eq_some_iff.1 hq
      simp only [spanning, Area.topLeft?, Reference.position?, Option.some.injEq, Position.mk.injEq,
        h.first _ _ hcolumn]

/-- A cell of an area that moves has a coordinate between the bounds that moves. -/
theorem exists_moving (hspan : x.span? a = some (t, u)) (hin : a.contains p = true) (hp : x.place φ p = some q) :
    ∃ z, (t ≤ z ∧ z ≤ u) ∧ (φ z).isSome = true := by
  obtain ⟨⟨top, left, _, _, _⟩, ⟨bottom, right, _, _, _⟩⟩ := a
  rw [Area.contains, Bool.and_eq_true] at hin
  cases x with
  | rows =>
    obtain ⟨row, hrow, -⟩ := Option.map_eq_some_iff.1 hp
    cases top <;> cases bottom <;> cases hspan
    exact ⟨p.row, by simpa [Area.axisContains] using hin.1, by simp [hrow]⟩
  | columns =>
    obtain ⟨column, hcolumn, -⟩ := Option.map_eq_some_iff.1 hp
    cases left <;> cases right <;> cases hspan
    exact ⟨p.column, by simpa [Area.axisContains] using hin.2, by simp [hcolumn]⟩

theorem place_eq_some_comm {ψ : Nat → Option Nat} (h : ∀ z y, φ z = some y ↔ ψ y = some z) :
    x.place φ p = some q ↔ x.place ψ q = some p := by
  obtain ⟨row, column⟩ := p
  obtain ⟨row', column'⟩ := q
  cases x with
  | rows =>
    simp only [place, Option.map_eq_some_iff, Position.mk.injEq]
    grind
  | columns =>
    simp only [place, Option.map_eq_some_iff, Position.mk.injEq]
    grind

theorem cell?_insert (x : Axis) (s : Store) (start count : Nat) {c : Cell} :
    (x.insert s start count).cell? q = some c ↔
      ∃ p, x.place (fun z => some (Store.afterInsert start count z)) p = some q ∧ s.cell? p = some c := by
  have hread : (x.insert s start count).cell? q = (x.place (Store.afterDelete? start count) q).bind s.cell? := by
    cases x with
    | rows => exact Store.from_insertRows start count s q
    | columns => exact Store.from_insertColumns start count s q
  rw [hread, Option.bind_eq_some_iff]
  refine exists_congr fun p => and_congr_left fun _ => place_eq_some_comm fun z y => ?_
  rw [Store.afterDelete?_eq_some_iff, Option.some.injEq]

theorem cell?_delete (x : Axis) (s : Store) (start count : Nat) {c : Cell} :
    (x.delete s start count).cell? q = some c ↔
      ∃ p, x.place (Store.afterDelete? start count) p = some q ∧ s.cell? p = some c := by
  have hread : (x.delete s start count).cell? q =
      (x.place (fun z => some (Store.afterInsert start count z)) q).bind s.cell? := by
    cases x with
    | rows => exact Store.from_deleteRows start count s q
    | columns => exact Store.from_deleteColumns start count s q
  rw [hread, Option.bind_eq_some_iff]
  refine exists_congr fun p => and_congr_left fun _ => place_eq_some_comm fun z y => ?_
  rw [Store.afterDelete?_eq_some_iff, Option.some.injEq]

end Axis

/-! ### Sheets -/

/-- Array formulas that move as a whole still stand together. -/
theorem Store.Arranged.carried {s s' : Store} (h : s.Arranged) {place : Position → Option Position} {F : Area → Area}
    (hcell : ∀ q c', s'.cell? q = some c' ↔
      ∃ p c, place p = some q ∧ s.cell? p = some c ∧ { c with area := c.area.map F } = c')
    (hcarries : ∀ p c a q, s.cell? p = some c → c.area = some a → place p = some q → Axis.Carries place a (F a)) :
    s'.Arranged := by
  have hback (q : Position) (c' : Cell) (b : Area) (hc' : s'.cell? q = some c') (hb : c'.area = some b) :
      ∃ p c a, place p = some q ∧ s.cell? p = some c ∧ c.area = some a ∧ F a = b ∧
        c'.content = c.content := by
    obtain ⟨p, c, hp, hc, rfl⟩ := (hcell q c').1 hc'
    obtain ⟨a, ha, rfl⟩ := Option.map_eq_some_iff.1 hb
    exact ⟨p, c, a, hp, hc, ha, rfl, rfl⟩
  refine ⟨fun q c' b hc' hb => ?_, fun q c' b m hc' hb hm => ?_, fun q c' b hc' hb => ?_,
    fun q c' b hc' hb htop => ?_⟩ <;>
    obtain ⟨p, c, a, hp, hc, ha, rfl, hcontent⟩ := hback q c' b hc' hb <;>
    have hmoves := hcarries p c a q hc ha hp
  · exact ⟨hmoves.bounded, hmoves.ordered, (hmoves.contains q).2 ⟨p, hp, (h.area p c a hc ha).2.2⟩⟩
  · obtain ⟨p', hp', hin⟩ := (hmoves.contains m).1 hm
    obtain ⟨c'', hc'', ha''⟩ := h.whole p c a p' hc ha hin
    exact ⟨_, (hcell m _).2 ⟨p', c'', hp', hc'', rfl⟩, by rw [ha'']; rfl⟩
  · rw [Cell.isFormula, hcontent, hmoves.topLeft p q hp]
    exact h.head p c a hc ha
  · rw [ne_eq, hmoves.topLeft p q hp] at htop
    exact hcontent.trans (h.bare p c a hc ha htop)

namespace Sheet

open Axis

variable {s s' : Sheet} {x : Axis} {start count : Nat} {uncut : Prop}

theorem not_of_findArray? {cond : Area → Bool} (hfind : s.findArray? cond = none) {p : Position} {c : Cell} {a : Area}
    (hc : s.store.cell? p = some c) (ha : c.area = some a) : cond a = false := by
  have hnone := List.findSome?_eq_none_iff.1 hfind (p, c) (Store.mem_toList.2 hc)
  simpa [ha] using hnone

/-- Moving cells so that array formulas move as a whole keeps a sheet faithful. -/
theorem Kept.moved (h : s.Kept uncut) {store : Store} {φ : Nat → Option Nat} {f : Nat → Nat}
    (hcell : ∀ q c, store.cell? q = some c ↔ ∃ p, x.place φ p = some q ∧ s.store.cell? p = some c)
    (hcarries : ∀ p c a q, s.store.cell? p = some c → c.area = some a → x.place φ p = some q →
      Carries (x.place φ) a (x.moveArea start f a)) : (s.moved x store start f).Kept uncut := by
  have hcell' (q : Position) (c' : Cell) :
      (store.mapCells fun c => { c with area := c.area.map (x.moveArea start f) }).cell? q = some c' ↔
        ∃ p c, x.place φ p = some q ∧ s.store.cell? p = some c ∧
          { c with area := c.area.map (x.moveArea start f) } = c' := by
    rw [Store.cell?_mapCells, Option.map_eq_some_iff]
    constructor
    · rintro ⟨c, hc, rfl⟩
      obtain ⟨p, hp, hc⟩ := (hcell q c).1 hc
      exact ⟨p, c, hp, hc, rfl⟩
    · rintro ⟨p, c, hp, hc, rfl⟩
      exact ⟨c, (hcell q c).2 ⟨p, hp, hc⟩, rfl⟩
  refine kept_rebuild
    (s := { s with store := store.mapCells fun c => { c with area := c.area.map (x.moveArea start f) } })
    (h.faithful.arranged.carried hcell' hcarries) (fun q c' text hc' hf => ?_)
    fun hu => ⟨(h.coherent hu).library, (h.coherent hu).names⟩
  obtain ⟨p, c, -, hc, rfl⟩ := (hcell' q c').1 hc'
  exact h.faithful.readable p c text hc hf

theorem Kept.insert (h : s.Kept uncut) (hs : s.insert x start count = .ok s') : s'.Kept uncut := by
  unfold Sheet.insert at hs
  split at hs
  · cases hs
    exact h
  · split at hs
    · cases hs
    · rename_i hfind
      simp only at hs
      split at hs
      · cases hs
      · cases hs
        refine h.moved (fun q c => x.cell?_insert s.store start count) fun p c a q hc ha _ => ?_
        obtain ⟨hbounded, hordered, -⟩ := h.faithful.arranged.area p c a hc ha
        obtain ⟨t, u, hspan, hle⟩ := x.exists_span? hbounded hordered
        have hcut : ¬(t < start ∧ start ≤ u) := by
          simpa [insertCuts, hspan] using not_of_findArray? hfind hc ha
        rw [moveArea_eq hspan]
        exact carries_spanning hbounded hordered hspan (shifts_insert hle hcut)

theorem Kept.delete (h : s.Kept uncut) (hs : s.delete x start count = .ok s') : s'.Kept uncut := by
  unfold Sheet.delete at hs
  split at hs
  · cases hs
    exact h
  · split at hs
    · cases hs
    · rename_i hfind
      cases hs
      refine h.moved (fun q c => x.cell?_delete s.store start count) fun p c a q hc ha hq => ?_
      obtain ⟨hbounded, hordered, hcontains⟩ := h.faithful.arranged.area p c a hc ha
      obtain ⟨t, u, hspan, hle⟩ := x.exists_span? hbounded hordered
      have hcut : ¬(t < start + count ∧ start ≤ u ∧ (t < start ∨ start + count ≤ u)) := by
        simpa [deleteCuts, hspan, and_assoc] using not_of_findArray? hfind hc ha
      obtain ⟨z, hz, hkept⟩ := exists_moving hspan hcontains hq
      rw [moveArea_eq hspan]
      exact carries_spanning hbounded hordered hspan (shifts_delete hle hcut hz hkept)

end Sheet

end Spreadsheet
