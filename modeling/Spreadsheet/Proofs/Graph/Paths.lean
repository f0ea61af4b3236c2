import Mathlib.Logic.Relation

/-!
Paths of relations that change. Paths are kept as long as what changes is not on them, and a new path leads
through what has changed.
-/

namespace Spreadsheet

open Relation

/-! ### Paths into a set -/

section Upstream

variable {α : Type} {r r' : α → α → Prop} {U : α → Prop} {x q : α}

/-- Paths into a set that all steps into it stay in are kept when these steps are. -/
theorem upstream_kept (hkept : ∀ x q, U q → r x q → r' x q ∧ U x) (hq : U q) (hpath : TransGen r x q) :
    TransGen r' x q ∧ U x := by
  induction hpath with
  | single hstep =>
    obtain ⟨hstep', hx⟩ := hkept _ _ hq hstep
    exact ⟨.single hstep', hx⟩
  | tail _ hstep ih =>
    obtain ⟨hstep', hm⟩ := hkept _ _ hq hstep
    obtain ⟨hpath', hx⟩ := ih hm
    exact ⟨.tail hpath' hstep', hx⟩

/-- If new steps into the set come only from points that no step leads to, then paths into the set from
other points are old. -/
theorem upstream_new (hkept : ∀ x q, U q → r x q → r' x q ∧ U x)
    (hnew : ∀ x q, U q → r' x q → r x q ∨ ∀ y, ¬r' y x) (hq : U q) (hpath : TransGen r' x q)
    (hx : ∃ y, r' y x) : TransGen r x q := by
  induction hpath with
  | single hstep =>
    obtain ⟨y, hy⟩ := hx
    exact .single ((hnew _ _ hq hstep).resolve_right fun hnone => hnone y hy)
  | @tail m q hpath hstep ih =>
    obtain ⟨y, -, hy⟩ := TransGen.tail'_iff.1 hpath
    have hold := (hnew _ _ hq hstep).resolve_right fun hnone => hnone y hy
    exact .tail (ih (hkept _ _ hq hold).2) hold

/-- On a path from a point that some step leads to, some step leads to every point. -/
theorem transGen_entered (hx : ∃ y, r y x) (hpath : TransGen r x q) :
    TransGen (fun a b => r a b ∧ ∃ c, r c a) x q := by
  induction hpath with
  | single hstep => exact .single ⟨hstep, hx⟩
  | tail hpath hstep ih =>
    obtain ⟨y, -, hy⟩ := TransGen.tail'_iff.1 hpath
    exact .tail ih ⟨hstep, y, hy⟩

theorem entered_of_cycle (hcycle : TransGen r x x) : ∃ y, r y x := by
  obtain ⟨y, -, hy⟩ := TransGen.tail'_iff.1 hcycle
  exact ⟨y, hy⟩

end Upstream

/-! ### Paths around a point -/

section Around

variable {α : Type} {r s : α → α → Prop} {a b z : α}

/-- A cycle does not touch a point that is on no cycle. -/
theorem transGen_around (hz : ¬TransGen r z z) (hpath : TransGen r a b) (hback : ReflTransGen r b a) :
    TransGen (fun x y => r x y ∧ x ≠ z ∧ y ≠ z) a b := by
  induction hpath with
  | single hstep =>
    refine .single ⟨hstep, ?_, ?_⟩ <;> rintro rfl
    · exact hz (TransGen.head' hstep hback)
    · exact hz (TransGen.tail' hback hstep)
  | @tail m b hpath hstep ih =>
    refine .tail (ih (.head hstep hback)) ⟨hstep, ?_, ?_⟩ <;> rintro rfl
    · exact hz (TransGen.trans (TransGen.head' hstep hback) hpath)
    · exact hz (TransGen.trans_right hback (.tail hpath hstep))

/-- A path does not lead to a point that cannot be reached. -/
theorem transGen_unreached (hz : ¬TransGen r a z) (hpath : TransGen r a b) :
    TransGen (fun x y => r x y ∧ y ≠ z) a b := by
  induction hpath with
  | single hstep =>
    refine .single ⟨hstep, ?_⟩
    rintro rfl
    exact hz (.single hstep)
  | tail hpath hstep ih =>
    refine .tail ih ⟨hstep, ?_⟩
    rintro rfl
    exact hz (.tail hpath hstep)

/-- If all new steps lead to one point, then a path is old, or it leads to that point and is old from there on. -/
theorem transGen_last (hrs : ∀ x y, r x y → s x y ∨ y = z) (hpath : TransGen r a b) :
    TransGen s a b ∨ TransGen r a z ∧ ReflTransGen s z b := by
  induction hpath with
  | single hstep =>
    rcases hrs _ _ hstep with hs | rfl
    · exact .inl (.single hs)
    · exact .inr ⟨.single hstep, .refl⟩
  | tail hpath hstep ih =>
    rcases hrs _ _ hstep with hs | rfl
    · exact ih.imp (.tail · hs) fun hz => ⟨hz.1, hz.2.tail hs⟩
    · exact .inr ⟨.tail hpath hstep, .refl⟩

/-- A path into a set enters it by some step. -/
theorem transGen_enters {U : α → Prop} (ha : ¬U a) (hb : U b) (hpath : TransGen r a b) :
    ∃ x y, ¬U x ∧ r x y ∧ U y ∧ TransGen r a y ∧ ReflTransGen r y b := by
  induction hpath with
  | single hstep => exact ⟨_, _, ha, hstep, hb, .single hstep, .refl⟩
  | @tail m b hpath hstep ih =>
    by_cases hm : U m
    · obtain ⟨x, y, hx, hxy, hy, hay, hym⟩ := ih hm
      exact ⟨x, y, hx, hxy, hy, hay, hym.tail hstep⟩
    · exact ⟨m, b, hm, hstep, hb, .tail hpath hstep, .refl⟩

end Around

end Spreadsheet
