import Spreadsheet.Proofs.Graph.Settling
import Spreadsheet.Proofs.Graph.Spread
import Spreadsheet.Proofs.Graph.Wiring

/-!
Passes over graphs without dirty vertices. There marking makes dirty just what depends on where it starts, and so a pass
settles the listed vertices and all that depends on them, each of them once and nothing else.
-/

namespace Spreadsheet.Graph

open Relation

variable {σ : Type} {g : Graph} {i k : Slot} {is : List Slot}

/-- In a graph without dirty vertices marking makes dirty just what depends on where it starts. -/
theorem isDirty_markEach_iff (hlinked : g.Linked) (hclean : ∀ k, ¬g.isDirty k = true) (hlive : ∀ i ∈ is, g.Live i) :
    (g.markEach is).isDirty k = true ↔ ∃ i ∈ is, ReflTransGen g.Edge i k := by
  have hclosed : g.DirtyClosed := fun i _ hi _ _ => absurd hi (hclean i)
  rw [markEach_eq_markAll, hclosed.isDirty_markAll_iff]
  constructor
  · rintro (hk | ⟨-, hpath⟩)
    · exact absurd hk (hclean k)
    · exact hpath
  · rintro ⟨i, hi, hpath⟩
    refine .inr ⟨?_, i, hi, hpath⟩
    cases hpath with
    | refl => exact hlive _ hi
    | tail _ hedge => exact (hlinked.edge_live hedge).2

/-- A change of a cell makes dirty what depends on its vertex or on those that listen to it. -/
theorem isDirty_setDirty_iff {p : Position} (hwell : g.WellFormed) (hwired : g.Wired)
    (hclean : ∀ k, ¬g.isDirty k = true) : (g.setDirty p).isDirty k = true ↔
      ∃ i, (g.slot? p = some i ∨ i ∈ g.listenersOf p) ∧ ReflTransGen g.Edge i k := by
  rw [setDirty_eq_markAll, ← markEach_eq_markAll, isDirty_markEach_iff hwell.linked hclean fun i hi => ?_]
  · simp only [starts, List.mem_append, Option.mem_toList]
  rcases List.mem_append.1 hi with hi | hi
  · obtain ⟨v, hv, -⟩ := hwell.vertex_of_slot? (Option.mem_toList.1 hi)
    exact ⟨v, hv⟩
  · obtain ⟨⟨a, l⟩, hl, rfl⟩ := List.mem_map.1 hi
    have harea := (hwired.listeners a l).1 (List.mem_filter.1 hl).1
    by_contra hdead
    rw [hwired.dead l hdead] at harea
    cases harea

/-! ### Passes -/

theorem isDirty_markVolatile_iff (hlinked : g.Linked) (hclean : ∀ k, ¬g.isDirty k = true)
    (hlive : ∀ i ∈ g.volatiles, g.Live i) :
    g.markVolatile.isDirty k = true ↔ ∃ i ∈ g.volatiles, ReflTransGen g.Edge i k :=
  isDirty_markEach_iff (g := { g with volatiles := [] }) hlinked hclean hlive

/-- A pass over a graph without dirty vertices settles the listed ones and what depends on them. -/
theorem Sound.settlings_of_clean {h : Handler σ} {limits : Limits} {state : σ} (hg : g.markVolatile.Sound)
    (hlinked : g.Linked) (hclean : ∀ k, ¬g.isDirty k = true) (hlive : ∀ i ∈ g.volatiles, g.Live i)
    {moments : List (Pass σ × Slot)} {p : Pass σ}
    (hr : Pass.Runs h limits.rebuilds (g.markVolatile.beginPass state) moments p) :
    (Pass.settlings h limits.rebuilds moments).Nodup ∧
      ∀ k, k ∈ Pass.settlings h limits.rebuilds moments ↔ ∃ i ∈ g.volatiles, ReflTransGen g.Edge i k := by
  have hu := hg.underway state
  obtain ⟨hnodup, hmem⟩ := hr.settlings_spec hu
  refine ⟨hnodup, fun k => ?_⟩
  rw [hmem, isDirty_beginPass, isDirty_markVolatile_iff hlinked hclean hlive, and_iff_left]
  exact (hr.underway hu).clean hr.queue k

/-- Nothing is done by a pass when nothing is dirty and nothing is listed. -/
theorem recalculate_of_idle (h : Handler σ) (limits : Limits) (state : σ) (hvolatiles : g.volatiles = [])
    (hmarked : g.marked = []) :
    (g.markVolatile.recalculate h limits state).tally = {} ∧
      (g.markVolatile.recalculate h limits state).state = state := by
  have hmark : g.markVolatile = { g with volatiles := [] } := by
    rw [markVolatile, hvolatiles]
    rfl
  have hqueue : (g.markVolatile.beginPass state).queue = [] := by
    rw [hmark]
    exact hmarked
  have hdone : g.markVolatile.recalculate h limits state = g.markVolatile.beginPass state := by
    unfold recalculate Pass.run
    rw [hqueue]
  rw [hdone]
  exact ⟨rfl, rfl⟩

end Spreadsheet.Graph
