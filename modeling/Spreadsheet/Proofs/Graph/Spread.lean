import Mathlib
import Spreadsheet.Proofs.Graph.Marks

/-!
How far marks spread. Marking stops at vertices that are dirty already, and yet it reaches all that depends on where it
starts, if the dirty vertices were closed before: whatever a path meets first is either marked on the way or was dirty
together with everything after it. The marks also bound the work, on cycles as well, since a vertex is marked once.
-/

namespace Spreadsheet.Graph

open Relation

variable {g g' : Graph} {i j k l : Slot} {p : Position} {stack rest new : List Slot}

/-- Every vertex that reads a dirty one is dirty. -/
def DirtyClosed (g : Graph) : Prop := ∀ i j, g.isDirty i = true → g.Edge i j → g.Live j → g.isDirty j = true

instance (g : Graph) : Decidable g.DirtyClosed :=
  decidable_of_iff (∀ i < g.slots.size, g.isDirty i = true → ∀ j ∈ g.dependents i, (g.vertex? j).isSome = true →
      g.isDirty j = true) <| by
    constructor
    · intro h i j hi hij hj
      obtain ⟨v, hv, hmem⟩ := hij
      refine h i (lt_size_of_vertex? hv) hi j (by simpa [dependents, hv] using hmem) ?_
      exact Option.isSome_iff_exists.2 hj
    · intro h i _ hi j hij hj
      obtain ⟨v, hv, -⟩ := isDirty_iff.1 hi
      exact h i j hi ⟨v, hv, by simpa [dependents, hv] using hij⟩ (Option.isSome_iff_exists.1 hj)

/-- Where marking starts when a cell has changed: at its vertex and at those that listen to an area with the cell. -/
def StartsAt (g : Graph) (p : Position) (i : Slot) : Prop :=
  g.slot? p = some i ∨ ∃ a, (a, i) ∈ g.listeners ∧ a.contains p = true

/-- The same starts in the order in which they are marked. -/
def starts (g : Graph) (p : Position) : List Slot := (g.slot? p).toList ++ g.listenersOf p

theorem mem_starts : i ∈ g.starts p ↔ g.StartsAt p i := by
  unfold starts StartsAt listenersOf
  rw [List.mem_append, Option.mem_toList, List.mem_map]
  constructor
  · rintro (hi | ⟨⟨a, l⟩, hl, rfl⟩)
    · exact .inl hi
    · obtain ⟨hmem, ha⟩ := List.mem_filter.1 hl
      exact .inr ⟨a, hmem, ha⟩
  · rintro (hi | ⟨a, hmem, ha⟩)
    · exact .inl hi
    · exact .inr ⟨(a, i), List.mem_filter.2 ⟨hmem, ha⟩, rfl⟩

/-! ### One loop for all starts -/

/-- Marking from a stack is marking from its upper part and then from the rest. -/
theorem markAll_append (g : Graph) (stack rest : List Slot) :
    g.markAll (stack ++ rest) = (g.markAll stack).markAll rest := by
  fun_induction markAll g stack with
  | case1 g => rfl
  | case2 g i stack hv ih =>
    rw [List.cons_append, markAll_vacant hv]
    exact ih
  | case3 g i stack v hv hd ih =>
    rw [List.cons_append, markAll_dirty hv hd]
    exact ih
  | case4 g i stack v hv hd hdec ih =>
    rw [List.cons_append, markAll_clean hv hd, ← List.append_assoc]
    exact ih

theorem markEach_eq_markAll (g : Graph) (is : List Slot) : g.markEach is = g.markAll is := by
  induction is generalizing g with
  | nil => rw [markAll]; rfl
  | cons i is ih =>
    change (g.markFrom i).markEach is = g.markAll ([i] ++ is)
    rw [ih, markAll_append, markFrom]

theorem setDirty_eq_markAll (g : Graph) (p : Position) : g.setDirty p = g.markAll (g.starts p) := by
  rw [setDirty_eq, ← markEach_eq_markAll, starts, markEach, markEach, markEach, List.foldl_append]

/-! ### What is reached -/

/-- A vertex that is dirty after marking has been dirty before, or depends on one of those that were to be marked. -/
theorem reached_of_markAll (hk : (g.markAll stack).isDirty k = true) :
    g.isDirty k = true ∨ ∃ i ∈ stack, ReflTransGen g.Edge i k := by
  fun_induction markAll g stack with
  | case1 => exact .inl hk
  | case2 g i rest hv ih => exact (ih hk).imp_right List.exists_mem_cons_of_exists
  | case3 g i rest v hv hd ih => exact (ih hk).imp_right List.exists_mem_cons_of_exists
  | case4 g i rest v hv hd hdec ih =>
    have hedge : (g.mark i).Edge = g.Edge := funext₂ fun k l => propext (marks_mark hv hd).edge_iff
    rw [hedge] at ih
    rcases ih hk with hk | ⟨j, hj, hpath⟩
    · rcases (isDirty_mark hv).1 hk with hk | rfl
      · exact .inl hk
      · exact .inr ⟨k, List.mem_cons_self, .refl⟩
    · refine .inr ?_
      rw [List.mem_append, List.mem_reverse] at hj
      rcases hj with hj | hj
      · exact ⟨i, List.mem_cons_self, .head ⟨v, hv, hj⟩ hpath⟩
      · exact ⟨j, List.mem_cons_of_mem i hj, hpath⟩

/-- If the dirty vertices are closed, marking makes dirty what depends on where it starts and nothing else. -/
theorem DirtyClosed.isDirty_markAll_iff (h : g.DirtyClosed) :
    (g.markAll stack).isDirty k = true ↔
      g.isDirty k = true ∨ g.Live k ∧ ∃ i ∈ stack, ReflTransGen g.Edge i k := by
  have hmarks := marks_markAll g stack
  have hclosed (k l : Slot) (hk : (g.markAll stack).isDirty k = true) (hkl : g.Edge k l) (hl : g.Live l) :
      (g.markAll stack).isDirty l = true := by
    have hstart (k l : Slot) (hk : g.isDirty k = true) (hkl : g.Edge k l) :
        g.isDirty l = true ∨ l ∈ stack ∨ ¬g.Live l := by
      by_cases hl : g.Live l
      · exact .inl (h k l hk hkl hl)
      · exact .inr (.inr hl)
    have hdead (k l : Slot) (_ : g.Edge k l) (hl : ¬g.Live l) : ¬g.Live l := hl
    exact (closed_markAll hdead hstart hk hkl).resolve_right (not_not_intro hl)
  constructor
  · intro hk
    refine (reached_of_markAll hk).imp_right fun hpath => ⟨?_, hpath⟩
    exact hmarks.live_iff.1 (live_of_isDirty hk)
  · rintro (hk | ⟨hlive, i, hi, hpath⟩)
    · exact hmarks.isDirty hk
    · -- along the path every vertex but the last one is the source of an edge, so none of them is missing
      induction hpath with
      | refl => exact isDirty_markAll hi hlive
      | tail _ hedge ih => exact hclosed _ _ (ih hedge.live_source) hedge hlive

/-! ### What marking does, step by step -/

/-- Marking as a loop. It ends in the second graph after some number of rounds, each of which takes the slot on top off
the stack; a round that marks a vertex puts its readers on top. -/
inductive Rounds : Graph → List Slot → Nat → Graph → Prop
  | done (g : Graph) : Rounds g [] 0 g
  /-- There is no vertex in the slot. -/
  | vacant {g g' : Graph} {i : Slot} {rest : List Slot} {n : Nat} (hv : g.vertex? i = none)
      (h : Rounds g rest n g') : Rounds g (i :: rest) (n + 1) g'
  /-- The vertex in the slot is dirty already. -/
  | dirty {g g' : Graph} {i : Slot} {v : Vertex} {rest : List Slot} {n : Nat} (hv : g.vertex? i = some v)
      (hd : v.dirty = true) (h : Rounds g rest n g') : Rounds g (i :: rest) (n + 1) g'
  /-- The vertex in the slot is marked. -/
  | clean {g g' : Graph} {i : Slot} {v : Vertex} {rest : List Slot} {n : Nat} (hv : g.vertex? i = some v)
      (hd : ¬v.dirty = true) (h : Rounds (g.mark i) (v.dependents.reverse ++ rest) n g') :
      Rounds g (i :: rest) (n + 1) g'

/-- The number of rounds is settled by where the loop starts: each start and each reader of a vertex that is marked is
taken off the stack once. -/
def roundsFor (g : Graph) (stack new : List Slot) : Nat :=
  stack.length + (new.map fun i => (g.dependents i).length).sum

theorem dependents_mark (g : Graph) (i k : Slot) : (g.mark i).dependents k = g.dependents k := by
  change (((g.modify i fun v => { v with dirty := true }).vertex? k).map Vertex.dependents).getD [] = _
  rw [vertex?_modify, dependents]
  split
  · cases g.vertex? k <;> rfl
  · rfl

/-- Marking marks vertices one after the other that are clean until then, and ends. -/
theorem exists_rounds (g : Graph) (stack : List Slot) : ∃ new : List Slot, g.markAll stack = new.foldl mark g ∧
    new.Nodup ∧ (∀ k ∈ new, g.Live k ∧ ¬g.isDirty k = true) ∧
      Rounds g stack (g.roundsFor stack new) (g.markAll stack) := by
  fun_induction markAll g stack with
  | case1 g => exact ⟨[], rfl, .nil, by simp, .done g⟩
  | case2 g i rest hv ih =>
    obtain ⟨new, hnew, hnodup, hclean, hrounds⟩ := ih
    refine ⟨new, hnew, hnodup, hclean, ?_⟩
    have hcount : g.roundsFor (i :: rest) new = g.roundsFor rest new + 1 := by
      simp only [roundsFor, List.length_cons]
      omega
    rw [hcount]
    exact .vacant hv hrounds
  | case3 g i rest v hv hd ih =>
    obtain ⟨new, hnew, hnodup, hclean, hrounds⟩ := ih
    refine ⟨new, hnew, hnodup, hclean, ?_⟩
    have hcount : g.roundsFor (i :: rest) new = g.roundsFor rest new + 1 := by
      simp only [roundsFor, List.length_cons]
      omega
    rw [hcount]
    exact .dirty hv hd hrounds
  | case4 g i rest v hv hd hdec ih =>
    obtain ⟨new, hnew, hnodup, hclean, hrounds⟩ := ih
    have hmarks := marks_mark hv hd
    have hfresh : i ∉ new := fun hi => (hclean i hi).2 ((isDirty_mark hv).2 (.inr rfl))
    refine ⟨i :: new, hnew, List.nodup_cons.2 ⟨hfresh, hnodup⟩, ?_, ?_⟩
    · intro k hk
      rcases List.mem_cons.1 hk with rfl | hk
      · exact ⟨⟨v, hv⟩, (isDirty_iff_of_vertex? hv).not.2 hd⟩
      · obtain ⟨hlive, hclean⟩ := hclean k hk
        exact ⟨hmarks.live_iff.1 hlive, fun hdirty => hclean (hmarks.isDirty hdirty)⟩
    · have hreaders : g.dependents i = v.dependents := by simp [dependents, hv]
      have hcount : g.roundsFor (i :: rest) (i :: new) =
          (g.mark i).roundsFor (v.dependents.reverse ++ rest) new + 1 := by
        simp only [roundsFor, dependents_mark, hreaders, List.length_cons, List.length_append, List.length_reverse,
          List.map_cons, List.sum_cons]
        omega
      rw [hcount]
      exact .clean hv hd hrounds

/-! ### What marking leaves -/

/-- The vertex with a mark. -/
def markedVertex (v : Vertex) : Vertex := { v with dirty := true }

/-- The graph with marks on the vertices in some slots, which are noted in this order. -/
def withMarks (g : Graph) (new : List Slot) : Graph :=
  { g with
    slots := g.slots.mapIdx fun i v => if i ∈ new then v.map markedVertex else v
    marked := g.marked ++ new }

theorem vertex?_withMarks (g : Graph) (new : List Slot) (k : Slot) :
    (g.withMarks new).vertex? k = if k ∈ new then (g.vertex? k).map markedVertex else g.vertex? k := by
  unfold vertex? withMarks
  rw [Array.getElem?_mapIdx]
  cases g.slots[k]? with
  | none => simp
  | some v => split <;> simp [*]

theorem isDirty_withMarks : (g.withMarks new).isDirty k = true ↔ g.isDirty k = true ∨ g.Live k ∧ k ∈ new := by
  unfold isDirty Live
  rw [vertex?_withMarks]
  by_cases hk : k ∈ new
  · cases g.vertex? k <;> simp [hk, markedVertex]
  · simp [hk]

theorem getElem?_slots_mark (g : Graph) (i k : Slot) :
    (g.mark i).slots[k]? = g.slots[k]?.map fun v => if k = i then v.map markedVertex else v := by
  change (g.modify i markedVertex).slots[k]? = _
  unfold modify
  by_cases hk : k = i
  · subst hk
    have hvertex : g.vertex? k = g.slots[k]?.join := rfl
    cases hslot : g.slots[k]? with
    | none =>
      rw [hvertex, hslot]
      exact hslot
    | some v =>
      have hlt : k < g.slots.size := (Array.getElem?_eq_some_iff.1 hslot).1
      rw [hvertex, hslot]
      cases v with
      | none => exact hslot.trans (by simp)
      | some v => simp [put, hlt]
  · have hother : (fun v : Option Vertex => if k = i then v.map markedVertex else v) = id := by
      funext v
      rw [if_neg hk, id]
    rw [hother, Option.map_id, id]
    cases g.vertex? i with
    | none => rfl
    | some v => simp [put, Ne.symm hk]

/-- Marking a vertex first is marking it in front of the others. -/
theorem withMarks_mark (g : Graph) (i : Slot) (new : List Slot) :
    (g.mark i).withMarks new = g.withMarks (i :: new) := by
  have hslots : (g.mark i).slots.mapIdx (fun k v => if k ∈ new then v.map markedVertex else v) =
      g.slots.mapIdx fun k v => if k ∈ i :: new then v.map markedVertex else v := by
    refine Array.ext_getElem? fun k => ?_
    simp only [Array.getElem?_mapIdx, getElem?_slots_mark, Option.map_map]
    cases g.slots[k]? with
    | none => rfl
    | some v =>
      by_cases hki : k = i <;> by_cases hk : k ∈ new <;> cases v <;> simp [hki, hk, markedVertex]
  have hmarked : g.marked ++ [i] ++ new = g.marked ++ i :: new := List.append_assoc ..
  rw [withMarks, withMarks, hslots]
  simp only [mark, free_modify, places_modify, listeners_modify, volatiles_modify, cyclesStale_modify, hmarked]

theorem foldl_mark (g : Graph) (new : List Slot) : new.foldl mark g = g.withMarks new := by
  induction new generalizing g with
  | nil =>
    have hslots : g.slots.mapIdx (fun i v => if i ∈ ([] : List Slot) then v.map markedVertex else v) = g.slots := by
      refine Array.ext_getElem? fun k => ?_
      simp
    rw [withMarks, hslots, List.append_nil]
    rfl
  | cons i new ih => exact (ih (g.mark i)).trans (withMarks_mark g i new)

/-! ### A changed cell -/

/-- A change of a cell marks, in a graph whose dirty vertices are closed, exactly what can be reached from the vertex of
the cell or from one that listens to an area with the cell. The loops of all starts together come to an end after as
many rounds as there are starts and readers of newly marked vertices; each of the new marks is noted once, behind the
old ones; and nothing else in the graph is different. -/
theorem DirtyClosed.setDirty_spreads (h : g.DirtyClosed) (p : Position) :
    (∀ k, (g.setDirty p).isDirty k = true ↔
      g.isDirty k = true ∨ g.Live k ∧ ∃ i, g.StartsAt p i ∧ ReflTransGen g.Edge i k) ∧
    ∃ new : List Slot, new.Nodup ∧ (∀ k, k ∈ new ↔ (g.setDirty p).isDirty k = true ∧ ¬g.isDirty k = true) ∧
      Rounds g (g.starts p) (g.roundsFor (g.starts p) new) (g.setDirty p) ∧
      g.setDirty p = g.withMarks new := by
  rw [setDirty_eq_markAll]
  constructor
  · intro k
    rw [h.isDirty_markAll_iff]
    simp only [mem_starts]
  · obtain ⟨new, hnew, hnodup, hclean, hrounds⟩ := g.exists_rounds (g.starts p)
    have hresult : g.markAll (g.starts p) = g.withMarks new := hnew.trans (foldl_mark g new)
    refine ⟨new, hnodup, ?_, hrounds, hresult⟩
    intro k
    rw [hresult, isDirty_withMarks]
    constructor
    · intro hk
      obtain ⟨hlive, hclean⟩ := hclean k hk
      exact ⟨.inr ⟨hlive, hk⟩, hclean⟩
    · rintro ⟨hk | ⟨-, hk⟩, hclean⟩
      · exact absurd hk hclean
      · exact hk

/-- Two vertices on a cycle, the first one with an edge to itself, and two areas with the first cell. What depends on
the cycle is dirty in one place and clean in another. -/
def tangled : Graph where
  slots := #[some { position := ⟨0, 0⟩, inputs := [0, 1], dependents := [0, 1] },
    some { position := ⟨0, 1⟩, inputs := [0], dependents := [0, 2, 4] },
    some { position := ⟨0, 2⟩, inputs := [1], dependents := [3], dirty := true },
    some { position := ⟨0, 3⟩, inputs := [2], dirty := true },
    some { position := ⟨0, 4⟩, inputs := [1] }]
  places := Std.TreeMap.ofList
    [((⟨0, 0⟩ : Position), 0), (⟨0, 1⟩, 1), (⟨0, 2⟩, 2), (⟨0, 3⟩, 3), (⟨0, 4⟩, 4)]
  listeners := [(.ofPositions ⟨0, 0⟩ ⟨1, 0⟩, 0), (.ofPositions ⟨0, 0⟩ ⟨0, 1⟩, 1)]
  marked := [2, 3]

theorem setDirty_spreads_tangled : tangled.DirtyClosed ∧ tangled.setDirty ⟨0, 0⟩ = tangled.withMarks [0, 1, 4] ∧
    Rounds tangled [0, 0, 1] 8 (tangled.setDirty ⟨0, 0⟩) ∧ ∃ i, tangled.StartsAt ⟨0, 0⟩ i ∧
      ReflTransGen tangled.Edge i 4 := by
  have hclosed : tangled.DirtyClosed := by decide
  obtain ⟨hreached, new, -, -, hrounds, hresult⟩ := hclosed.setDirty_spreads ⟨0, 0⟩
  have hmarked : (tangled.setDirty ⟨0, 0⟩).marked = [2, 3] ++ [0, 1, 4] := by cbv
  have hclean : ¬tangled.isDirty 4 = true := by decide
  obtain rfl : new = [0, 1, 4] := by
    rw [hresult] at hmarked
    exact List.append_cancel_left hmarked
  have hdirty : (tangled.setDirty ⟨0, 0⟩).isDirty 4 = true := by
    rw [hresult]
    decide
  exact ⟨hclosed, hresult, hrounds, (((hreached 4).1 hdirty).resolve_left hclean).2⟩

end Spreadsheet.Graph
