import Mathlib.Logic.Relation
import Spreadsheet.Graph.Cycle
import Spreadsheet.Proofs.Graph.Edges

/-!
Cycles. The search for a way back to a vertex finds one exactly if there is one, and what is kept about a
vertex holds as long as edges do not change.
-/

namespace Spreadsheet.Graph

open Relation

variable {g g' : Graph} {i j k l : Slot}

/-- A vertex is on a cycle when a path of one or more edges leads from it back to it. -/
def OnCycle (g : Graph) (i : Slot) : Prop := TransGen g.Edge i i

theorem mem_dependents_iff : j ∈ g.dependents i ↔ g.Edge i j := by
  unfold dependents Edge
  cases g.vertex? i <;> simp

/-- Whether a search has passed a slot; slots outside of the graph count as passed. -/
def Passed (unseen : Array Bool) (k : Slot) : Prop := unseen[k]? ≠ some true

theorem passed_set {unseen : Array Bool} (h : i < unseen.size) :
    Passed (unseen.set i false h) k ↔ Passed unseen k ∨ k = i := by
  unfold Passed
  rw [Array.getElem?_set]
  by_cases hk : i = k
  · simp [hk]
  · simp [hk, Ne.symm hk]

/-- What the search answers leads to the goal from somewhere on the stack. -/
theorem path_of_reaches {goal : Slot} {unseen : Array Bool} {stack : List Slot}
    (h : g.reaches goal unseen stack = true) : ∃ s ∈ stack, ReflTransGen g.Edge s goal := by
  fun_induction reaches g goal unseen stack with
  | case1 => cases h
  | case2 => exact ⟨_, List.mem_cons_self, .refl⟩
  | case3 unseen i rest hne hlt hi hdec ih =>
    obtain ⟨s, hs, hpath⟩ := ih h
    rcases List.mem_append.1 hs with hs | hs
    · exact ⟨i, List.mem_cons_self, .head (mem_dependents_iff.1 hs) hpath⟩
    · exact ⟨s, List.mem_cons_of_mem _ hs, hpath⟩
  | case4 unseen i rest hne hlt hi ih =>
    obtain ⟨s, hs, hpath⟩ := ih h
    exact ⟨s, List.mem_cons_of_mem _ hs, hpath⟩
  | case5 unseen i rest hne hlt ih =>
    obtain ⟨s, hs, hpath⟩ := ih h
    exact ⟨s, List.mem_cons_of_mem _ hs, hpath⟩

/-- A slot that has been passed may be left out of the stack. -/
theorem closed_of_passed {goal : Slot} {unseen : Array Bool} {rest : List Slot}
    (hpassed : Passed unseen i)
    (hclosed : ∀ k l, Passed unseen k → g.Edge k l → Passed unseen l ∨ l ∈ i :: rest)
    (h : (∀ k l, Passed unseen k → g.Edge k l → Passed unseen l ∨ l ∈ rest) →
      ∃ closed : Slot → Prop, (∀ k l, closed k → g.Edge k l → closed l) ∧
        (∀ k, Passed unseen k → closed k) ∧ (∀ s ∈ rest, closed s) ∧ ¬closed goal) :
    ∃ closed : Slot → Prop, (∀ k l, closed k → g.Edge k l → closed l) ∧
      (∀ k, Passed unseen k → closed k) ∧ (∀ s ∈ i :: rest, closed s) ∧ ¬closed goal := by
  have hclosed' (k l : Slot) (hk : Passed unseen k) (hkl : g.Edge k l) :
      Passed unseen l ∨ l ∈ rest := by
    rcases hclosed k l hk hkl with hl | hl
    · exact .inl hl
    · rcases List.mem_cons.1 hl with rfl | hl
      · exact .inl hpassed
      · exact .inr hl
  obtain ⟨closed, hstep, hall, hrest, hout⟩ := h hclosed'
  refine ⟨closed, hstep, hall, fun s hs => ?_, hout⟩
  rcases List.mem_cons.1 hs with rfl | hs
  · exact hall s hpassed
  · exact hrest s hs

/-- A search that fails shows a set of slots which no edge leaves, with all that has been passed and is
on the stack but without the goal. -/
theorem closed_of_not_reaches {goal : Slot} {unseen : Array Bool} {stack : List Slot}
    (hgoal : ¬Passed unseen goal)
    (hclosed : ∀ k l, Passed unseen k → g.Edge k l → Passed unseen l ∨ l ∈ stack)
    (h : g.reaches goal unseen stack = false) :
    ∃ closed : Slot → Prop, (∀ k l, closed k → g.Edge k l → closed l) ∧
      (∀ k, Passed unseen k → closed k) ∧ (∀ s ∈ stack, closed s) ∧ ¬closed goal := by
  fun_induction reaches g goal unseen stack with
  | case1 unseen =>
    refine ⟨Passed unseen, fun k l hk hkl => ?_, fun _ hk => hk, by simp, hgoal⟩
    simpa using hclosed k l hk hkl
  | case2 => cases h
  | case3 unseen i rest hne hlt hi hdec ih =>
    have hgoal' : ¬Passed (unseen.set i false hlt) goal := by
      rw [passed_set]
      rintro (hc | hc)
      · exact hgoal hc
      · exact hne hc.symm
    have hclosed' (k l : Slot) (hk : Passed (unseen.set i false hlt) k) (hkl : g.Edge k l) :
        Passed (unseen.set i false hlt) l ∨ l ∈ g.dependents i ++ rest := by
      rw [passed_set] at hk ⊢
      rw [List.mem_append, mem_dependents_iff]
      rcases hk with hk | rfl
      · rcases hclosed k l hk hkl with hl | hl
        · exact .inl (.inl hl)
        · rcases List.mem_cons.1 hl with rfl | hl
          · exact .inl (.inr rfl)
          · exact .inr (.inr hl)
      · exact .inr (.inl hkl)
    obtain ⟨closed, hstep, hpassed, hstack, hout⟩ := ih hgoal' hclosed' h
    refine ⟨closed, hstep, fun k hk => hpassed k (passed_set hlt |>.2 (.inl hk)), fun s hs => ?_, hout⟩
    rcases List.mem_cons.1 hs with rfl | hs
    · exact hpassed s (passed_set hlt |>.2 (.inr rfl))
    · exact hstack s (List.mem_append_right _ hs)
  | case4 unseen i rest hne hlt hi ih =>
    have hpassed : Passed unseen i := by simpa [Passed, hlt] using hi
    exact closed_of_passed hpassed hclosed fun hclosed' => ih hgoal hclosed' h
  | case5 unseen i rest hne hlt ih =>
    have hpassed : Passed unseen i := by simp [Passed, hlt]
    exact closed_of_passed hpassed hclosed fun hclosed' => ih hgoal hclosed' h

/-- The search for a way back answers whether the vertex is on a cycle. -/
theorem isOnCycle_iff : g.isOnCycle i = true ↔ g.OnCycle i := by
  constructor
  · intro h
    obtain ⟨s, hs, hpath⟩ := path_of_reaches h
    exact TransGen.head' (mem_dependents_iff.1 hs) hpath
  · intro hcycle
    by_contra hnot
    obtain ⟨s, hs, hpath⟩ := TransGen.head'_iff.1 hcycle
    have hlt : i < g.slots.size := by
      obtain ⟨v, hv⟩ := hs.live_source
      exact lt_size_of_vertex? hv
    have hgoal : ¬Passed (Array.replicate g.slots.size true) i := by simp [Passed, hlt]
    have hclosed (k l : Slot) (hk : Passed (Array.replicate g.slots.size true) k) (hkl : g.Edge k l) :
        Passed (Array.replicate g.slots.size true) l ∨ l ∈ g.dependents i := by
      obtain ⟨v, hv⟩ := hkl.live_source
      have := lt_size_of_vertex? hv
      simp [Passed, this] at hk
    obtain ⟨closed, hstep, -, hstack, hout⟩ :=
      closed_of_not_reaches hgoal hclosed (Bool.not_eq_true _ ▸ hnot)
    have hend (k : Slot) (hk : ReflTransGen g.Edge s k) : closed k := by
      induction hk with
      | refl => exact hstack s (mem_dependents_iff.2 hs)
      | tail _ hlast ih => exact hstep _ _ ih hlast
    exact hout (hend i hpath)

/-! ### What is kept about cycles -/

/-- What is kept about the vertices of a graph whose edges have not changed since is right. -/
def CyclesKnown (g : Graph) : Prop :=
  g.cyclesStale = false →
    ∀ i v b, g.vertex? i = some v → v.onCycle = some b → (b = true ↔ g.OnCycle i)

end Spreadsheet.Graph
