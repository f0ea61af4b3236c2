import Spreadsheet.Proofs.Graph.WellFormed

/-!
Dirty marks. Marking changes nothing but marks, notes every vertex that it marks, and reaches all that
depends on what it started from.
-/

namespace Spreadsheet.Graph

variable {g g' : Graph} {i j k l : Slot} {p : Position}

theorem isDirty_iff : g.isDirty i = true ↔ ∃ v, g.vertex? i = some v ∧ v.dirty = true := by
  unfold isDirty
  cases g.vertex? i <;> simp

theorem isDirty_iff_of_vertex? {v : Vertex} (hv : g.vertex? i = some v) :
    g.isDirty i = true ↔ v.dirty = true := by
  simp [isDirty, hv]

theorem live_of_isDirty (h : g.isDirty i = true) : g.Live i := by
  obtain ⟨v, hv, -⟩ := isDirty_iff.1 h
  exact ⟨v, hv⟩

/-- Whether a vertex is dirty does not depend on its edges. -/
theorem isDirty_eq_core (g : Graph) (i : Slot) : g.isDirty i = (g.core? i).any Vertex.dirty := by
  unfold isDirty core?
  cases g.vertex? i <;> rfl

theorem SameCore.isDirty (h : SameCore g g') (k : Slot) : g'.isDirty k = g.isDirty k := by
  rw [isDirty_eq_core, isDirty_eq_core, h.core]

theorem isDirty_clearInputs (g : Graph) (i k : Slot) : (g.clearInputs i).isDirty k = g.isDirty k := by
  rw [isDirty_eq_core, isDirty_eq_core, core?_clearInputs]
  split
  · cases g.core? k <;> rfl
  · rfl

theorem isDirty_modify {f : Vertex → Vertex} (hf : ∀ v, (f v).dirty = v.dirty) (k : Slot) :
    (g.modify i f).isDirty k = g.isDirty k := by
  unfold isDirty
  rw [vertex?_modify]
  split
  · cases g.vertex? k <;> simp [hf]
  · rfl

/-- Every dirty vertex is noted for the next pass. -/
def Noted (g : Graph) : Prop := ∀ i, g.isDirty i = true → i ∈ g.marked

/-- What reads a dirty vertex is dirty. -/
def Closed (g : Graph) : Prop := ∀ i j, g.isDirty i = true → g.Edge i j → g.isDirty j = true

/-- The second graph is the first one with more vertices marked. -/
structure Marks (g g' : Graph) : Prop where
  vertex : ∀ k, g'.vertex? k = g.vertex? k ∨
    ∃ v, g.vertex? k = some v ∧ g'.vertex? k = some { v with dirty := true }
  size : g'.slots.size = g.slots.size
  free : g'.free = g.free
  places : g'.places = g.places
  listeners : g'.listeners = g.listeners
  volatiles : g'.volatiles = g.volatiles
  cyclesStale : g'.cyclesStale = g.cyclesStale
  marked : ∀ k, k ∈ g'.marked ↔ k ∈ g.marked ∨ g'.isDirty k = true ∧ ¬g.isDirty k = true

namespace Marks

theorem refl (g : Graph) : Marks g g where
  vertex _ := .inl rfl
  size := rfl
  free := rfl
  places := rfl
  listeners := rfl
  volatiles := rfl
  cyclesStale := rfl
  marked k := by tauto

theorem isDirty (h : Marks g g') (hk : g.isDirty k = true) : g'.isDirty k = true := by
  obtain ⟨v, hv, hd⟩ := isDirty_iff.1 hk
  rcases h.vertex k with hsame | ⟨w, -, hw⟩
  · exact isDirty_iff.2 ⟨v, hsame.trans hv, hd⟩
  · exact isDirty_iff.2 ⟨_, hw, rfl⟩

theorem trans {g₁ g₂ g₃ : Graph} (h : Marks g₁ g₂) (h' : Marks g₂ g₃) : Marks g₁ g₃ where
  vertex k := by
    rcases h.vertex k with hsame | ⟨v, hv, hmark⟩
    · simpa only [hsame] using h'.vertex k
    · refine .inr ⟨v, hv, ?_⟩
      rcases h'.vertex k with hsame | ⟨w, hw, hmark'⟩
      · rw [hsame, hmark]
      · rw [hmark] at hw
        cases hw
        exact hmark'
  size := h'.size.trans h.size
  free := h'.free.trans h.free
  places := h'.places.trans h.places
  listeners := h'.listeners.trans h.listeners
  volatiles := h'.volatiles.trans h.volatiles
  cyclesStale := h'.cyclesStale.trans h.cyclesStale
  marked k := by
    rw [h'.marked, h.marked]
    have hmono : g₁.isDirty k = true → g₂.isDirty k = true := h.isDirty
    have hmono' : g₂.isDirty k = true → g₃.isDirty k = true := h'.isDirty
    tauto

theorem edge_iff (h : Marks g g') : g'.Edge k l ↔ g.Edge k l := by
  unfold Edge
  rcases h.vertex k with hsame | ⟨v, hv, hmark⟩
  · rw [hsame]
  · rw [hv, hmark]
    simp

theorem input_iff (h : Marks g g') : g'.Input k l ↔ g.Input k l := by
  unfold Input
  rcases h.vertex l with hsame | ⟨v, hv, hmark⟩
  · rw [hsame]
  · rw [hv, hmark]
    simp

theorem live_iff (h : Marks g g') : g'.Live k ↔ g.Live k := by
  unfold Live
  rcases h.vertex k with hsame | ⟨v, hv, hmark⟩
  · rw [hsame]
  · rw [hv, hmark]
    simp

theorem slot? (h : Marks g g') (p : Position) : g'.slot? p = g.slot? p := by
  rw [Graph.slot?, Graph.slot?, h.places]

theorem linked (h : Marks g g') (hg : g.Linked) : g'.Linked := fun i j => by
  rw [h.edge_iff, h.input_iff, hg]

theorem wellFormed (h : Marks g g') (hg : g.WellFormed) : g'.WellFormed where
  place p i := by
    rw [h.slot?, hg.place, core?, core?]
    rcases h.vertex i with hsame | ⟨v, hv, hmark⟩
    · rw [hsame]
    · rw [hv, hmark]
      simp [Vertex.core]
  free i := by rw [h.free, h.size, h.live_iff, hg.free]
  free_nodup := h.free ▸ hg.free_nodup
  linked := h.linked hg.linked

theorem noted (h : Marks g g') (hg : g.Noted) : g'.Noted := fun i hi => by
  rw [h.marked]
  by_cases hd : g.isDirty i = true
  · exact .inl (hg i hd)
  · exact .inr ⟨hi, hd⟩

end Marks

theorem isDirty_mark {v : Vertex} (hv : g.vertex? i = some v) :
    (g.mark i).isDirty k = true ↔ g.isDirty k = true ∨ k = i := by
  change ((g.modify i fun v => { v with dirty := true }).vertex? k).any Vertex.dirty = true ↔ _
  rw [vertex?_modify]
  by_cases hk : i = k
  · subst hk
    simp [hv]
  · simp [hk, Ne.symm hk, isDirty]

theorem marks_mark {v : Vertex} (hv : g.vertex? i = some v) (hd : ¬v.dirty = true) :
    Marks g (g.mark i) where
  vertex k := by
    change (g.modify i fun v => { v with dirty := true }).vertex? k = _ ∨
      ∃ v, _ ∧ (g.modify i fun v => { v with dirty := true }).vertex? k = _
    rw [vertex?_modify]
    by_cases hk : i = k
    · subst hk
      exact .inr ⟨v, hv, by rw [if_pos rfl, hv, Option.map_some]⟩
    · exact .inl (if_neg hk)
  size := size_modify ..
  free := free_modify ..
  places := places_modify ..
  listeners := listeners_modify ..
  volatiles := volatiles_modify ..
  cyclesStale := cyclesStale_modify ..
  marked k := by
    rw [isDirty_mark hv]
    change k ∈ g.marked ++ [i] ↔ _
    have hclean : k = i → ¬g.isDirty k = true := by
      rintro rfl
      rwa [isDirty_iff_of_vertex? hv]
    rw [List.mem_append, List.mem_singleton]
    tauto

theorem markAll_vacant (hv : g.vertex? i = none) (rest : List Slot) :
    g.markAll (i :: rest) = g.markAll rest := by
  rw [markAll]
  split
  · rfl
  · rename_i w hw
    cases hv.symm.trans hw

theorem markAll_dirty {v : Vertex} (hv : g.vertex? i = some v) (hd : v.dirty = true) (rest : List Slot) :
    g.markAll (i :: rest) = g.markAll rest := by
  rw [markAll]
  split
  · rfl
  · rename_i w hw
    cases hv.symm.trans hw
    rw [dif_pos hd]

theorem markAll_clean {v : Vertex} (hv : g.vertex? i = some v) (hd : ¬v.dirty = true) (rest : List Slot) :
    g.markAll (i :: rest) = (g.mark i).markAll (v.dependents.reverse ++ rest) := by
  rw [markAll]
  split
  · rename_i hnone
    cases hv.symm.trans hnone
  · rename_i w hw
    cases hv.symm.trans hw
    rw [dif_neg hd]

theorem marks_markAll (g : Graph) (stack : List Slot) : Marks g (g.markAll stack) := by
  fun_induction markAll g stack with
  | case1 => exact .refl _
  | case2 g i rest hv ih => exact ih
  | case3 g i rest v hv hd ih => exact ih
  | case4 g i rest v hv hd hdec ih => exact (marks_mark hv hd).trans ih

/-- All vertices on the stack are marked. -/
theorem isDirty_markAll {stack : List Slot} (hmem : k ∈ stack) (hk : g.Live k) :
    (g.markAll stack).isDirty k = true := by
  fun_induction markAll g stack with
  | case1 => cases hmem
  | case2 g i rest hv ih =>
    rcases List.mem_cons.1 hmem with rfl | hmem
    · obtain ⟨v, hv'⟩ := hk
      rw [hv] at hv'
      cases hv'
    · exact ih hmem hk
  | case3 g i rest v hv hd ih =>
    rcases List.mem_cons.1 hmem with rfl | hmem
    · exact (marks_markAll g rest).isDirty ((isDirty_iff_of_vertex? hv).2 hd)
    · exact ih hmem hk
  | case4 g i rest v hv hd hdec ih =>
    have hmarks := marks_mark hv hd
    rcases List.mem_cons.1 hmem with rfl | hmem
    · exact (marks_markAll _ _).isDirty ((isDirty_mark hv).2 (.inr rfl))
    · exact ih (List.mem_append_right _ hmem) (hmarks.live_iff.2 hk)

/-- If all that reads dirty vertices is dirty or on the stack, with some exceptions, then after marking it
is dirty, with the same exceptions. Slots without a vertex cannot be marked, so edges to them are among
the exceptions. -/
theorem closed_markAll {stack : List Slot} {exempt : Slot → Slot → Prop}
    (hdead : ∀ k l, g.Edge k l → ¬g.Live l → exempt k l)
    (h : ∀ k l, g.isDirty k = true → g.Edge k l → g.isDirty l = true ∨ l ∈ stack ∨ exempt k l)
    (hk : (g.markAll stack).isDirty k = true) (hkl : g.Edge k l) :
    (g.markAll stack).isDirty l = true ∨ exempt k l := by
  fun_induction markAll g stack with
  | case1 g => simpa using h k l hk hkl
  | case2 g i rest hv ih =>
    refine ih hdead (fun k l hk hkl => ?_) hk hkl
    rcases h k l hk hkl with hl | hl | hl
    · exact .inl hl
    · rcases List.mem_cons.1 hl with rfl | hl
      · exact .inr (.inr (hdead k l hkl (by simp [Live, hv])))
      · exact .inr (.inl hl)
    · exact .inr (.inr hl)
  | case3 g i rest v hv hd ih =>
    refine ih hdead (fun k l hk hkl => ?_) hk hkl
    rcases h k l hk hkl with hl | hl | hl
    · exact .inl hl
    · rcases List.mem_cons.1 hl with rfl | hl
      · exact .inl ((isDirty_iff_of_vertex? hv).2 hd)
      · exact .inr (.inl hl)
    · exact .inr (.inr hl)
  | case4 g i rest v hv hd hdec ih =>
    have hmarks := marks_mark hv hd
    refine ih (fun k l hkl hl => hdead k l (hmarks.edge_iff.1 hkl) (mt hmarks.live_iff.2 hl))
      (fun k l hk hkl => ?_) hk (hmarks.edge_iff.2 hkl)
    rw [hmarks.edge_iff] at hkl
    rw [List.mem_append, List.mem_reverse]
    rcases (isDirty_mark hv).1 hk with hk | rfl
    · rcases h k l hk hkl with hl | hl | hl
      · exact .inl (hmarks.isDirty hl)
      · rcases List.mem_cons.1 hl with rfl | hl
        · exact .inl ((isDirty_mark hv).2 (.inr rfl))
        · exact .inr (.inl (.inr hl))
      · exact .inr (.inr hl)
    · exact .inr (.inl (.inl ((edge_iff_of_vertex? hv).1 hkl)))

/-- Where both ends of edges know of them, no edge leads to a slot without a vertex. -/
theorem Linked.not_dead (h : g.Linked) {exempt : Slot → Slot → Prop} (k l : Slot) (hkl : g.Edge k l)
    (hl : ¬g.Live l) : exempt k l :=
  absurd (h.edge_live hkl).2 hl

/-- Marking many vertices and all that depends on them. -/
def markEach (g : Graph) (is : List Slot) : Graph := is.foldl markFrom g

theorem marks_markEach (g : Graph) (is : List Slot) : Marks g (g.markEach is) := by
  induction is generalizing g with
  | nil => exact .refl g
  | cons i is ih => exact (marks_markAll g [i]).trans (ih _)

theorem isDirty_markEach {is : List Slot} (hmem : k ∈ is) (hk : g.Live k) :
    (g.markEach is).isDirty k = true := by
  induction is generalizing g with
  | nil => cases hmem
  | cons i is ih =>
    have hmarks := marks_markAll g [i]
    rcases List.mem_cons.1 hmem with rfl | hmem
    · exact (marks_markEach _ is).isDirty (isDirty_markAll List.mem_cons_self hk)
    · exact ih hmem (hmarks.live_iff.2 hk)

/-- Marking keeps the graph closed. -/
theorem Closed.markEach (h : g.Closed) (hlinked : g.Linked) (is : List Slot) :
    (g.markEach is).Closed := by
  induction is generalizing g with
  | nil => exact h
  | cons i is ih =>
    have hmarks := marks_markAll g [i]
    refine ih (fun k l hk hkl => ?_) (hmarks.linked hlinked)
    have hall (k l : Slot) (hk : g.isDirty k = true) (hkl : g.Edge k l) :
        g.isDirty l = true ∨ l ∈ [i] ∨ (fun _ _ => False : Slot → Slot → Prop) k l := .inl (h k l hk hkl)
    exact (closed_markAll hlinked.not_dead hall hk (hmarks.edge_iff.1 hkl)).resolve_right id

/-- If all that reads dirty vertices is dirty or among some vertices, then marking these closes the graph. -/
theorem closed_markEach {is : List Slot} (hlinked : g.Linked)
    (h : ∀ k l, g.isDirty k = true → g.Edge k l → g.isDirty l = true ∨ l ∈ is) : (g.markEach is).Closed := by
  induction is generalizing g with
  | nil => exact fun k l hk hkl => (h k l hk hkl).resolve_right List.not_mem_nil
  | cons i is ih =>
    have hmarks := marks_markAll g [i]
    refine ih (hmarks.linked hlinked) fun k l hk hkl => ?_
    have hall (k l : Slot) (hk : g.isDirty k = true) (hkl : g.Edge k l) :
        g.isDirty l = true ∨ l ∈ [i] ∨ (fun _ l => l ∈ is : Slot → Slot → Prop) k l := by
      rw [List.mem_singleton]
      exact (h k l hk hkl).imp_right List.mem_cons.1
    exact closed_markAll hlinked.not_dead hall hk (hmarks.edge_iff.1 hkl)

theorem setDirty_eq (g : Graph) (p : Position) :
    g.setDirty p = (g.markEach (g.slot? p).toList).markEach (g.listenersOf p) := by
  unfold setDirty
  cases g.slot? p with
  | none => rfl
  | some i =>
    simp only [Option.toList_some, markEach, List.foldl_cons, List.foldl_nil]
    rw [show (g.markFrom i).listenersOf p = g.listenersOf p from by
      rw [listenersOf, listenersOf, markFrom, (marks_markAll g [i]).listeners]]

theorem marks_setDirty (g : Graph) (p : Position) : Marks g (g.setDirty p) := by
  rw [setDirty_eq]
  exact (marks_markEach g _).trans (marks_markEach _ _)

theorem Closed.setDirty (h : g.Closed) (hlinked : g.Linked) (p : Position) :
    (g.setDirty p).Closed := by
  rw [setDirty_eq]
  exact (h.markEach hlinked _).markEach ((marks_markEach g _).linked hlinked) _

/-- The vertex of a changed cell and those that listen to it are marked. -/
theorem isDirty_setDirty (hk : g.Live k) (h : g.slot? p = some k ∨ k ∈ g.listenersOf p) :
    (g.setDirty p).isDirty k = true := by
  rw [setDirty_eq]
  rcases h with h | h
  · refine (marks_markEach _ _).isDirty (isDirty_markEach ?_ hk)
    simp [h]
  · exact isDirty_markEach h ((marks_markEach g _).live_iff.2 hk)

theorem marks_markVolatile (g : Graph) : Marks { g with volatiles := [] } g.markVolatile :=
  marks_markEach _ _

end Spreadsheet.Graph
