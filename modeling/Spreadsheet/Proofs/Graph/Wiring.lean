import Spreadsheet.Proofs.Evaluation.Mentions
import Spreadsheet.Proofs.Graph.Sound

/-!
Wired graphs. In a wired graph every cell that a vertex is known to read, if it has a vertex, has an edge
to the reader, and exactly those listen to an area who read it. Replacing what a vertex reads keeps a
graph wired, also for vertices that are made later.
-/

namespace Spreadsheet.Graph

variable {g g' : Graph} {i j k l : Slot} {p : Position} {D : Slot → Dependencies}

/-- What the vertex in a slot is known to read. -/
def reads (g : Graph) (i : Slot) : Dependencies := ((g.vertex? i).map Vertex.dependencies).getD {}

/-- The edges and listeners of a graph are those that the given dependencies ask for, and perhaps more
edges. -/
structure WiredBy (D : Slot → Dependencies) (g : Graph) : Prop where
  edge : ∀ l p k, (D l).Mentions p → g.slot? p = some k → g.Edge k l
  cells : ∀ l, ∀ p ∈ (D l).cells, ∃ k, g.slot? p = some k
  listeners : ∀ a l, (a, l) ∈ g.listeners ↔ a ∈ (D l).areas
  dead : ∀ l, ¬g.Live l → D l = {}

/-- The edges and listeners of a graph are those that its vertices ask for. -/
def Wired (g : Graph) : Prop := WiredBy g.reads g

theorem reads_of_vertex? {v : Vertex} (hv : g.vertex? i = some v) : g.reads i = v.dependencies := by
  simp [reads, hv]

theorem reads_of_dead (h : ¬g.Live i) : g.reads i = {} := by
  unfold reads
  cases hv : g.vertex? i with
  | none => rfl
  | some v => exact absurd ⟨v, hv⟩ h

theorem reads_eq_core (g : Graph) (i : Slot) : g.reads i = ((g.core? i).map Vertex.dependencies).getD {} := by
  unfold reads core?
  cases g.vertex? i <;> rfl

namespace WiredBy

/-- Graphs with the same cells, the same listeners and no fewer edges are wired by the same. -/
theorem of_edges (h : WiredBy D g) (hslot : ∀ p, g'.slot? p = g.slot? p)
    (hedge : ∀ k l, g.Edge k l → g'.Edge k l) (hlisteners : g'.listeners = g.listeners)
    (hlive : ∀ l, g.Live l → g'.Live l) : WiredBy D g' where
  edge l p k hp hk := hedge k l (h.edge l p k hp (hslot p ▸ hk))
  cells l p hp := by
    rw [hslot]
    exact h.cells l p hp
  listeners a l := by rw [hlisteners, h.listeners]
  dead l hl := h.dead l fun hc => hl (hlive l hc)

theorem connect (h : WiredBy D g) (i j : Slot) : WiredBy D (g.connect i j) := by
  have hcore := sameCore_connect g i j
  exact h.of_edges hcore.slot? (fun k l he => edge_connect.2 (.inl he)) hcore.listeners fun l => hcore.live_iff.2

theorem connectFrom (h : WiredBy D g) (js : List Slot) (i : Slot) : WiredBy D (g.connectFrom js i) := by
  induction js generalizing g with
  | nil => exact h
  | cons j js ih => exact ih (h.connect j i)

theorem modify (h : WiredBy D g) {f : Vertex → Vertex} (hout : ∀ v, (f v).dependents = v.dependents) :
    WiredBy D (g.modify i f) :=
  h.of_edges (fun p => (sameFrame_modify g i f).slot? p) (fun _ _ he => (edge_modify hout).2 he)
    (listeners_modify g i f) fun _ hl => live_modify.2 hl

theorem marks (h : WiredBy D g) (hmarks : Marks g g') : WiredBy D g' :=
  h.of_edges hmarks.slot? (fun _ _ he => hmarks.edge_iff.2 he) hmarks.listeners fun _ hl => hmarks.live_iff.2 hl

theorem mem_listenersOf {a : Area} (ha : (a, l) ∈ g.listeners) (hp : a.contains p = true) :
    l ∈ g.listenersOf p :=
  List.mem_map.2 ⟨(a, l), List.mem_filter.2 ⟨ha, hp⟩, rfl⟩

/-- A new vertex is connected with all that mention its cell. -/
theorem ensure (h : WiredBy D g) (hwell : g.WellFormed) (p : Position) : WiredBy D (g.ensure p).2 := by
  have hext := hwell.extends_ensure 0 p
  cases hp : g.slot? p with
  | some i => rwa [ensure_of_slot? hp]
  | none =>
    have hslots (q : Position) : (g.ensure p).2.slot? q = if p = q then some (g.nextSlot p) else g.slot? q := by
      rw [ensure_of_none hp]
      exact ((sameCore_connectTo _ _ _).slot? q).trans (hwell.slot?_introduce p q)
    refine ⟨fun l q k hq hk => ?_, fun l q hq => ?_, fun a l => ?_, fun l hl => ?_⟩
    · rw [hslots] at hk
      by_cases hpq : p = q
      · subst hpq
        rw [if_pos rfl] at hk
        cases hk
        -- the cell has had no vertex, so only areas can mention it, and their readers listen
        rcases hq with hq | ⟨a, ha, hq⟩
        · obtain ⟨k, hk⟩ := h.cells l p hq
          rw [hp] at hk
          cases hk
        · have hlive : g.Live l := by
            by_contra hdead
            rw [h.dead l hdead] at ha
            cases ha
          rw [ensure_of_none hp, edge_connectTo]
          refine .inr ⟨⟨(hwell.live_introduce p).2 (.inr rfl), (hwell.live_introduce p).2 (.inl hlive)⟩, rfl, ?_⟩
          refine mem_listenersOf (a := a) ?_ hq
          rw [show (g.introduce p).listeners = g.listeners from (hwell.allocated p).listeners]
          exact (h.listeners a l).2 ha
      · rw [if_neg hpq] at hk
        exact hext.edge k l (h.edge l q k hq hk)
    · obtain ⟨k, hk⟩ := h.cells l q hq
      exact ⟨k, hext.slot q k hk⟩
    · rw [hwell.listeners_ensure, h.listeners]
    · exact h.dead l fun hc => hl (hext.live hc)

/-- A vertex whose inputs are cleared asks for nothing. -/
theorem clearInputs (h : WiredBy D g) (hwell : g.WellFormed) (i : Slot) :
    WiredBy (Function.update D i {}) (g.clearInputs i) := by
  by_cases hlive : g.Live i
  · refine ⟨fun l p k hp hk => ?_, fun l p hp => ?_, fun a l => ?_, fun l hl => ?_⟩
    · by_cases hl : l = i
      · subst hl
        rw [Function.update_self] at hp
        exact absurd hp Dependencies.not_mentions_empty
      · rw [Function.update_of_ne hl] at hp
        rw [(sameFrame_clearInputs g i).slot?] at hk
        exact (edge_clearInputs hwell.linked).2 ⟨h.edge l p k hp hk, hl⟩
    · rw [(sameFrame_clearInputs g i).slot?]
      by_cases hl : l = i
      · subst hl
        rw [Function.update_self] at hp
        cases hp
      · rw [Function.update_of_ne hl] at hp
        exact h.cells l p hp
    · rw [listeners_clearInputs hlive, List.mem_filter, bne_iff_ne, h.listeners]
      by_cases hl : l = i
      · subst hl
        simp
      · rw [Function.update_of_ne hl]
        exact and_iff_left hl
    · have hdead : ¬g.Live l := fun hc => hl (live_clearInputs.2 hc)
      have hne : l ≠ i := by
        rintro rfl
        exact hdead hlive
      rw [Function.update_of_ne hne, h.dead l hdead]
  · rwa [clearInputs_of_dead hlive, show Function.update D i {} = D from
      (Function.update_eq_self_iff).2 (h.dead i hlive).symm]

/-- Asking for one more cell. -/
theorem readCell (h : WiredBy D g) (hwell : g.WellFormed) (hlive : g.Live i) (p : Position) :
    WiredBy (Function.update D i { D i with cells := (D i).cells ++ [p] })
      ((g.ensure p).2.connect (g.ensure p).1 i) := by
  have hensure := h.ensure hwell p
  have hwell' := hwell.ensure p
  have hslot := hwell.slot?_ensure p
  have hlive' : (g.ensure p).2.Live i := (hwell.extends_ensure 0 p).live hlive
  have hcore := sameCore_connect (g.ensure p).2 (g.ensure p).1 i
  refine ⟨fun l q k hq hk => ?_, fun l q hq => ?_, fun a l => ?_, fun l hl => ?_⟩
  · rw [hcore.slot?] at hk
    rw [edge_connect]
    by_cases hl : l = i
    · subst hl
      rw [Function.update_self] at hq
      rcases hq with hq | hq
      · rcases List.mem_append.1 hq with hq | hq
        · exact .inl (hensure.edge l q k (.inl hq) hk)
        · rw [List.mem_singleton] at hq
          subst hq
          rw [hslot] at hk
          cases hk
          obtain ⟨v, hv, -⟩ := hwell'.vertex_of_slot? hslot
          exact .inr ⟨⟨⟨v, hv⟩, hlive'⟩, rfl, rfl⟩
      · exact .inl (hensure.edge l q k (.inr hq) hk)
    · rw [Function.update_of_ne hl] at hq
      exact .inl (hensure.edge l q k hq hk)
  · rw [hcore.slot?]
    by_cases hl : l = i
    · subst hl
      rw [Function.update_self] at hq
      rcases List.mem_append.1 hq with hq | hq
      · exact hensure.cells l q hq
      · rw [List.mem_singleton.1 hq]
        exact ⟨_, hslot⟩
    · rw [Function.update_of_ne hl] at hq
      exact hensure.cells l q hq
  · rw [hcore.listeners, hensure.listeners]
    by_cases hl : l = i
    · subst hl
      rw [Function.update_self]
    · rw [Function.update_of_ne hl]
  · have hdead : ¬(g.ensure p).2.Live l := fun hc => hl (hcore.live_iff.2 hc)
    have hne : l ≠ i := by
      rintro rfl
      exact hdead hlive'
    rw [Function.update_of_ne hne, hensure.dead l hdead]

/-- Asking for more cells. -/
theorem readCells (h : WiredBy D g) (hwell : g.WellFormed) (hlive : g.Live i) (ps : List Position) :
    WiredBy (Function.update D i { D i with cells := (D i).cells ++ ps }) (g.readCells i ps) := by
  induction ps generalizing g D with
  | nil =>
    rw [List.append_nil, Function.update_eq_self]
    exact h
  | cons p ps ih =>
    have hstep := h.readCell hwell hlive p
    have hlive' : ((g.ensure p).2.connect (g.ensure p).1 i).Live i :=
      (sameCore_connect _ _ _).live_iff.2 ((hwell.extends_ensure 0 p).live hlive)
    have hrest := ih hstep ((hwell.ensure p).connect _ i) hlive'
    rw [Function.update_idem, Function.update_self, List.append_assoc] at hrest
    exact hrest

theorem mem_slotsIn {a : Area} (hk : g.slot? p = some k) (hp : a.contains p = true) : k ∈ g.slotsIn a :=
  List.mem_map.2 ⟨(p, k), List.mem_filter.2 ⟨Std.TreeMap.mem_toList_iff_getElem?_eq_some.2 hk, hp⟩, rfl⟩

/-- Asking for one more area. -/
theorem readArea (h : WiredBy D g) (hwell : g.WellFormed) (hlive : g.Live i) (a : Area) :
    WiredBy (Function.update D i { D i with areas := (D i).areas ++ [a] }) (g.readArea i a) := by
  have hcore := sameCore_connectFrom g (g.slotsIn a) i
  have hconnect := h.connectFrom (g.slotsIn a) i
  refine ⟨fun l q k hq hk => ?_, fun l q hq => ?_, fun b l => ?_, fun l hl => ?_⟩
  · change (g.connectFrom (g.slotsIn a) i).Edge k l
    change (g.connectFrom (g.slotsIn a) i).slot? q = some k at hk
    by_cases hl : l = i
    · subst hl
      rw [Function.update_self] at hq
      rcases hq with hq | ⟨b, hb, hq⟩
      · exact hconnect.edge l q k (.inl hq) hk
      · rcases List.mem_append.1 hb with hb | hb
        · exact hconnect.edge l q k (.inr ⟨b, hb, hq⟩) hk
        · rw [List.mem_singleton] at hb
          subst hb
          rw [hcore.slot?] at hk
          obtain ⟨v, hv, -⟩ := hwell.vertex_of_slot? hk
          exact (edge_connectFrom _).2 (.inr ⟨⟨⟨v, hv⟩, hlive⟩, mem_slotsIn hk hq, rfl⟩)
    · rw [Function.update_of_ne hl] at hq
      exact hconnect.edge l q k hq hk
  · by_cases hl : l = i
    · subst hl
      rw [Function.update_self] at hq
      exact hconnect.cells l q hq
    · rw [Function.update_of_ne hl] at hq
      exact hconnect.cells l q hq
  · change (b, l) ∈ (g.connectFrom (g.slotsIn a) i).listeners ++ [(a, i)] ↔ _
    rw [List.mem_append, hconnect.listeners, List.mem_singleton, Prod.mk.injEq]
    by_cases hl : l = i
    · subst hl
      simp
    · rw [Function.update_of_ne hl]
      simp [hl]
  · have hdead : ¬g.Live l := fun hc => hl (hcore.live_iff.2 hc)
    have hne : l ≠ i := by
      rintro rfl
      exact hdead hlive
    rw [Function.update_of_ne hne, h.dead l hdead]

/-- Asking for more areas. -/
theorem readAreas (h : WiredBy D g) (hwell : g.WellFormed) (hlive : g.Live i) (as : List Area) :
    WiredBy (Function.update D i { D i with areas := (D i).areas ++ as }) (g.readAreas i as) := by
  induction as generalizing g D with
  | nil =>
    rw [List.append_nil, Function.update_eq_self]
    exact h
  | cons a as ih =>
    have hconnect := hwell.connectFrom (g.slotsIn a) i
    have hwell' : (g.readArea i a).WellFormed :=
      ⟨hconnect.place, hconnect.free, hconnect.free_nodup, hconnect.linked⟩
    have hrest := ih (h.readArea hwell hlive a) hwell' ((extends_readArea g i a).live hlive)
    rw [Function.update_idem, Function.update_self, List.append_assoc] at hrest
    exact hrest

/-- Replacing what a vertex asks for. -/
theorem reading (h : WiredBy D g) (hwell : g.WellFormed) (hlive : g.Live i) (d : Dependencies) :
    WiredBy (Function.update D i d) (g.reading i d) := by
  have hlive' : (g.clearInputs i).Live i := live_clearInputs.2 hlive
  have hcells := (h.clearInputs hwell i).readCells (hwell.clearInputs i) hlive' d.cells
  have hwell' := (hwell.clearInputs i).readCells i d.cells
  have hareas := hcells.readAreas hwell' (((hwell.clearInputs i).extends_readCells i d.cells).live hlive') d.areas
  simp only [Function.update_idem, Function.update_self, List.nil_append] at hareas
  exact hareas

end WiredBy

/-- New vertices read nothing, and old ones what they did. -/
theorem Extends.reads (h : Extends i g g') : g'.reads = g.reads := by
  funext k
  rw [reads_eq_core]
  by_cases hk : g.Live k
  · rw [h.core k hk, ← reads_eq_core]
  · rw [reads_of_dead hk]
    cases hc : g'.core? k with
    | none => rfl
    | some c =>
      obtain ⟨p, hp⟩ := h.fresh k hk (live_iff_core?.2 ⟨c, hc⟩)
      rw [hc] at hp
      cases hp
      rfl

/-- What vertices read after what one of them reads has been replaced. -/
theorem reads_reading (hwell : g.WellFormed) (hlive : g.Live i) (d : Dependencies) :
    ((g.reading i d).modify i (told d)).reads = Function.update g.reads i d := by
  have hext := hwell.extends_reading i d
  funext l
  by_cases hl : l = i
  · subst hl
    obtain ⟨v, hv⟩ := hext.live (live_clearInputs.2 hlive)
    rw [Function.update_self, reads, vertex?_modify_self, hv]
    rfl
  · rw [Function.update_of_ne hl, reads, vertex?_modify_of_ne _ _ (Ne.symm hl), ← reads, hext.reads, reads_eq_core,
      core?_clearInputs, if_neg (Ne.symm hl), ← reads_eq_core]

theorem reads_marks (hmarks : Marks g g') : g'.reads = g.reads := by
  funext l
  unfold reads
  rcases hmarks.vertex l with hsame | ⟨v, hv, hmark⟩
  · rw [hsame]
  · rw [hv, hmark]
    rfl

namespace Wired

theorem marks (h : g.Wired) (hmarks : Marks g g') : g'.Wired := by
  rw [Wired, reads_marks hmarks]
  exact WiredBy.marks h hmarks

theorem rewire (h : g.Wired) (hwell : g.WellFormed) (hlive : g.Live i) (d : Dependencies) :
    (g.rewire i d).Wired := by
  have hreading := (WiredBy.reading h hwell hlive d).modify (i := i) (f := told d) fun _ => rfl
  rw [rewire_eq]
  refine Wired.marks ?_ (marks_markAll _ [i])
  rwa [Wired, reads_reading hwell hlive]

end Wired

/-! ### Edges that are asked for -/

/-- All edges to a vertex come from cells that the given dependencies mention. -/
def Sourced (g : Graph) (i : Slot) (d : Dependencies) : Prop :=
  ∀ k, g.Edge k i → ∃ p, g.slot? p = some k ∧ d.Mentions p

namespace Sourced

variable {d : Dependencies}

theorem readCell (h : g.Sourced i d) (hwell : g.WellFormed) (hdeaf : ∀ a, (a, i) ∉ g.listeners)
    (hp : d.Mentions p) : ((g.ensure p).2.connect (g.ensure p).1 i).Sourced i d := by
  have hcore := sameCore_connect (g.ensure p).2 (g.ensure p).1 i
  intro k hk
  simp only [hcore.slot?]
  rcases edge_connect.1 hk with he | ⟨-, rfl, -⟩
  · -- a new vertex is connected with listeners only
    have hold : g.Edge k i := by
      cases hp : g.slot? p with
      | some j => rwa [ensure_of_slot? hp] at he
      | none =>
        rw [ensure_of_none hp, edge_connectTo] at he
        rcases he with he | ⟨-, -, hlisten⟩
        · exact (hwell.edge_introduce p).1 he
        · obtain ⟨⟨a, _⟩, hmem, rfl⟩ := List.mem_map.1 hlisten
          have hmem := (List.mem_filter.1 hmem).1
          rw [show (g.introduce p).listeners = g.listeners from (hwell.allocated p).listeners] at hmem
          exact absurd hmem (hdeaf a)
    obtain ⟨q, hq, hm⟩ := h k hold
    exact ⟨q, (hwell.extends_ensure 0 p).slot q k hq, hm⟩
  · exact ⟨p, hwell.slot?_ensure p, hp⟩

theorem readCells (h : g.Sourced i d) (hwell : g.WellFormed) (hdeaf : ∀ a, (a, i) ∉ g.listeners)
    {ps : List Position} (hps : ∀ p ∈ ps, d.Mentions p) : (g.readCells i ps).Sourced i d := by
  induction ps generalizing g with
  | nil => exact h
  | cons p ps ih =>
    refine ih (h.readCell hwell hdeaf (hps p List.mem_cons_self)) ((hwell.ensure p).connect _ i) (fun a ha => ?_)
      fun q hq => hps q (List.mem_cons_of_mem p hq)
    rw [(sameCore_connect _ _ i).listeners, hwell.listeners_ensure] at ha
    exact hdeaf a ha

theorem readArea (h : g.Sourced i d) {a : Area} (ha : ∀ p, a.contains p = true → d.Mentions p) :
    (g.readArea i a).Sourced i d := by
  have hcore := sameCore_connectFrom g (g.slotsIn a) i
  intro k hk
  change ∃ p, (g.connectFrom (g.slotsIn a) i).slot? p = some k ∧ d.Mentions p
  simp only [hcore.slot?]
  rcases (edge_connectFrom _).1 hk with he | ⟨-, hmem, -⟩
  · exact h k he
  · obtain ⟨⟨p, _⟩, hp, rfl⟩ := List.mem_map.1 hmem
    obtain ⟨hp, hcontains⟩ := List.mem_filter.1 hp
    exact ⟨p, Std.TreeMap.mem_toList_iff_getElem?_eq_some.1 hp, ha p hcontains⟩

theorem readAreas (h : g.Sourced i d) {as : List Area}
    (has : ∀ a ∈ as, ∀ p, a.contains p = true → d.Mentions p) : (g.readAreas i as).Sourced i d := by
  induction as generalizing g with
  | nil => exact h
  | cons a as ih => exact ih (h.readArea (has a List.mem_cons_self)) fun b hb => has b (List.mem_cons_of_mem a hb)

end Sourced

/-- A vertex that has been made to read cells and areas has edges from these only. -/
theorem WellFormed.sourced_reading (h : g.WellFormed) (hlive : g.Live i) (d : Dependencies) :
    (g.reading i d).Sourced i d := by
  have hclear : (g.clearInputs i).Sourced i d := fun k hk => absurd rfl ((edge_clearInputs h.linked).1 hk).2
  have hdeaf (a : Area) : (a, i) ∉ (g.clearInputs i).listeners := by
    rw [listeners_clearInputs hlive]
    simp
  exact (hclear.readCells (h.clearInputs i) hdeaf fun p hp => .inl hp).readAreas fun a ha p hp => .inr ⟨a, ha, hp⟩

end Spreadsheet.Graph
