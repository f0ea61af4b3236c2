import Spreadsheet.Proofs.Graph.Wiring

/-!
Graphs cell by cell. Which vertex a cell has and which cells it reads can be told without slots, which
are taken again by other vertices. What the changes of a graph come to is told here in this way.
-/

namespace Spreadsheet

/-- What a vertex is, apart from what it is connected with and what it came to last. -/
structure Profile where
  /-- What is calculated. -/
  content : Vertex.Content := .value
  /-- What the formula reads. -/
  dependencies : Dependencies := {}
  /-- Whether the result is out of date. -/
  dirty : Bool := false
  /-- How often the dependencies have been replaced in the current pass. -/
  rebuilds : Nat := 0

/-- What a vertex is. -/
def Vertex.profile (v : Vertex) : Profile := ⟨v.content, v.dependencies, v.dirty, v.rebuilds⟩

namespace Graph

open Relation

variable {g g' : Graph} {i j k l : Slot} {p q x y : Position} {f : Profile} {v : Vertex}

/-- What the vertex in a slot is. -/
def profile? (g : Graph) (i : Slot) : Option Profile := (g.vertex? i).map Vertex.profile

/-- What the vertex of a cell is. -/
def profileAt? (g : Graph) (p : Position) : Option Profile := (g.slot? p).bind g.profile?

/-- The vertex of the second cell reads that of the first one. -/
def Arrow (g : Graph) (p q : Position) : Prop :=
  ∃ i j, g.slot? p = some i ∧ g.slot? q = some j ∧ g.Edge i j

/-- Whether the vertex of a cell is dirty. -/
def DirtyAt (g : Graph) (p : Position) : Prop := ∃ f, g.profileAt? p = some f ∧ f.dirty = true

theorem profile?_eq_core (g : Graph) (i : Slot) : g.profile? i = (g.core? i).map Vertex.profile := by
  unfold profile? core?
  cases g.vertex? i <;> rfl

theorem profile?_of_vertex? (hv : g.vertex? i = some v) : g.profile? i = some v.profile := by
  rw [profile?, hv, Option.map_some]

theorem profileAt?_of_slot? (hp : g.slot? p = some i) : g.profileAt? p = g.profile? i := by
  rw [profileAt?, hp, Option.bind_some]

theorem profileAt?_of_none (hp : g.slot? p = none) : g.profileAt? p = none := by
  rw [profileAt?, hp, Option.bind_none]

theorem arrow_iff (hp : g.slot? p = some i) (hq : g.slot? q = some j) : g.Arrow p q ↔ g.Edge i j := by
  constructor
  · rintro ⟨i', j', hi, hj, he⟩
    rw [hp] at hi
    rw [hq] at hj
    cases hi
    cases hj
    exact he
  · exact fun he => ⟨i, j, hp, hq, he⟩

/-- Arrows are the same in graphs with the same cells and edges. -/
theorem arrow_congr (hslot : ∀ p, g'.slot? p = g.slot? p) (hedge : ∀ k l, g'.Edge k l ↔ g.Edge k l) :
    g'.Arrow p q ↔ g.Arrow p q := by
  simp only [Arrow, hslot, hedge]

/-- What vertices are is the same in graphs with the same cells and cores. -/
theorem profileAt?_congr (hslot : g'.slot? p = g.slot? p) (hprofile : ∀ k, g'.profile? k = g.profile? k) :
    g'.profileAt? p = g.profileAt? p := by
  rw [profileAt?, profileAt?, hslot, show g'.profile? = g.profile? from funext hprofile]

namespace WellFormed

theorem profileAt?_position (h : g.WellFormed) (hv : g.vertex? i = some v) :
    g.profileAt? v.position = some v.profile := by
  rw [profileAt?_of_slot? (h.slot?_position hv), profile?_of_vertex? hv]

theorem exists_vertex (h : g.WellFormed) (hf : g.profileAt? p = some f) :
    ∃ i v, g.slot? p = some i ∧ g.vertex? i = some v ∧ v.position = p ∧ v.profile = f := by
  obtain ⟨i, hp, hf⟩ := Option.bind_eq_some_iff.1 hf
  obtain ⟨v, hv, hpos⟩ := h.vertex_of_slot? hp
  rw [profile?_of_vertex? hv, Option.some.injEq] at hf
  exact ⟨i, v, hp, hv, hpos, hf⟩

theorem exists_profileAt? (h : g.WellFormed) (hp : g.slot? p = some i) : ∃ f, g.profileAt? p = some f := by
  obtain ⟨v, hv, -⟩ := h.vertex_of_slot? hp
  exact ⟨v.profile, by rw [profileAt?_of_slot? hp, profile?_of_vertex? hv]⟩

theorem profileAt?_eq_none_iff (h : g.WellFormed) : g.profileAt? p = none ↔ g.slot? p = none := by
  constructor
  · intro hnone
    cases hp : g.slot? p with
    | none => rfl
    | some i =>
      obtain ⟨f, hf⟩ := h.exists_profileAt? hp
      rw [hnone] at hf
      cases hf
  · exact profileAt?_of_none

/-- Two cells have one slot only if they are the same. -/
theorem position_unique (h : g.WellFormed) (hp : g.slot? p = some i) (hq : g.slot? q = some i) : p = q := by
  obtain ⟨v, hv, rfl⟩ := h.vertex_of_slot? hp
  obtain ⟨w, hw, rfl⟩ := h.vertex_of_slot? hq
  rw [hv] at hw
  cases hw
  rfl

theorem arrow_source (h : g.WellFormed) (ha : g.Arrow p q) : ∃ f, g.profileAt? p = some f :=
  let ⟨_, _, hp, _, _⟩ := ha
  h.exists_profileAt? hp

theorem arrow_target (h : g.WellFormed) (ha : g.Arrow p q) : ∃ f, g.profileAt? q = some f :=
  let ⟨_, _, _, hq, _⟩ := ha
  h.exists_profileAt? hq

theorem dirtyAt_iff (h : g.WellFormed) (hp : g.slot? p = some i) : g.DirtyAt p ↔ g.isDirty i = true := by
  obtain ⟨v, hv, -⟩ := h.vertex_of_slot? hp
  rw [DirtyAt, profileAt?_of_slot? hp, profile?_of_vertex? hv, isDirty_iff_of_vertex? hv]
  simp [Vertex.profile]

/-- Paths of edges between slots are paths of arrows between their cells. -/
theorem path_iff (h : g.WellFormed) (hp : g.slot? p = some i) (hq : g.slot? q = some j) :
    TransGen g.Edge i j ↔ TransGen g.Arrow p q := by
  constructor
  · intro hpath
    induction hpath generalizing q with
    | single he => exact .single ⟨i, _, hp, hq, he⟩
    | @tail m j _ he ih =>
      obtain ⟨v, hv⟩ := he.live_source
      exact .tail (ih (h.slot?_position hv)) ⟨m, j, h.slot?_position hv, hq, he⟩
  · intro hpath
    induction hpath generalizing j with
    | single ha => exact .single ((arrow_iff hp hq).1 ha)
    | tail _ ha ih =>
      obtain ⟨m, j', hm, hj', he⟩ := ha
      rw [hq] at hj'
      cases hj'
      exact .tail (ih hm) he

/-- A vertex is on a cycle if arrows lead from its cell back to it. -/
theorem onCycle_iff (h : g.WellFormed) (hp : g.slot? p = some i) : g.OnCycle i ↔ TransGen g.Arrow p p :=
  h.path_iff hp hp

end WellFormed

theorem Closed.arrow (h : g.Closed) (hwell : g.WellFormed) (hd : g.DirtyAt p) (ha : g.Arrow p q) :
    g.DirtyAt q := by
  obtain ⟨i, j, hp, hq, he⟩ := ha
  rw [hwell.dirtyAt_iff hp] at hd
  exact (hwell.dirtyAt_iff hq).2 (h i j hd he)

theorem Wired.arrow (h : g.Wired) (hwell : g.WellFormed) (hf : g.profileAt? q = some f)
    (hm : f.dependencies.Mentions p) (hp : g.profileAt? p ≠ none) : g.Arrow p q := by
  obtain ⟨j, w, hq, hw, -, rfl⟩ := hwell.exists_vertex hf
  obtain ⟨f', hp⟩ := Option.ne_none_iff_exists'.1 hp
  obtain ⟨i, v, hp, -⟩ := hwell.exists_vertex hp
  refine ⟨i, j, hp, hq, h.edge j p i ?_ hp⟩
  rwa [reads_of_vertex? hw]

/-- A cell that is mentioned either has a vertex, or the reader listens to it. -/
theorem Wired.listens (h : g.Wired) (hwell : g.WellFormed) (hq : g.slot? q = some j)
    (hf : g.profileAt? q = some f) (hm : f.dependencies.Mentions p) :
    (∃ i, g.slot? p = some i) ∨ j ∈ g.listenersOf p := by
  obtain ⟨j', w, hq', hw, -, rfl⟩ := hwell.exists_vertex hf
  rw [hq] at hq'
  cases hq'
  change w.dependencies.Mentions p at hm
  rw [← reads_of_vertex? hw] at hm
  rcases hm with hm | ⟨a, ha, hm⟩
  · exact .inl (h.cells j p hm)
  · exact .inr (WiredBy.mem_listenersOf ((h.listeners a j).2 ha) hm)

/-! ### Graphs that grow -/

/-- The second graph is the first one with more vertices, which calculate nothing, and with more arrows:
those that `T` allows, and those from new vertices to all that mention their cells. -/
structure Grows (T : Position → Position → Prop) (g g' : Graph) : Prop where
  profile : ∀ q f, g.profileAt? q = some f → g'.profileAt? q = some f
  fresh : ∀ q f, g.profileAt? q = none → g'.profileAt? q = some f → f = {}
  arrow : ∀ x q, g.Arrow x q → g'.Arrow x q
  arrow_new : ∀ x q, g'.Arrow x q → g.Arrow x q ∨ T x q ∨
    g.profileAt? x = none ∧ ∃ f, g.profileAt? q = some f ∧ f.dependencies.Mentions x

namespace Grows

variable {T : Position → Position → Prop}

theorem refl (T : Position → Position → Prop) (g : Graph) : Grows T g g where
  profile _ _ hf := hf
  fresh q f hnone hf := by
    rw [hnone] at hf
    cases hf
  arrow _ _ ha := ha
  arrow_new _ _ ha := .inl ha

theorem trans {g₁ g₂ g₃ : Graph} (h : Grows T g₁ g₂) (h' : Grows T g₂ g₃) : Grows T g₁ g₃ where
  profile q f hf := h'.profile q f (h.profile q f hf)
  fresh q f hnone hf := by
    cases hq : g₂.profileAt? q with
    | none => exact h'.fresh q f hq hf
    | some f' =>
      rw [h'.profile q f' hq] at hf
      cases hf
      exact h.fresh q _ hnone hq
  arrow x q ha := h'.arrow x q (h.arrow x q ha)
  arrow_new x q ha := by
    rcases h'.arrow_new x q ha with ha | ht | ⟨hnone, f, hf, hm⟩
    · exact h.arrow_new x q ha
    · exact .inr (.inl ht)
    · refine .inr (.inr ⟨?_, ?_⟩)
      · cases hx : g₁.profileAt? x with
        | none => rfl
        | some f' =>
          rw [h.profile x f' hx] at hnone
          cases hnone
      · cases hq : g₁.profileAt? q with
        | none =>
          obtain rfl := h.fresh q f hq hf
          exact absurd hm Dependencies.not_mentions_empty
        | some f' =>
          rw [h.profile q f' hq] at hf
          cases hf
          exact ⟨_, rfl, hm⟩

theorem mono {U : Position → Position → Prop} (h : Grows T g g') (ht : ∀ x q, g'.Arrow x q → T x q → U x q) :
    Grows U g g' :=
  ⟨h.profile, h.fresh, h.arrow, fun x q ha => (h.arrow_new x q ha).imp_right (.imp_left (ht x q ha))⟩

end Grows

/-- Extending a graph makes it grow by arrows to one vertex. -/
theorem Extends.grows (h : Extends i g g') (hwired : g.Wired) (hwell : g.WellFormed) (hwell' : g'.WellFormed) :
    Grows (fun _ q => g'.slot? q = some i) g g' := by
  -- a vertex that both graphs have stands in the same slot in both
  have hback (q : Position) (k : Slot) (hk : g'.slot? q = some k) (hlive : g.Live k) : g.slot? q = some k := by
    obtain ⟨v, hv⟩ := hlive
    obtain ⟨w, hw, hcore⟩ := h.vertex_of hv
    obtain ⟨w', hw', rfl⟩ := hwell'.vertex_of_slot? hk
    rw [hw] at hw'
    cases hw'
    have hpos : w.position = v.position := (congrArg Vertex.position hcore :)
    rw [hpos]
    exact hwell.slot?_position hv
  refine ⟨fun q f hf => ?_, fun q f hnone hf => ?_, fun x q ha => ?_, fun x q ha => ?_⟩
  · obtain ⟨k, v, hq, hv, -, rfl⟩ := hwell.exists_vertex hf
    rw [profileAt?_of_slot? (h.slot q k hq), profile?_eq_core, h.core k ⟨v, hv⟩, ← profile?_eq_core,
      profile?_of_vertex? hv]
  · obtain ⟨k, v, hq, hv, -, rfl⟩ := hwell'.exists_vertex hf
    have hdead : ¬g.Live k := by
      intro hlive
      rw [profileAt?_of_slot? (hback q k hq hlive), profile?] at hnone
      obtain ⟨w, hw⟩ := hlive
      rw [hw] at hnone
      cases hnone
    obtain ⟨r, hr⟩ := h.fresh k hdead ⟨v, hv⟩
    have hprofile : g'.profile? k = some {} := by
      rw [profile?_eq_core, hr]
      rfl
    rw [profile?_of_vertex? hv] at hprofile
    exact Option.some.inj hprofile
  · obtain ⟨k, l, hx, hq, he⟩ := ha
    exact ⟨k, l, h.slot x k hx, h.slot q l hq, h.edge k l he⟩
  · obtain ⟨k, l, hx, hq, he⟩ := ha
    rcases h.edge_new k l he with he | rfl | ⟨hdead, r, hr, hlisten⟩
    · obtain ⟨hk, hl⟩ := hwell.linked.edge_live he
      exact .inl ⟨k, l, hback x k hx hk, hback q l hq hl, he⟩
    · exact .inr (.inl hq)
    · obtain rfl : r = x := hwell'.position_unique ((hwell'.place r k).2 ⟨_, hr, rfl⟩) hx
      obtain ⟨⟨a, l'⟩, hmem, rfl⟩ := List.mem_map.1 hlisten
      obtain ⟨hmem, hcontains⟩ := List.mem_filter.1 hmem
      obtain ⟨as, hl⟩ := h.listeners
      rw [hl, List.mem_append] at hmem
      rcases hmem with hmem | hmem
      · have ha : a ∈ (g.reads l').areas := (hwired.listeners a l').1 hmem
        have hlive : g.Live l' := by
          by_contra hdead
          rw [reads_of_dead hdead] at ha
          cases ha
        obtain ⟨w, hw⟩ := hlive
        refine .inr (.inr ⟨?_, w.profile, ?_, ?_⟩)
        · rw [hwell.profileAt?_eq_none_iff]
          cases hr' : g.slot? r with
          | none => rfl
          | some k' =>
            rw [h.slot r k' hr'] at hx
            cases hx
            obtain ⟨v, hv, -⟩ := hwell.vertex_of_slot? hr'
            exact absurd ⟨v, hv⟩ hdead
        · rw [profileAt?_of_slot? (hback q l' hq ⟨w, hw⟩), profile?_of_vertex? hw]
        · rw [reads_of_vertex? hw] at ha
          exact .inr ⟨a, ha, hcontains⟩
      · obtain ⟨b, -, hb⟩ := List.mem_map.1 hmem
        cases hb
        exact .inr (.inl hq)

end Graph

end Spreadsheet
