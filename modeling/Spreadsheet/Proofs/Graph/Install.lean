import Spreadsheet.Proofs.Graph.Formula

/-!
Cells that get formulas. The vertex of the cell is made to read what the formula mentions, the other cells
of an array are made to read the first one, and all of them are marked.
-/

namespace Spreadsheet.Graph

variable {g g' : Graph} {i j k l : Slot} {p q x y : Position} {f : Profile} {v : Vertex}
  {T : Position → Position → Prop}

/-! ### Changing one vertex and what it reads -/

/-- The second graph is the first one with more vertices, which calculate nothing, and with other arrows to
one cell; arrows to other cells are kept, and new ones are those that `T` allows and those from new
vertices. -/
structure Alters (p : Position) (T : Position → Position → Prop) (g g' : Graph) : Prop where
  live : ∀ q, g.profileAt? q ≠ none → g'.profileAt? q ≠ none
  other : ∀ q f, q ≠ p → g.profileAt? q = some f → g'.profileAt? q = some f
  fresh : ∀ q f, q ≠ p → g.profileAt? q = none → g'.profileAt? q = some f → f = {}
  arrow : ∀ x q, q ≠ p → g.Arrow x q → g'.Arrow x q
  arrow_new : ∀ x q, g'.Arrow x q → g.Arrow x q ∨ T x q ∨ q = p ∨
    g.profileAt? x = none ∧ ∃ f, g.profileAt? q = some f ∧ f.dependencies.Mentions x

theorem Grows.alters (h : Grows T g g') (p : Position) : Alters p T g g' where
  live q hq := by
    obtain ⟨f, hf⟩ := Option.ne_none_iff_exists'.1 hq
    rw [h.profile q f hf]
    exact Option.some_ne_none f
  other q f _ hf := h.profile q f hf
  fresh q f _ hnone hf := h.fresh q f hnone hf
  arrow x q _ ha := h.arrow x q ha
  arrow_new x q ha := (h.arrow_new x q ha).imp_right (.imp_right .inr)

namespace Alters

theorem trans {g₁ g₂ g₃ : Graph} (h : Alters p T g₁ g₂) (h' : Alters p T g₂ g₃) : Alters p T g₁ g₃ where
  live q hq := h'.live q (h.live q hq)
  other q f hq hf := h'.other q f hq (h.other q f hq hf)
  fresh q f hq hnone hf := by
    cases hq₂ : g₂.profileAt? q with
    | none => exact h'.fresh q f hq hq₂ hf
    | some f' =>
      rw [h'.other q f' hq hq₂] at hf
      cases hf
      exact h.fresh q _ hq hnone hq₂
  arrow x q hq ha := h'.arrow x q hq (h.arrow x q hq ha)
  arrow_new x q ha := by
    rcases h'.arrow_new x q ha with ha | ht | hq | ⟨hnone, f, hf, hm⟩
    · exact h.arrow_new x q ha
    · exact .inr (.inl ht)
    · exact .inr (.inr (.inl hq))
    · by_cases hq : q = p
      · exact .inr (.inr (.inl hq))
      · refine .inr (.inr (.inr ⟨?_, ?_⟩))
        · by_contra hsome
          exact h.live x hsome hnone
        · cases hq₁ : g₁.profileAt? q with
          | none =>
            obtain rfl := h.fresh q f hq hq₁ hf
            exact absurd hm Dependencies.not_mentions_empty
          | some f' =>
            rw [h.other q f' hq hq₁] at hf
            cases hf
            exact ⟨_, rfl, hm⟩

theorem of_modify (hp : g.slot? p = some i) (hwell : g.WellFormed) {f : Vertex → Vertex}
    (hout : ∀ v, (f v).dependents = v.dependents) : Alters p T g (g.modify i f) where
  live q hq := by
    rw [ne_eq, profileAt?, Option.bind_eq_none_iff] at hq ⊢
    refine fun hnone => hq fun k hk => ?_
    have hnone := hnone k (((sameFrame_modify g i f).slot? q).trans hk)
    rw [profile?, vertex?_modify] at hnone
    rw [profile?]
    split at hnone
    · simpa using hnone
    · exact hnone
  other q c hq hc := by rw [profileAt?_modify_of_ne hp hwell hq, hc]
  fresh q c hq hnone hc := by
    rw [profileAt?_modify_of_ne hp hwell hq, hnone] at hc
    cases hc
  arrow x q _ ha := (arrow_modify hout).2 ha
  arrow_new x q ha := .inl ((arrow_modify hout).1 ha)

theorem of_clearInputs (hp : g.slot? p = some i) (hwell : g.WellFormed) : Alters p T g (g.clearInputs i) where
  live q hq := by
    obtain ⟨f, hf⟩ := Option.ne_none_iff_exists'.1 hq
    by_cases hqp : q = p
    · subst hqp
      rw [profileAt?_clearInputs_self hp, hf]
      exact Option.some_ne_none _
    · rwa [profileAt?_clearInputs_of_ne hp hwell hqp]
  other q f hq hf := by rw [profileAt?_clearInputs_of_ne hp hwell hq, hf]
  fresh q f hq hnone hf := by
    rw [profileAt?_clearInputs_of_ne hp hwell hq, hnone] at hf
    cases hf
  arrow x q hq ha := (arrow_clearInputs hp hwell).2 ⟨ha, hq⟩
  arrow_new x q ha := .inl ((arrow_clearInputs hp hwell).1 ha).1

end Alters

/-- The graph in which a vertex reads the given cells and areas and has been told, but is not marked yet. -/
def reread (g : Graph) (i : Slot) (d : Dependencies) : Graph := (g.reading i d).modify i (told d)

theorem WellFormed.reread (h : g.WellFormed) (i : Slot) (d : Dependencies) : (g.reread i d).WellFormed :=
  (h.reading i d).modify (f := told d) (fun _ => rfl) (fun _ => rfl) fun _ => rfl

theorem slot?_reread (hwell : g.WellFormed) (hp : g.slot? p = some k) (i : Slot) (d : Dependencies) :
    (g.reread i d).slot? p = some k := by
  rw [reread, (sameFrame_modify _ i _).slot?]
  exact (hwell.extends_reading i d).slot p k (((sameFrame_clearInputs g i).slot? p).trans hp)

/-- Replacing what a vertex reads alters its arrows only, apart from new vertices. -/
theorem alters_reread (hwell : g.WellFormed) (hwired : g.Wired) (hp : g.slot? p = some i) (d : Dependencies) :
    Alters p (fun _ _ => False) g (g.reread i d) := by
  have hp' : (g.clearInputs i).slot? p = some i := ((sameFrame_clearInputs g i).slot? p).trans hp
  have hext := hwell.extends_reading i d
  have hp'' : (g.reading i d).slot? p = some i := hext.slot p i hp'
  have hwell'' := hwell.reading i d
  have hgrows := hext.grows (hwired.clearInputs hwell i) (hwell.clearInputs i) hwell''
  have halters := hgrows.alters p
  have hreading : Alters p (fun _ _ => False) (g.clearInputs i) (g.reading i d) := by
    refine ⟨halters.live, halters.other, halters.fresh, halters.arrow, fun x q ha => ?_⟩
    rcases halters.arrow_new x q ha with ha | hq | hq | hm
    · exact .inl ha
    · exact .inr (.inr (.inl (hwell''.position_unique hq hp'')))
    · exact .inr (.inr (.inl hq))
    · exact .inr (.inr (.inr hm))
  exact ((Alters.of_clearInputs hp hwell).trans hreading).trans
    (Alters.of_modify hp'' hwell'' (f := told d) fun _ => rfl)

theorem profileAt?_reread (hwell : g.WellFormed) (hwired : g.Wired) (hp : g.slot? p = some i) (d : Dependencies)
    (hf : g.profileAt? p = some f) : (g.reread i d).profileAt? p = some { f with dependencies := d } := by
  have hp' : (g.clearInputs i).slot? p = some i := ((sameFrame_clearInputs g i).slot? p).trans hp
  have hext := hwell.extends_reading i d
  have hgrows := hext.grows (hwired.clearInputs hwell i) (hwell.clearInputs i) (hwell.reading i d)
  have hclear : (g.clearInputs i).profileAt? p = some { f with dependencies := {} } := by
    rw [profileAt?_clearInputs_self hp, hf, Option.map_some]
  rw [reread, profileAt?_modify_self (f := told d) (c := fun f => { f with dependencies := d }) (hext.slot p i hp')
    fun _ => rfl, hgrows.profile p _ hclear, Option.map_some]

/-- The vertex reads what it has been told to read, and nothing else. -/
theorem arrow_reread (hwell : g.WellFormed) (hp : g.slot? p = some i) {d : Dependencies}
    (ha : (g.reread i d).Arrow x p) : d.Mentions x := by
  obtain ⟨k, j, hk, hj, he⟩ := ha
  rw [slot?_reread hwell hp] at hj
  cases hj
  rw [reread, (sameFrame_modify _ i _).slot?] at hk
  obtain ⟨v, hv, -⟩ := hwell.vertex_of_slot? hp
  obtain ⟨q, hq, hm⟩ := hwell.sourced_reading ⟨v, hv⟩ d k ((edge_modify (f := told d) fun _ => rfl).1 he)
  rwa [(hwell.reading i d).position_unique hk hq]

theorem isDirty_reread (hwell : g.WellFormed) (i : Slot) (d : Dependencies) (k : Slot) :
    (g.reread i d).isDirty k = true ↔ g.isDirty k = true := by
  rw [reread, isDirty_modify (f := told d) fun _ => rfl, (hwell.extends_reading i d).isDirty_iff, isDirty_clearInputs]

theorem marked_reread (hwell : g.WellFormed) (i : Slot) (d : Dependencies) : (g.reread i d).marked = g.marked := by
  rw [reread, marked_modify, (hwell.extends_reading i d).marked, (sameFrame_clearInputs g i).marked]

/-- New edges lead to the vertex whose dependencies have been replaced, or from clean vertices. -/
theorem edge_new_reread (hwell : g.WellFormed) (hkl : (g.reread i d).Edge k l) :
    g.Edge k l ∨ l = i ∨ ¬g.Live k := by
  have hkl : (g.reading i d).Edge k l := (edge_modify (f := told d) fun _ => rfl).1 hkl
  rcases (hwell.extends_reading i d).edge_new k l hkl with he | hl | ⟨hk, -⟩
  · exact .inl ((edge_clearInputs hwell.linked).1 he).1
  · exact .inr (.inl hl)
  · exact .inr (.inr fun hc => hk (live_clearInputs.2 hc))

/-! ### The members of an array -/

theorem profileAt?_connect (g : Graph) (i j : Slot) (q : Position) :
    (g.connect i j).profileAt? q = g.profileAt? q :=
  profileAt?_congr ((sameCore_connect g i j).slot? q) fun k => by
    rw [profile?_eq_core, (sameCore_connect g i j).core, ← profile?_eq_core]

/-- A new edge is an arrow between the cells. -/
theorem grows_connect (hp : g.slot? p = some i) (hq : g.slot? q = some j) (hwell : g.WellFormed) :
    Grows (fun x y => x = p ∧ y = q) g (g.connect i j) where
  profile r f hf := by rw [profileAt?_connect, hf]
  fresh r f hnone hf := by
    rw [profileAt?_connect, hnone] at hf
    cases hf
  arrow x y ha := by
    obtain ⟨k, l, hx, hy, he⟩ := ha
    exact ⟨k, l, ((sameCore_connect g i j).slot? x).trans hx, ((sameCore_connect g i j).slot? y).trans hy,
      edge_connect.2 (.inl he)⟩
  arrow_new x y ha := by
    obtain ⟨k, l, hx, hy, he⟩ := ha
    rw [(sameCore_connect g i j).slot?] at hx hy
    rcases edge_connect.1 he with he | ⟨-, rfl, rfl⟩
    · exact .inl ⟨k, l, hx, hy, he⟩
    · exact .inr (.inl ⟨hwell.position_unique hx hp, hwell.position_unique hy hq⟩)

/-- The new edges of an ensured vertex lead from it. -/
theorem WellFormed.edge_new_ensure (h : g.WellFormed) (hkl : (g.ensure p).2.Edge k l) :
    g.Edge k l ∨ ¬g.Live k := by
  -- the slot to which the extension may add edges is chosen out of the way
  rcases (h.extends_ensure (g.ensure p).2.slots.size p).edge_new k l hkl with he | rfl | ⟨hdead, -⟩
  · exact .inl he
  · obtain ⟨v, hv⟩ := ((h.ensure p).linked.edge_live hkl).2
    exact absurd (lt_size_of_vertex? hv) (Nat.lt_irrefl _)
  · exact .inr hdead

theorem grows_ensure (hwell : g.WellFormed) (hwired : g.Wired) (p : Position) :
    Grows (fun _ _ => False) g (g.ensure p).2 := by
  have hwell' := hwell.ensure p
  refine ((hwell.extends_ensure (g.ensure p).2.slots.size p).grows hwired hwell hwell').mono fun x q _ hq => ?_
  obtain ⟨v, hv, -⟩ := hwell'.vertex_of_slot? hq
  exact absurd (lt_size_of_vertex? hv) (Nat.lt_irrefl _)

theorem Firm.ensure (h : g.Firm) (p : Position) : (g.ensure p).2.Firm := by
  refine ⟨h.toSound.ensure p, ?_⟩
  rw [Wired, (h.extends_ensure 0 p).reads]
  exact WiredBy.ensure h.wired h.toWellFormed p

theorem Firm.connect (h : g.Firm) (i j : Slot) : (g.connect i j).Firm := by
  refine ⟨h.toSound.connect i j, ?_⟩
  rw [Wired, (extends_connect g i j).reads]
  exact WiredBy.connect h.wired i j

theorem Firm.rewire (h : g.Firm) (hlive : g.Live i) (d : Dependencies) : (g.rewire i d).Firm :=
  ⟨h.toSound.rewire i d, h.wired.rewire h.toWellFormed hlive d⟩

/-- All noted vertices are dirty, and what reads a dirty vertex is dirty or among some vertices. -/
structure Pending (js : List Slot) (g : Graph) : Prop where
  marked_dirty : ∀ k ∈ g.marked, g.isDirty k = true
  closed : ∀ k l, g.isDirty k = true → g.Edge k l → g.isDirty l = true ∨ l ∈ js

theorem Orderly.pending (h : g.Orderly) : Pending [] g :=
  ⟨h.marked_dirty, fun k l hk hkl => .inl (h.closed k l hk hkl)⟩

theorem Pending.orderly (h : Pending [] g) (hfirm : g.Firm) : g.Orderly :=
  ⟨hfirm, fun k l hk hkl => (h.closed k l hk hkl).resolve_right List.not_mem_nil, h.marked_dirty⟩

theorem Pending.ensure {js : List Slot} (h : Pending js g) (hwell : g.WellFormed) (p : Position) :
    Pending js (g.ensure p).2 := by
  have hext := hwell.extends_ensure 0 p
  refine ⟨fun k hk => ?_, fun k l hk hkl => ?_⟩
  · rw [hext.isDirty_iff]
    rw [hext.marked] at hk
    exact h.marked_dirty k hk
  · rw [hext.isDirty_iff] at hk ⊢
    rcases hwell.edge_new_ensure hkl with he | hdead
    · exact h.closed k l hk he
    · exact absurd (live_of_isDirty hk) hdead

/-- The vertex that gets an edge may be left clean. -/
theorem Pending.connect {js : List Slot} (h : Pending js g) (i j : Slot) : Pending (js ++ [j]) (g.connect i j) := by
  have hcore := sameCore_connect g i j
  refine ⟨fun k hk => ?_, fun k l hk hkl => ?_⟩
  · rw [hcore.isDirty]
    rw [hcore.marked] at hk
    exact h.marked_dirty k hk
  · rw [hcore.isDirty] at hk ⊢
    rw [List.mem_append, List.mem_singleton]
    rcases edge_connect.1 hkl with he | ⟨-, -, hl⟩
    · exact (h.closed k l hk he).imp_right .inl
    · exact .inr (.inr hl)

theorem Orderly.ensure (h : g.Orderly) (p : Position) : (g.ensure p).2.Orderly :=
  (h.pending.ensure h.toWellFormed p).orderly (h.toFirm.ensure p)

/-- While the members of an array are connected with its head: what holds of the slots connected so far,
which belong to the given cells. -/
structure Joining (p : Position) (i : Slot) (g₀ : Graph) (qs : List Position) (js : List Slot) (g : Graph) :
    Prop where
  firm : g.Firm
  /-- Only the members may have been left clean although they read something dirty. -/
  pending : Pending [] g₀ → Pending js g
  grows : Grows (fun x y => x = p ∧ y ∈ qs) g₀ g
  head : g.slot? p = some i
  member : ∀ q ∈ qs, ∃ j ∈ js, g.slot? q = some j ∧ g.Edge i j

theorem Joining.join {g₀ : Graph} {qs : List Position} {js : List Slot} (h : Joining p i g₀ qs js g)
    (q : Position) : Joining p i g₀ (qs ++ [q]) (js ++ [(g.ensure q).1])
      ((g.ensure q).2.connect i (g.ensure q).1) := by
  have hwell := h.firm.toWellFormed
  have hensure := h.firm.ensure q
  have hext := hwell.extends_ensure 0 q
  have hq := hwell.slot?_ensure q
  have hp : (g.ensure q).2.slot? p = some i := hext.slot p i h.head
  have hcore := sameCore_connect (g.ensure q).2 i (g.ensure q).1
  have hgrows : Grows (fun x y => x = p ∧ y ∈ qs ++ [q]) g ((g.ensure q).2.connect i (g.ensure q).1) := by
    refine ((grows_ensure hwell h.firm.wired q).mono fun _ _ _ hc => hc.elim).trans
      ((grows_connect hp hq hensure.toWellFormed).mono fun x y _ hxy => ⟨hxy.1, ?_⟩)
    rw [hxy.2]
    exact List.mem_append_right _ (List.mem_singleton.2 rfl)
  refine ⟨hensure.connect i _, fun h₀ => ((h.pending h₀).ensure hwell q).connect i _, ?_, (hcore.slot? p).trans hp,
    fun r hr => ?_⟩
  · exact (h.grows.mono fun x y _ hxy => ⟨hxy.1, List.mem_append_left _ hxy.2⟩).trans hgrows
  · rw [List.mem_append, List.mem_singleton] at hr
    rcases hr with hr | rfl
    · obtain ⟨j, hj, hslot, he⟩ := h.member r hr
      exact ⟨j, List.mem_append_left _ hj, (hcore.slot? r).trans (hext.slot r j hslot),
        edge_connect.2 (.inl (hext.edge i j he))⟩
    · obtain ⟨v, hv, -⟩ := hensure.vertex_of_slot? hp
      obtain ⟨w, hw, -⟩ := hensure.vertex_of_slot? hq
      exact ⟨_, List.mem_append_right _ (List.mem_singleton.2 rfl), (hcore.slot? r).trans hq,
        edge_connect.2 (.inr ⟨⟨⟨v, hv⟩, ⟨w, hw⟩⟩, rfl, rfl⟩)⟩

/-- Joins one more member to a vertex. -/
def joinNext (i : Slot) (joined : List Slot × Graph) (q : Position) : List Slot × Graph :=
  (joined.1 ++ [(joined.2.ensure q).1], (joined.2.ensure q).2.connect i (joined.2.ensure q).1)

theorem connectMembers_eq (g : Graph) (i : Slot) (qs : List Position) :
    g.connectMembers i qs = qs.foldl (joinNext i) ([], g) := rfl

theorem Firm.joining (h : g.Firm) (hp : g.slot? p = some i) (qs : List Position) :
    Joining p i g qs (g.connectMembers i qs).1 (g.connectMembers i qs).2 := by
  have hrun (g' : Graph) (js : List Slot) (done rest : List Position) (hj : Joining p i g done js g') :
      Joining p i g (done ++ rest)
        (rest.foldl (joinNext i) (js, g')).1
        (rest.foldl (joinNext i) (js, g')).2 := by
    induction rest generalizing g' js done with
    | nil => rwa [List.append_nil]
    | cons q rest ih =>
      have hnext := ih _ _ _ (hj.join q)
      rwa [List.append_assoc] at hnext
  rw [connectMembers_eq]
  exact hrun g [] [] qs ⟨h, id, .refl _ g, hp, fun q hq => nomatch hq⟩

/-! ### Giving a cell a formula -/

/-- The second graph is the first one after a cell has been given a formula. -/
structure Installed (p : Position) (content : Vertex.Content) (d : Dependencies) (g g' : Graph) : Prop where
  self : ∃ f, g'.profileAt? p = some f ∧ f.content = content ∧ f.dependencies = d ∧ f.dirty = true
  other : ∀ q f, q ≠ p → g.profileAt? q = some f →
    ∃ b, (f.dirty = true → b = true) ∧ g'.profileAt? q = some { f with dirty := b }
  fresh : ∀ q f, q ≠ p → g.profileAt? q = none → g'.profileAt? q = some f →
    f.content = .value ∧ f.dependencies = {}
  member : ∀ q ∈ content.members, q ≠ p → g'.Arrow p q ∧ g'.DirtyAt q
  arrow : ∀ x q, q ≠ p → g.Arrow x q → g'.Arrow x q
  arrow_new : ∀ x q, g'.Arrow x q → g.Arrow x q ∨ (x = p ∧ q ∈ content.members) ∨ q = p ∨
    g.profileAt? x = none ∧ ∃ f, g.profileAt? q = some f ∧ f.dependencies.Mentions x
  arrow_self : ∀ x, g'.Arrow x p → d.Mentions x

/-- The graph in which a vertex has contents, before its members are joined to it. -/
def given (g : Graph) (p : Position) (content : Vertex.Content) : Graph :=
  (g.ensure p).2.modify (g.ensure p).1 (assigned content)

/-- The graph in which a vertex has contents and its members, before it is made to read anything. -/
def staffed (g : Graph) (p : Position) (content : Vertex.Content) : List Slot × Graph :=
  (g.given p content).connectMembers (g.ensure p).1 (content.members.filter (· != p))

theorem install_eq (g : Graph) (p : Position) (content : Vertex.Content) (d : Dependencies) :
    g.install p content d =
      ((g.staffed p content).2.reread (g.ensure p).1 d).markEach ((g.ensure p).1 :: (g.staffed p content).1) := rfl

theorem WellFormed.slot?_given (h : g.WellFormed) (p : Position) (content : Vertex.Content) :
    (g.given p content).slot? p = some (g.ensure p).1 :=
  ((sameFrame_modify _ _ _).slot? p).trans (h.slot?_ensure p)

theorem Firm.staffed (h : g.Firm) (p : Position) (content : Vertex.Content) :
    Joining p (g.ensure p).1 (g.given p content) (content.members.filter (· != p)) (g.staffed p content).1
      (g.staffed p content).2 :=
  ((h.ensure p).assign _ content).joining (h.toWellFormed.slot?_given p content) _

theorem Firm.install (h : g.Firm) (p : Position) (content : Vertex.Content) (d : Dependencies) :
    (g.install p content d).Firm := by
  have hjoin := h.staffed p content
  obtain ⟨v, hv, -⟩ := hjoin.firm.vertex_of_slot? hjoin.head
  rw [install_eq]
  exact (hjoin.firm.rewire ⟨v, hv⟩ d).marks (marks_markEach _ (g.staffed p content).1)

theorem Orderly.install (h : g.Orderly) (p : Position) (content : Vertex.Content) (d : Dependencies) :
    (g.install p content d).Orderly := by
  have hjoin := h.toFirm.staffed p content
  have hpending := hjoin.pending ((h.ensure p).assign _ content).pending
  have hwell := hjoin.firm.toWellFormed
  have hmarks := marks_markEach ((g.staffed p content).2.reread (g.ensure p).1 d)
    ((g.ensure p).1 :: (g.staffed p content).1)
  have hwell' := hwell.reread (g.ensure p).1 d
  refine ⟨h.toFirm.install p content d, ?_, fun k hk => ?_⟩ <;> rw [install_eq] at *
  · refine closed_markEach hwell'.linked fun k l hk hkl => ?_
    rw [isDirty_reread hwell] at hk
    rw [isDirty_reread hwell, List.mem_cons]
    rcases edge_new_reread hwell hkl with he | hl | hdead
    · exact (hpending.closed k l hk he).imp_right .inr
    · exact .inr (.inl hl)
    · exact absurd (live_of_isDirty hk) hdead
  · rcases (hmarks.marked k).1 hk with hk | hk
    · rw [marked_reread hwell] at hk
      exact hmarks.isDirty ((isDirty_reread hwell _ d k).2 (hpending.marked_dirty k hk))
    · exact hk.1

theorem Firm.installed (h : g.Firm) (p : Position) (content : Vertex.Content) (d : Dependencies) :
    Installed p content d g (g.install p content d) := by
  have hensure := h.ensure p
  have hp := h.toWellFormed.slot?_ensure p
  have hjoin := h.staffed p content
  rw [install_eq]
  unfold given at hjoin
  generalize (g.ensure p).1 = i at hp hjoin ⊢
  generalize (g.staffed p content).1 = js at hjoin ⊢
  generalize (g.staffed p content).2 = g₃ at hjoin ⊢
  have hwell := hjoin.firm.toWellFormed
  have hreread := alters_reread hwell hjoin.firm.wired hjoin.head d
  have hmarks := marks_markEach (g₃.reread i d) (i :: js)
  have hwell' := hwell.reread i d
  have halters : Alters p (fun x y => x = p ∧ y ∈ content.members) g (g₃.reread i d) := by
    have hgrows := (grows_ensure h.toWellFormed h.wired p).mono
      (U := fun x y => x = p ∧ y ∈ content.members) fun _ _ _ hc => hc.elim
    have hjoins := hjoin.grows.mono (U := fun x y => x = p ∧ y ∈ content.members) fun _ _ _ hxy =>
      ⟨hxy.1, (List.mem_filter.1 hxy.2).1⟩
    refine (((hgrows.alters p).trans (.of_modify hp hensure.toWellFormed (f := assigned content) fun _ => rfl)).trans
      (hjoins.alters p)).trans ?_
    exact ⟨hreread.live, hreread.other, hreread.fresh, hreread.arrow,
      fun x q ha => (hreread.arrow_new x q ha).imp_right (.imp_left False.elim)⟩
  have hdirty (q : Position) (j : Slot) (hj : j ∈ i :: js) (hq : g₃.slot? q = some j) :
      ((g₃.reread i d).markEach (i :: js)).DirtyAt q := by
    have hq' := slot?_reread hwell hq i d
    obtain ⟨v, hv, -⟩ := hwell'.vertex_of_slot? hq'
    rw [(hmarks.wellFormed hwell').dirtyAt_iff ((hmarks.slot? q).trans hq')]
    exact isDirty_markEach hj ⟨v, hv⟩
  refine ⟨?_, fun q f hq hf => ?_, fun q f hq hnone hf => ?_, fun q hq hqp => ?_,
    fun x q hq ha => hmarks.arrow_iff.2 (halters.arrow x q hq ha),
    fun x q ha => halters.arrow_new x q (hmarks.arrow_iff.1 ha),
    fun x ha => arrow_reread hwell hjoin.head (hmarks.arrow_iff.1 ha)⟩
  · obtain ⟨f, hf⟩ := hensure.exists_profileAt? hp
    have hassigned : ((g.ensure p).2.modify i (assigned content)).profileAt? p = some { f with content } := by
      rw [profileAt?_modify_self (f := assigned content) (c := fun f => { f with content }) hp fun _ => rfl, hf,
        Option.map_some]
    have hself := profileAt?_reread hwell hjoin.firm.wired hjoin.head d (hjoin.grows.profile p _ hassigned)
    obtain ⟨f', hf', hd⟩ := hdirty p i List.mem_cons_self hjoin.head
    refine ⟨f', hf', ?_⟩
    rcases hmarks.profileAt? p with hsame | ⟨f'', hf'', hmark⟩
    · rw [hf', hself] at hsame
      cases hsame
      exact ⟨rfl, rfl, hd⟩
    · rw [hself] at hf''
      cases hf''
      rw [hf'] at hmark
      cases hmark
      exact ⟨rfl, rfl, rfl⟩
  · obtain ⟨b, hb, hf'⟩ := (hmarks.reworked hwell' (fun _ => False)).profile q f id (halters.other q f hq hf)
    exact ⟨b, hb, hf'⟩
  · rcases hmarks.profileAt? q with hsame | ⟨f', hf', hmark⟩
    · rw [hf] at hsame
      obtain rfl := halters.fresh q f hq hnone hsame.symm
      exact ⟨rfl, rfl⟩
    · obtain rfl := halters.fresh q f' hq hnone hf'
      rw [hf] at hmark
      cases hmark
      exact ⟨rfl, rfl⟩
  · obtain ⟨j, hj, hslot, he⟩ := hjoin.member q (List.mem_filter.2 ⟨hq, by simpa using hqp⟩)
    refine ⟨hmarks.arrow_iff.2 (hreread.arrow p q hqp ⟨i, j, hjoin.head, hslot, he⟩), ?_⟩
    exact hdirty q j (List.mem_cons_of_mem _ hj) hslot

namespace Installed

variable {content : Vertex.Content} {d : Dependencies}

/-- Only the cell with the formula and the other cells of its array are changed. -/
theorem reworked (h : Installed p content d g g') (hwell : g.WellFormed) :
    Reworked (fun q => q = p ∨ q ∈ content.members) g g' where
  profile q f hq hf := h.other q f (fun hc => hq (.inl hc)) hf
  fresh q hq hnone := by
    rw [not_or] at hq
    refine ⟨fun x ha => ?_, fun f hf => h.fresh q f hq.1 hnone hf⟩
    rcases h.arrow_new x q ha with ha | ⟨-, hmem⟩ | hqp | ⟨-, f, hf, -⟩
    · obtain ⟨f, hf⟩ := hwell.arrow_target ha
      rw [hnone] at hf
      cases hf
    · exact hq.2 hmem
    · exact hq.1 hqp
    · rw [hnone] at hf
      cases hf
  arrow x q hq ha := h.arrow x q (fun hc => hq (.inl hc)) ha
  arrow_new x q hq ha := by
    rw [not_or] at hq
    rcases h.arrow_new x q ha with ha | ⟨-, hmem⟩ | hqp | ⟨hx, f, hf, hm⟩
    · exact .inl ha
    · exact absurd hmem hq.2
    · exact absurd hqp hq.1
    · obtain ⟨b, -, hf'⟩ := h.other q f hq.1 hf
      exact .inr ⟨.inr hx, _, hf', hm⟩

/-- The cell with the formula and the other cells of its array are dirty. -/
theorem dirtyAt (h : Installed p content d g g') (hq : q = p ∨ q ∈ content.members) : g'.DirtyAt q := by
  by_cases hqp : q = p
  · subst hqp
    obtain ⟨f, hf, -, -, hd⟩ := h.self
    exact ⟨f, hf, hd⟩
  · exact (h.member q (hq.resolve_left hqp) hqp).2

end Installed

end Spreadsheet.Graph
