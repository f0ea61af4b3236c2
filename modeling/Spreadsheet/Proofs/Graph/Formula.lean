import Spreadsheet.Proofs.Graph.Orderly

/-!
Formulas that come and go. When a cell loses its formula its vertex reads nothing any more, and when it
gets one the vertex reads what the formula mentions; other vertices keep what they are, and what has to
be calculated anew is marked.
-/

namespace Spreadsheet.Graph

variable {g g' : Graph} {i j k l : Slot} {p q x y : Position} {f : Profile} {v : Vertex}

/-! ### Changing what a vertex is -/

/-- The vertex with other contents. -/
def assigned (content : Vertex.Content) (v : Vertex) : Vertex := { v with content, volatile := false }

theorem profileAt?_modify_of_ne (hp : g.slot? p = some i) (hwell : g.WellFormed) (hq : q ≠ p)
    (f : Vertex → Vertex) : (g.modify i f).profileAt? q = g.profileAt? q := by
  rw [profileAt?, profileAt?, (sameFrame_modify g i f).slot?]
  cases hslot : g.slot? q with
  | none => rfl
  | some j =>
    have hne : i ≠ j := by
      rintro rfl
      exact hq (hwell.position_unique hslot hp)
    rw [Option.bind_some, Option.bind_some, profile?, profile?, vertex?_modify_of_ne _ _ hne]

theorem profileAt?_modify_self (hp : g.slot? p = some i) {f : Vertex → Vertex} {c : Profile → Profile}
    (hf : ∀ v, (f v).profile = c v.profile) : (g.modify i f).profileAt? p = (g.profileAt? p).map c := by
  rw [profileAt?_of_slot? (((sameFrame_modify g i f).slot? p).trans hp), profileAt?_of_slot? hp, profile?, profile?,
    vertex?_modify_self]
  cases g.vertex? i <;> simp [hf]

theorem arrow_modify {f : Vertex → Vertex} (hout : ∀ v, (f v).dependents = v.dependents) :
    (g.modify i f).Arrow x y ↔ g.Arrow x y :=
  arrow_congr (sameFrame_modify g i f).slot? fun _ _ => edge_modify hout

theorem reads_modify {f : Vertex → Vertex} (hf : ∀ v, (f v).dependencies = v.dependencies) :
    (g.modify i f).reads = g.reads := by
  funext k
  rw [reads, reads, vertex?_modify]
  split
  · cases g.vertex? k <;> simp [hf]
  · rfl

theorem Wired.modify (h : g.Wired) {f : Vertex → Vertex} (hf : ∀ v, (f v).dependencies = v.dependencies)
    (hout : ∀ v, (f v).dependents = v.dependents) : (g.modify i f).Wired := by
  rw [Wired, reads_modify hf]
  exact WiredBy.modify h hout

theorem Firm.assign (h : g.Firm) (i : Slot) (content : Vertex.Content) : (g.modify i (assigned content)).Firm where
  toSound := h.toSound.modify (f := assigned content) (fun _ => rfl) (fun _ => rfl) (fun _ => rfl) (fun _ => rfl)
    fun _ hd => hd
  wired := h.wired.modify (f := assigned content) (fun _ => rfl) fun _ => rfl

theorem Orderly.assign (h : g.Orderly) (i : Slot) (content : Vertex.Content) :
    (g.modify i (assigned content)).Orderly := by
  have hdirty (k : Slot) : (g.modify i (assigned content)).isDirty k = g.isDirty k :=
    isDirty_modify (f := assigned content) (fun _ => rfl) k
  refine ⟨h.toFirm.assign i content, fun k l hk hkl => ?_, fun k hk => ?_⟩
  · rw [hdirty] at hk ⊢
    exact h.closed k l hk ((edge_modify (f := assigned content) fun _ => rfl).1 hkl)
  · rw [hdirty]
    rw [marked_modify] at hk
    exact h.marked_dirty k hk

/-! ### Vertices that read nothing any more -/

theorem reads_clearInputs (g : Graph) (i : Slot) : (g.clearInputs i).reads = Function.update g.reads i {} := by
  funext k
  rw [reads_eq_core, core?_clearInputs]
  by_cases hk : i = k
  · subst hk
    rw [if_pos rfl, Function.update_self]
    cases g.core? i <;> rfl
  · rw [if_neg hk, Function.update_of_ne (Ne.symm hk), ← reads_eq_core]

theorem Wired.clearInputs (h : g.Wired) (hwell : g.WellFormed) (i : Slot) : (g.clearInputs i).Wired := by
  rw [Wired, reads_clearInputs]
  exact WiredBy.clearInputs h hwell i

theorem profile?_clearInputs (g : Graph) (i k : Slot) : (g.clearInputs i).profile? k =
    if i = k then (g.profile? k).map fun f => { f with dependencies := {} } else g.profile? k := by
  rw [profile?_eq_core, profile?_eq_core, core?_clearInputs]
  split
  · cases g.core? k <;> rfl
  · rfl

theorem profileAt?_clearInputs_self (hp : g.slot? p = some i) : (g.clearInputs i).profileAt? p =
    (g.profileAt? p).map fun f => { f with dependencies := {} } := by
  rw [profileAt?_of_slot? (((sameFrame_clearInputs g i).slot? p).trans hp), profileAt?_of_slot? hp,
    profile?_clearInputs, if_pos rfl]

theorem profileAt?_clearInputs_of_ne (hp : g.slot? p = some i) (hwell : g.WellFormed) (hq : q ≠ p) :
    (g.clearInputs i).profileAt? q = g.profileAt? q := by
  rw [profileAt?, profileAt?, (sameFrame_clearInputs g i).slot?]
  cases hslot : g.slot? q with
  | none => rfl
  | some j =>
    have hne : i ≠ j := by
      rintro rfl
      exact hq (hwell.position_unique hslot hp)
    rw [Option.bind_some, Option.bind_some, profile?_clearInputs, if_neg hne]

theorem arrow_clearInputs (hp : g.slot? p = some i) (hwell : g.WellFormed) :
    (g.clearInputs i).Arrow x y ↔ g.Arrow x y ∧ y ≠ p := by
  simp only [Arrow, (sameFrame_clearInputs g i).slot?, edge_clearInputs hwell.linked]
  constructor
  · rintro ⟨k, l, hx, hy, he, hl⟩
    refine ⟨⟨k, l, hx, hy, he⟩, ?_⟩
    rintro rfl
    rw [hp] at hy
    exact hl (Option.some.inj hy).symm
  · rintro ⟨⟨k, l, hx, hy, he⟩, hne⟩
    refine ⟨k, l, hx, hy, he, ?_⟩
    rintro rfl
    exact hne (hwell.position_unique hy hp)

theorem Firm.clearInputs (h : g.Firm) (i : Slot) : (g.clearInputs i).Firm :=
  ⟨h.toSound.clearInputs i, h.wired.clearInputs h.toWellFormed i⟩

theorem Orderly.clearInputs (h : g.Orderly) (i : Slot) : (g.clearInputs i).Orderly := by
  refine ⟨h.toFirm.clearInputs i, fun k l hk hkl => ?_, fun k hk => ?_⟩
  · rw [isDirty_clearInputs] at hk ⊢
    exact h.closed k l hk ((edge_clearInputs h.linked).1 hkl).1
  · rw [isDirty_clearInputs]
    rw [(sameFrame_clearInputs g i).marked] at hk
    exact h.marked_dirty k hk

/-! ### Vertices that are removed -/

/-- A vertex that nothing reads can be removed. -/
theorem Wired.remove (h : g.Wired) (hwell : g.WellFormed) (hp : g.slot? p = some i)
    (hnone : ∀ l, ¬g.Edge i l) : (g.remove p).Wired := by
  obtain ⟨v, hv, -⟩ := hwell.vertex_of_slot? hp
  have hreads : (g.remove p).reads = Function.update g.reads i {} := by
    funext k
    rw [reads_eq_core, core?_remove hp]
    by_cases hk : i = k
    · subst hk
      rw [if_pos rfl, Function.update_self]
      rfl
    · rw [if_neg hk, Function.update_of_ne (Ne.symm hk), ← reads_eq_core]
  rw [Wired, hreads]
  refine ⟨fun l q k hq hk => ?_, fun l q hq => ?_, fun a l => ?_, fun l hl => ?_⟩
  · rw [slot?_remove hp] at hk
    split at hk
    · cases hk
    · by_cases hl : l = i
      · subst hl
        rw [Function.update_self] at hq
        exact absurd hq Dependencies.not_mentions_empty
      · rw [Function.update_of_ne hl] at hq
        have he := h.edge l q k hq hk
        refine (hwell.edge_remove hp).2 ⟨he, ?_, hl⟩
        rintro rfl
        exact hnone l he
  · by_cases hl : l = i
    · subst hl
      rw [Function.update_self] at hq
      cases hq
    · rw [Function.update_of_ne hl] at hq
      obtain ⟨k, hk⟩ := h.cells l q hq
      refine ⟨k, ?_⟩
      rw [slot?_remove hp, if_neg, hk]
      rintro rfl
      rw [hp] at hk
      cases hk
      exact hnone l (h.edge l p i (.inl hq) hp)
  · rw [listeners_remove hp ⟨v, hv⟩, List.mem_filter, bne_iff_ne, h.listeners]
    by_cases hl : l = i
    · subst hl
      simp
    · rw [Function.update_of_ne hl]
      exact and_iff_left hl
  · by_cases hl' : l = i
    · rw [hl', Function.update_self]
    · rw [Function.update_of_ne hl']
      exact h.dead l fun hc => hl ((live_remove hp).2 ⟨hc, hl'⟩)

theorem profileAt?_remove (hp : g.slot? p = some i) (hwell : g.WellFormed) (q : Position) :
    (g.remove p).profileAt? q = if p = q then none else g.profileAt? q := by
  rw [profileAt?, slot?_remove hp]
  by_cases hq : p = q
  · rw [if_pos hq, if_pos hq]
    rfl
  · rw [if_neg hq, if_neg hq, profileAt?]
    cases hslot : g.slot? q with
    | none => rfl
    | some j =>
      have hne : i ≠ j := by
        rintro rfl
        exact hq (hwell.position_unique hp hslot)
      rw [Option.bind_some, Option.bind_some, profile?_eq_core, core?_remove hp, if_neg hne, ← profile?_eq_core]

theorem arrow_remove (hp : g.slot? p = some i) (hwell : g.WellFormed) :
    (g.remove p).Arrow x y ↔ g.Arrow x y ∧ x ≠ p ∧ y ≠ p := by
  constructor
  · rintro ⟨k, l, hx, hy, he⟩
    rw [slot?_remove hp] at hx hy
    split at hx
    · cases hx
    · split at hy
      · cases hy
      · rename_i hxp hyp
        exact ⟨⟨k, l, hx, hy, ((hwell.edge_remove hp).1 he).1⟩, Ne.symm hxp, Ne.symm hyp⟩
  · rintro ⟨⟨k, l, hx, hy, he⟩, hxp, hyp⟩
    refine ⟨k, l, ?_, ?_, (hwell.edge_remove hp).2 ⟨he, ?_, ?_⟩⟩
    · rw [slot?_remove hp, if_neg (Ne.symm hxp), hx]
    · rw [slot?_remove hp, if_neg (Ne.symm hyp), hy]
    · rintro rfl
      exact hxp (hwell.position_unique hx hp)
    · rintro rfl
      exact hyp (hwell.position_unique hy hp)

theorem Firm.remove (h : g.Firm) (hp : g.slot? p = some i) (hnone : ∀ l, ¬g.Edge i l) : (g.remove p).Firm :=
  ⟨h.toSound.remove p, h.wired.remove h.toWellFormed hp hnone⟩

theorem Orderly.remove (h : g.Orderly) (hp : g.slot? p = some i) (hnone : ∀ l, ¬g.Edge i l) :
    (g.remove p).Orderly := by
  refine ⟨h.toFirm.remove hp hnone, fun k l hk hkl => ?_, fun k hk => ?_⟩
  · obtain ⟨hkl, -, hl⟩ := (h.edge_remove hp).1 hkl
    exact (isDirty_remove hp l).2 ⟨h.closed k l ((isDirty_remove hp k).1 hk).1 hkl, hl⟩
  · rw [marked_remove hp, List.mem_filter, bne_iff_ne] at hk
    exact (isDirty_remove hp k).2 ⟨h.marked_dirty k hk.1, hk.2⟩

/-! ### Cells that lose their formulas -/

/-- The second graph is the first one after a cell has lost its formula. -/
structure Demoted (p : Position) (g g' : Graph) : Prop where
  other : ∀ q, q ≠ p → g'.profileAt? q = g.profileAt? q
  self : g'.profileAt? p = none ∨ g'.profileAt? p =
    (g.profileAt? p).map fun f => { f with content := .value, dependencies := {} }
  arrow : ∀ x y, g'.Arrow x y ↔ g.Arrow x y ∧ y ≠ p

/-- The graph in which a vertex calculates and reads nothing. -/
def emptied (g : Graph) (i : Slot) : Graph := (g.clearInputs i).modify i (assigned .value)

theorem slot?_emptied (g : Graph) (i : Slot) (p : Position) : (g.emptied i).slot? p = g.slot? p :=
  ((sameFrame_modify _ i _).slot? p).trans ((sameFrame_clearInputs g i).slot? p)

/-- A vertex that loses its formula is emptied, and is removed if nothing reads it. -/
theorem demote_cases (g : Graph) (p : Position) :
    (g.slot? p = none ∧ g.demote p = g) ∨
      ∃ i, g.slot? p = some i ∧ (g.demote p = g.emptied i ∨
        (∀ l, ¬(g.emptied i).Edge i l) ∧ g.demote p = (g.emptied i).remove p) := by
  cases hp : g.slot? p with
  | none => exact .inl ⟨rfl, by simp only [demote, hp]⟩
  | some i =>
    have hdemote : g.demote p =
        if ((g.emptied i).dependents i).isEmpty then (g.emptied i).remove p else g.emptied i := by
      simp only [demote, hp]
      rfl
    refine .inr ⟨i, rfl, ?_⟩
    rw [hdemote]
    split
    · rename_i hempty
      refine .inr ⟨fun l => ?_, rfl⟩
      rw [← mem_dependents_iff, List.isEmpty_iff.1 hempty]
      exact List.not_mem_nil
    · exact .inl rfl

theorem WellFormed.emptied (h : g.WellFormed) (i : Slot) : (g.emptied i).WellFormed :=
  (h.clearInputs i).modify (f := assigned .value) (fun _ => rfl) (fun _ => rfl) fun _ => rfl

theorem WellFormed.demoted_emptied (h : g.WellFormed) (hp : g.slot? p = some i) : Demoted p g (g.emptied i) where
  other q hq := by
    have hp' := ((sameFrame_clearInputs g i).slot? p).trans hp
    rw [Graph.emptied, profileAt?_modify_of_ne hp' (h.clearInputs i) hq, profileAt?_clearInputs_of_ne hp h hq]
  self := by
    have hp' := ((sameFrame_clearInputs g i).slot? p).trans hp
    refine .inr ?_
    rw [Graph.emptied, profileAt?_modify_self (f := assigned .value) (c := fun f => { f with content := .value }) hp'
      fun _ => rfl, profileAt?_clearInputs_self hp, Option.map_map]
    rfl
  arrow x y := by
    have hsame : (g.emptied i).Arrow x y ↔ (g.clearInputs i).Arrow x y := arrow_modify fun _ => rfl
    rw [hsame, arrow_clearInputs hp h]

theorem WellFormed.demoted (h : g.WellFormed) (p : Position) : Demoted p g (g.demote p) := by
  obtain ⟨hp, hsame⟩ | ⟨i, hp, hsame | ⟨hnone, hsame⟩⟩ := demote_cases g p <;> rw [hsame]
  · refine ⟨fun _ _ => rfl, .inl (profileAt?_of_none hp), fun x y => ?_⟩
    constructor
    · intro ha
      refine ⟨ha, ?_⟩
      rintro rfl
      obtain ⟨-, j, -, hj, -⟩ := ha
      rw [hp] at hj
      cases hj
    · exact And.left
  · exact h.demoted_emptied hp
  · have hd := h.demoted_emptied hp
    have hp' : (g.emptied i).slot? p = some i := (slot?_emptied g i p).trans hp
    refine ⟨fun q hq => ?_, .inl ?_, fun x y => ?_⟩
    · rw [profileAt?_remove hp' (h.emptied i), if_neg (Ne.symm hq), hd.other q hq]
    · rw [profileAt?_remove hp' (h.emptied i), if_pos rfl]
    · rw [arrow_remove hp' (h.emptied i), hd.arrow]
      constructor
      · exact And.left
      · rintro ⟨ha, hy⟩
        refine ⟨⟨ha, hy⟩, ?_, hy⟩
        rintro rfl
        obtain ⟨k, l, hx, hl, he⟩ := (hd.arrow x y).2 ⟨ha, hy⟩
        rw [hp'] at hx
        cases hx
        exact hnone l he

theorem Firm.demote (h : g.Firm) (p : Position) : (g.demote p).Firm := by
  obtain ⟨-, hsame⟩ | ⟨i, hp, hsame | ⟨hnone, hsame⟩⟩ := demote_cases g p <;> rw [hsame]
  · exact h
  · exact (h.clearInputs i).assign i .value
  · exact ((h.clearInputs i).assign i .value).remove ((slot?_emptied g i p).trans hp) hnone

theorem Orderly.demote (h : g.Orderly) (p : Position) : (g.demote p).Orderly := by
  obtain ⟨-, hsame⟩ | ⟨i, hp, hsame | ⟨hnone, hsame⟩⟩ := demote_cases g p <;> rw [hsame]
  · exact h
  · exact (h.clearInputs i).assign i .value
  · exact ((h.clearInputs i).assign i .value).remove ((slot?_emptied g i p).trans hp) hnone

namespace Demoted

theorem idle (h : Demoted p g g') : g'.Idle p where
  arrow x ha := ((h.arrow x p).1 ha).2 rfl
  profile f hf := by
    rcases h.self with hnone | hself
    · rw [hnone] at hf
      cases hf
    · rw [hself] at hf
      obtain ⟨f₀, -, rfl⟩ := Option.map_eq_some_iff.1 hf
      exact ⟨rfl, rfl⟩

theorem reworked (h : Demoted p g g') (hwell : g.WellFormed) : Reworked (· = p) g g' where
  profile q f hq hf := ⟨f.dirty, id, (h.other q hq).trans hf⟩
  fresh q hq hnone := by
    have hidle := (Reworked.refl (· = p) hwell).fresh q hq hnone
    exact ⟨fun x ha => hidle.arrow x ((h.arrow x q).1 ha).1, fun f hf => hidle.profile f (h.other q hq ▸ hf)⟩
  arrow x q hq ha := (h.arrow x q).2 ⟨ha, hq⟩
  arrow_new x q _ ha := .inl ((h.arrow x q).1 ha).1

end Demoted

end Spreadsheet.Graph
