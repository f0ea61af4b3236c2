import Spreadsheet.Graph.Dirty
import Spreadsheet.Proofs.Graph.Chart

/-!
Orderly graphs. Vertices are wired to what they read at all times. Between two passes, as long as none has
been cut short, all that reads a dirty vertex is dirty, too, and exactly the dirty vertices are noted. Edits
keep a graph so, and change little of it apart from the cells that they are about.
-/

namespace Spreadsheet.Graph

variable {g g' : Graph} {i j k l : Slot} {p q x y : Position} {f : Profile} {v : Vertex}
  {P : Position → Prop}

/-- A sound graph whose vertices are wired to what they read. -/
structure Firm (g : Graph) : Prop extends Sound g where
  wired : g.Wired

/-- A graph between two passes that have not been cut short. -/
structure Orderly (g : Graph) : Prop extends Firm g where
  closed : g.Closed
  marked_dirty : ∀ i ∈ g.marked, g.isDirty i = true

/-- The vertex of a cell, if there is one, calculates nothing and reads nothing. -/
structure Idle (g : Graph) (p : Position) : Prop where
  arrow : ∀ x, ¬g.Arrow x p
  profile : ∀ f, g.profileAt? p = some f → f.content = .value ∧ f.dependencies = {}

/-- All that reads a cell is dirty. -/
structure Told (g : Graph) (p : Position) : Prop where
  arrow : ∀ q, g.Arrow p q → g.DirtyAt q
  mentions : ∀ q f, g.profileAt? q = some f → f.dependencies.Mentions p → f.dirty = true

/-- The second graph is the first one after changes of some cells: the others keep their vertices, though
they may have become dirty, and read what they did. -/
structure Reworked (P : Position → Prop) (g g' : Graph) : Prop where
  profile : ∀ q f, ¬P q → g.profileAt? q = some f →
    ∃ b, (f.dirty = true → b = true) ∧ g'.profileAt? q = some { f with dirty := b }
  fresh : ∀ q, ¬P q → g.profileAt? q = none → g'.Idle q
  arrow : ∀ x q, ¬P q → g.Arrow x q → g'.Arrow x q
  arrow_new : ∀ x q, ¬P q → g'.Arrow x q → g.Arrow x q ∨
    (P x ∨ g.profileAt? x = none) ∧ ∃ f, g'.profileAt? q = some f ∧ f.dependencies.Mentions x

namespace Reworked

theorem refl (P : Position → Prop) (hwell : g.WellFormed) : Reworked P g g where
  profile q f _ hf := ⟨f.dirty, id, hf⟩
  fresh q _ hnone := by
    refine ⟨fun x ha => ?_, fun f hf => ?_⟩
    · obtain ⟨f, hf⟩ := hwell.arrow_target ha
      rw [hnone] at hf
      cases hf
    · rw [hnone] at hf
      cases hf
  arrow _ _ _ ha := ha
  arrow_new _ _ _ ha := .inl ha

theorem mono {P' : Position → Prop} (h : Reworked P g g') (hP : ∀ q, P q → P' q) : Reworked P' g g' where
  profile q f hq hf := h.profile q f (fun hc => hq (hP q hc)) hf
  fresh q hq hnone := h.fresh q (fun hc => hq (hP q hc)) hnone
  arrow x q hq ha := h.arrow x q (fun hc => hq (hP q hc)) ha
  arrow_new x q hq ha :=
    (h.arrow_new x q (fun hc => hq (hP q hc)) ha).imp_right fun hm => ⟨hm.1.imp_left (hP x), hm.2⟩

/-- The vertices of other cells come from the first graph, or calculate nothing. -/
theorem profile_cases (h : Reworked P g g') (hq : ¬P q) (hf : g'.profileAt? q = some f) :
    (∃ f₀, g.profileAt? q = some f₀ ∧ f.content = f₀.content ∧ f.dependencies = f₀.dependencies ∧
      f.rebuilds = f₀.rebuilds ∧ (f₀.dirty = true → f.dirty = true)) ∨
    g.profileAt? q = none ∧ f.content = .value ∧ f.dependencies = {} := by
  cases hf₀ : g.profileAt? q with
  | none => exact .inr ⟨rfl, (h.fresh q hq hf₀).profile f hf⟩
  | some f₀ =>
    obtain ⟨b, hb, hf'⟩ := h.profile q f₀ hq hf₀
    rw [hf] at hf'
    cases hf'
    exact .inl ⟨f₀, rfl, rfl, rfl, rfl, hb⟩

/-- What calculates nothing still does not, unless its cell is one of those that have been changed. -/
theorem idle (h : Reworked P g g') (hidle : g.Idle q) (hq : ¬P q) : g'.Idle q := by
  cases hf₀ : g.profileAt? q with
  | none => exact h.fresh q hq hf₀
  | some f₀ =>
    obtain ⟨hcontent, hnone⟩ := hidle.profile f₀ hf₀
    obtain ⟨b, -, hf'⟩ := h.profile q f₀ hq hf₀
    refine ⟨fun x ha => ?_, fun f hf => ?_⟩
    · rcases h.arrow_new x q hq ha with ha | ⟨-, f, hf, hm⟩
      · exact hidle.arrow x ha
      · rw [hf'] at hf
        cases hf
        exact Dependencies.not_mentions_empty (hnone ▸ hm : Dependencies.Mentions {} x)
    · rw [hf'] at hf
      cases hf
      exact ⟨hcontent, hnone⟩

theorem trans {g₁ g₂ g₃ : Graph} (h : Reworked P g₁ g₂) (h' : Reworked P g₂ g₃) : Reworked P g₁ g₃ where
  profile q f hq hf := by
    obtain ⟨b, hb, hf'⟩ := h.profile q f hq hf
    obtain ⟨b', hb', hf''⟩ := h'.profile q _ hq hf'
    exact ⟨b', fun hd => hb' (hb hd), hf''⟩
  fresh q hq hnone := h'.idle (h.fresh q hq hnone) hq
  arrow x q hq ha := h'.arrow x q hq (h.arrow x q hq ha)
  arrow_new x q hq ha := by
    rcases h'.arrow_new x q hq ha with ha | ⟨hx, hm⟩
    · rcases h.arrow_new x q hq ha with ha | ⟨hx, f, hf, hm⟩
      · exact .inl ha
      · obtain ⟨b, -, hf'⟩ := h'.profile q f hq hf
        exact .inr ⟨hx, _, hf', hm⟩
    · refine .inr ⟨?_, hm⟩
      by_cases hP : P x
      · exact .inl hP
      · refine .inr ?_
        cases hx₀ : g₁.profileAt? x with
        | none => rfl
        | some f =>
          obtain ⟨b, -, hf⟩ := h.profile x f hP hx₀
          rw [hx.resolve_left hP] at hf
          cases hf

theorem dirtyAt (h : Reworked P g g') (hq : ¬P q) (hd : g.DirtyAt q) : g'.DirtyAt q := by
  obtain ⟨f, hf, hd⟩ := hd
  obtain ⟨b, hb, hf'⟩ := h.profile q f hq hf
  exact ⟨_, hf', hb hd⟩

/-- All that reads a cell stays dirty, as long as the changed cells are dirty, too, or idle. -/
theorem told (h : Reworked P g g') (htold : g.Told x) (hP : ∀ q, P q → g'.DirtyAt q ∨ g'.Idle q) :
    g'.Told x := by
  have hmentions (q : Position) (f : Profile) (hf : g'.profileAt? q = some f) (hm : f.dependencies.Mentions x) :
      f.dirty = true := by
    by_cases hq : P q
    · rcases hP q hq with ⟨f', hf', hd⟩ | hidle
      · rw [hf] at hf'
        cases hf'
        exact hd
      · rw [(hidle.profile f hf).2] at hm
        exact absurd hm Dependencies.not_mentions_empty
    · rcases h.profile_cases hq hf with ⟨f₀, hf₀, -, hdeps, -, hd⟩ | ⟨-, -, hnone⟩
      · exact hd (htold.mentions q f₀ hf₀ (hdeps ▸ hm))
      · rw [hnone] at hm
        exact absurd hm Dependencies.not_mentions_empty
  refine ⟨fun q ha => ?_, hmentions⟩
  by_cases hq : P q
  · exact (hP q hq).resolve_right fun hidle => hidle.arrow x ha
  · rcases h.arrow_new x q hq ha with ha | ⟨-, f, hf, hm⟩
    · exact h.dirtyAt hq (htold.arrow q ha)
    · exact ⟨f, hf, hmentions q f hf hm⟩

end Reworked

/-- All that reads a dirty vertex is dirty. -/
theorem Orderly.told (h : g.Orderly) (hd : g.DirtyAt p) : g.Told p where
  arrow _ ha := h.closed.arrow h.toWellFormed hd ha
  mentions q f hf hm := by
    have hp : g.profileAt? p ≠ none := by
      obtain ⟨f', hf', -⟩ := hd
      rw [hf']
      exact Option.some_ne_none f'
    obtain ⟨f', hf', hd'⟩ := h.closed.arrow h.toWellFormed hd (h.wired.arrow h.toWellFormed hf hm hp)
    rw [hf] at hf'
    cases hf'
    exact hd'

/-! ### Marking -/

theorem Marks.profileAt? (h : Marks g g') (p : Position) :
    g'.profileAt? p = g.profileAt? p ∨
      ∃ f, g.profileAt? p = some f ∧ g'.profileAt? p = some { f with dirty := true } := by
  rw [Graph.profileAt?, Graph.profileAt?, h.slot?]
  cases g.slot? p with
  | none => exact .inl rfl
  | some i =>
    simp only [Option.bind_some, profile?]
    rcases h.vertex i with hsame | ⟨v, hv, hmark⟩
    · exact .inl (by rw [hsame])
    · exact .inr ⟨v.profile, by rw [hv, Option.map_some], by rw [hmark, Option.map_some]; rfl⟩

theorem Marks.arrow_iff (h : Marks g g') : g'.Arrow p q ↔ g.Arrow p q :=
  arrow_congr h.slot? fun _ _ => h.edge_iff

theorem Marks.reworked (h : Marks g g') (hwell : g.WellFormed) (P : Position → Prop) : Reworked P g g' where
  profile q f _ hf := by
    rcases h.profileAt? q with hsame | ⟨f', hf', hmark⟩
    · exact ⟨f.dirty, id, by rw [hsame, hf]⟩
    · rw [hf] at hf'
      cases hf'
      exact ⟨true, fun _ => rfl, hmark⟩
  fresh q hq hnone := by
    have hnone' : g'.profileAt? q = none := by
      rcases h.profileAt? q with hsame | ⟨f, hf, -⟩
      · rw [hsame, hnone]
      · rw [hnone] at hf
        cases hf
    exact ((Reworked.refl P (h.wellFormed hwell)).fresh q hq hnone')
  arrow _ _ _ ha := h.arrow_iff.2 ha
  arrow_new _ _ _ ha := .inl (h.arrow_iff.1 ha)

theorem Firm.marks (h : g.Firm) (hmarks : Marks g g') : g'.Firm where
  toSound := h.toSound.marks hmarks
  wired := h.wired.marks hmarks

theorem Orderly.marks (h : g.Orderly) (hmarks : Marks g g') (hclosed : g'.Closed) : g'.Orderly where
  toFirm := h.toFirm.marks hmarks
  closed := hclosed
  marked_dirty i hi := ((hmarks.marked i).1 hi).elim (fun hi => hmarks.isDirty (h.marked_dirty i hi)) And.left

theorem Firm.setDirty (h : g.Firm) (p : Position) : (g.setDirty p).Firm := h.marks (marks_setDirty g p)

theorem Orderly.setDirty (h : g.Orderly) (p : Position) : (g.setDirty p).Orderly :=
  h.marks (marks_setDirty g p) (h.closed.setDirty h.linked p)

/-- After a cell has been marked all that reads it is dirty, and so is its vertex. -/
theorem Orderly.dirtyAt_setDirty (h : g.Orderly) (hp : g.slot? p = some i) : (g.setDirty p).DirtyAt p := by
  have hmarks := marks_setDirty g p
  obtain ⟨v, hv, -⟩ := h.vertex_of_slot? hp
  rw [(hmarks.wellFormed h.toWellFormed).dirtyAt_iff ((hmarks.slot? p).trans hp)]
  exact isDirty_setDirty ⟨v, hv⟩ (.inl hp)

theorem Orderly.told_setDirty (h : g.Orderly) (p : Position) : (g.setDirty p).Told p := by
  have hmarks := marks_setDirty g p
  have horderly := h.setDirty p
  cases hp : g.slot? p with
  | some i => exact horderly.told (h.dirtyAt_setDirty hp)
  | none =>
    have hp' : (g.setDirty p).slot? p = none := (hmarks.slot? p).trans hp
    refine ⟨fun q ha => ?_, fun q f hf hm => ?_⟩
    · obtain ⟨i, -, hi, -⟩ := ha
      rw [hp'] at hi
      cases hi
    · obtain ⟨j, w, hq, hw, -, rfl⟩ := horderly.exists_vertex hf
      rcases horderly.wired.listens horderly.toWellFormed hq hf hm with ⟨i, hi⟩ | hlisten
      · rw [hp'] at hi
        cases hi
      · have hlisten' : j ∈ g.listenersOf p := by
          rwa [listenersOf, hmarks.listeners] at hlisten
        exact (isDirty_iff_of_vertex? hw).1 (isDirty_setDirty (hmarks.live_iff.1 ⟨w, hw⟩) (.inr hlisten'))

end Spreadsheet.Graph
