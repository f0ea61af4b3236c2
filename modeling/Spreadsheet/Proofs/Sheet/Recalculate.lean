import Spreadsheet.Proofs.Graph.Gaps
import Spreadsheet.Proofs.Graph.Reachable
import Spreadsheet.Proofs.Sheet.Pass

/-!
Recalculation. A pass keeps a sheet faithful, wherever it is cut short. One that is not cut short takes a coherent
sheet to a coherent sheet in which no vertex is dirty, so that every formula is settled, and it does so even after
passes that have been cut short, as long as nothing has been edited since.
-/

namespace Spreadsheet

open Spreadsheet.Graph Relation

namespace Graph

variable {g : Graph} {p q x : Position}

/-! ### The beginning and the end of a pass -/

theorem Firm.forget (h : g.Firm) : Firm { g with volatiles := [] } :=
  { place := h.place, free := h.free, free_nodup := h.free_nodup, linked := h.linked, cycles := h.cycles,
    noted := h.noted, wired := ⟨h.wired.edge, h.wired.cells, h.wired.listeners, h.wired.dead⟩ }

theorem Firm.markVolatile (h : g.Firm) : g.markVolatile.Firm := h.forget.marks (marks_markVolatile g)

theorem Orderly.markVolatile (h : g.Orderly) : g.markVolatile.Orderly := by
  have hforget : Orderly { g with volatiles := [] } := ⟨h.toFirm.forget, h.closed, h.marked_dirty⟩
  exact hforget.marks (marks_markVolatile g) (hforget.closed.markEach hforget.linked _)

theorem reworked_markVolatile (h : g.WellFormed) (P : Position → Prop) : Reworked P g g.markVolatile := by
  have hsame := Reworked.refl P h
  have hforget : Reworked P g { g with volatiles := [] } :=
    ⟨hsame.profile, fun q hq hnone => ⟨(hsame.fresh q hq hnone).arrow, (hsame.fresh q hq hnone).profile⟩, hsame.arrow,
      hsame.arrow_new⟩
  exact hforget.trans ((marks_markVolatile g).reworked ⟨h.place, h.free, h.free_nodup, h.linked⟩ P)

theorem slot?_rested (g : Graph) (is : List Slot) (p : Position) : (g.rested is).slot? p = g.slot? p := by
  induction is generalizing g with
  | nil => rfl
  | cons i is ih => exact (ih _).trans ((sameFrame_modify g i _).slot? p)

theorem listeners_rested (g : Graph) (is : List Slot) : (g.rested is).listeners = g.listeners := by
  induction is generalizing g with
  | nil => rfl
  | cons i is ih => exact (ih _).trans (listeners_modify ..)

theorem Marks.samePlan {g' : Graph} (h : Marks g g') : SamePlan g g' where
  plan q := by
    rcases h.profileAt? q with hsame | ⟨f, hf, hmark⟩
    · rw [hsame]
    · rw [hf, hmark]
      rfl
  arrow _ _ := h.arrow_iff

section Begin

variable {σ : Type}

theorem slot?_beginPass (g : Graph) (state : σ) (p : Position) : (g.beginPass state).graph.slot? p = g.slot? p :=
  slot?_rested { g with marked := [] } g.marked p

theorem edge_beginPass (g : Graph) (state : σ) {k l : Slot} : (g.beginPass state).graph.Edge k l ↔ g.Edge k l := by
  rw [Edge, Edge, vertex?_beginPass]
  cases g.vertex? k with
  | none => simp
  | some v =>
    simp only [Option.map_some, Option.some.injEq, exists_eq_left']
    split <;> rfl

theorem samePlan_beginPass (g : Graph) (state : σ) : SamePlan g (g.beginPass state).graph where
  plan q := by
    rw [profileAt?, profileAt?, slot?_beginPass]
    cases g.slot? q with
    | none => rfl
    | some k =>
      simp only [Option.bind_some, profile?, vertex?_beginPass]
      cases g.vertex? k with
      | none => rfl
      | some v =>
        simp only [Option.map_some]
        split <;> rfl
  arrow _ _ := arrow_congr (slot?_beginPass g state) fun _ _ => edge_beginPass g state

/-- The replaced dependencies of dirty vertices are counted anew. -/
theorem Noted.profileAt?_beginPass (h : g.Noted) (hdirty : ∀ i ∈ g.marked, g.isDirty i = true) (state : σ)
    (p : Position) : (g.beginPass state).graph.profileAt? p =
      (g.profileAt? p).map fun f => if f.dirty then { f with rebuilds := 0 } else f := by
  rw [profileAt?, profileAt?, slot?_beginPass]
  cases g.slot? p with
  | none => rfl
  | some k =>
    simp only [Option.bind_some, profile?, vertex?_beginPass]
    cases hv : g.vertex? k with
    | none => rfl
    | some v =>
      have hmarked : k ∈ g.marked ↔ v.dirty = true := by
        rw [← isDirty_iff_of_vertex? hv]
        exact ⟨hdirty k, h k⟩
      simp only [Option.map_some, hmarked, Vertex.profile]
      split <;> rfl

theorem Wired.beginPass (h : g.Wired) (state : σ) : (g.beginPass state).graph.Wired := by
  have hreads : (g.beginPass state).graph.reads = g.reads := by
    funext k
    rw [reads, reads, vertex?_beginPass]
    cases g.vertex? k with
    | none => rfl
    | some v =>
      simp only [Option.map_some, Option.getD_some]
      split <;> rfl
  rw [Wired, hreads]
  refine WiredBy.of_edges h (slot?_beginPass g state) (fun _ _ => (edge_beginPass g state).2)
    (listeners_rested { g with marked := [] } g.marked) fun k hk => ?_
  obtain ⟨v, hv⟩ := hk
  rw [Live, vertex?_beginPass, hv]
  exact ⟨_, rfl⟩

end Begin

/-- A graph with no dirty vertex at the end of a pass. -/
theorem orderly_of_clean (hwell : g.WellFormed) (hknown : g.CyclesKnown) (hwired : g.Wired) (hmarked : g.marked = [])
    (hclean : ∀ i, ¬g.isDirty i = true) : g.Orderly where
  toWellFormed := hwell
  cycles := hknown
  noted i hi := absurd hi (hclean i)
  wired := hwired
  closed i _ hi _ := absurd hi (hclean i)
  marked_dirty i hi := by
    rw [hmarked] at hi
    cases hi

end Graph

namespace Sheet

variable {s s' : Sheet} {env : Environment} {p p' : Pass Contents} {q : Position} {uncut : Prop}

theorem Kept.amends_markVolatile (h : s.Kept uncut) :
    Amends uncut s { s with graph := s.graph.markVolatile } := by
  have hedit : Edited uncut (fun _ => False) s { s with graph := s.graph.markVolatile } :=
    ⟨rfl, h.firm.markVolatile, fun hu => (h.orderly hu).markVolatile, reworked_markVolatile h.firm.toWellFormed _,
      fun _ _ => rfl⟩
  exact hedit.amends_of_none

theorem Kept.markVolatile (h : s.Kept uncut) : ({ s with graph := s.graph.markVolatile } : Sheet).Kept uncut :=
  h.amends_markVolatile.kept h

/-! ### Faithful sheets -/

theorem Faithful.beginPass (h : s.Faithful) (hwell : (s.graph.beginPass s.toContents).graph.WellFormed) :
    (s.sheetAt (s.graph.beginPass s.toContents)).Faithful :=
  h.of_samePlan rfl (.refl s.store) hwell (h.wired.beginPass s.toContents) (samePlan_beginPass s.graph s.toContents)

/-- Where a pass is cut short, what is dirty is noted. -/
theorem Faithful.cut (h : (env.sheetAt p).Faithful) : (env.sheetAt p.cut).Faithful := by
  have hwell := h.wellFormed
  have hwired := h.wired
  exact h.of_samePlan rfl (.refl _) ⟨hwell.place, hwell.free, hwell.free_nodup, hwell.linked⟩
    ⟨hwired.edge, hwired.cells, hwired.listeners, hwired.dead⟩ ⟨fun _ => rfl, fun _ _ => Iff.rfl⟩

theorem Faithful.run (h : (env.sheetAt p).Faithful) (hu : p.Underway) (steps : Nat) :
    (env.sheetAt (p.run env.handler env.settings.limits.rebuilds steps)).Faithful ∧
      p.state.store.Alike (p.run env.handler env.settings.limits.rebuilds steps).state.store := by
  induction steps generalizing p with
  | zero =>
    unfold Pass.run
    cases p.queue with
    | nil => exact ⟨h, .refl _⟩
    | cons i rest => exact ⟨h.cut, .refl _⟩
  | succ steps ih =>
    unfold Pass.run
    cases hq : p.queue with
    | nil => exact ⟨h, .refl _⟩
    | cons i rest =>
      obtain ⟨hstep, halike⟩ := Faithful.step (p := p.taken rest) h hu.cycles i
      obtain ⟨hrun, halike'⟩ := ih hstep (hu.step hq env.handler _)
      exact ⟨hrun, halike.trans halike'⟩

/-! ### Passes that follow each other -/

/-- A sheet between two passes that may have been cut short, when nothing has been edited since one that has. What
reads a dirty vertex need not be dirty if it is on a cycle and has failed. -/
structure Paused (s : Sheet) : Prop extends Consistent s where
  firm : s.graph.Firm
  marked_dirty : ∀ i ∈ s.graph.marked, s.graph.isDirty i = true
  flow : ∀ x q, s.graph.Arrow x q → s.graph.DirtyAt x →
    s.graph.DirtyAt q ∨ s.graph.CyclicAt q ∧ s.store.Shows q (s.graph.contentAt q) Pass.failure
  settled : ∀ p f, s.graph.profileAt? p = some f → f.dirty = false → f.content.expression? ≠ none →
    s.Settled s.settings.limits.rebuilds s.graph s.store p f

theorem Coherent.paused (h : s.Coherent) : s.Paused :=
  ⟨h.toConsistent, h.orderly.toFirm, h.orderly.marked_dirty,
    fun _ _ ha hx => .inl (h.orderly.closed.arrow h.orderly.toWellFormed hx ha), h.settled⟩

namespace Paused

/-- Time passes, and random numbers are drawn. -/
theorem elapse (h : s.Paused) (clock : Clock) (model : Simulation.Model) :
    ({ s with clock, model } : Sheet).Paused := by
  have hfaithful : ({ s with clock, model } : Sheet).Faithful :=
    have hs := h.toFaithful
    ⟨hs.wellFormed, hs.wired, hs.arrayed, hs.exact, hs.informed, hs.straight, hs.tied, hs.arranged, hs.readable⟩
  exact ⟨⟨hfaithful, h.names, h.library⟩, h.firm, h.marked_dirty, h.flow, fun p f hf hclean he =>
    (h.settled p f hf hclean he).timed clock⟩

/-- Marks get everywhere but across the gaps that are there already. -/
theorem markEach (h : s.Paused) (is : List Slot) : ({ s with graph := s.graph.markEach is } : Sheet).Paused := by
  have hmarks : Marks s.graph (s.graph.markEach is) := marks_markEach s.graph is
  have hplan := hmarks.samePlan
  have hfirm := h.firm.marks hmarks
  have hfaithful : ({ s with graph := s.graph.markEach is } : Sheet).Faithful :=
    h.toFaithful.of_samePlan rfl (.refl s.store) hfirm.toWellFormed hfirm.wired hplan
  refine ⟨h.toConsistent.of_faithful rfl hfaithful, hfirm, fun i hi => ?_, fun x q ha hx => ?_,
    fun p f hf hclean he => ?_⟩
  · rcases (hmarks.marked i).1 hi with hi | hi
    · exact hmarks.isDirty (h.marked_dirty i hi)
    · exact hi.1
  · refine or_iff_not_imp_left.2 fun hq => ?_
    obtain ⟨k, l, hk, hl, he⟩ := ha
    have hgap : s.graph.Gap k l := Gap.of_markEach h.firm.linked
      ⟨(hfirm.dirtyAt_iff hk).1 hx, he, fun hd => hq ((hfirm.dirtyAt_iff hl).2 hd)⟩
    rw [hmarks.slot?] at hk hl
    have hcases := h.flow x q ⟨k, l, hk, hl, hgap.edge⟩ ((h.firm.dirtyAt_iff hk).2 hgap.dirty)
    obtain ⟨hcyclic, hshows⟩ := hcases.resolve_left fun hd => hgap.clean ((h.firm.dirtyAt_iff hl).1 hd)
    refine ⟨TransGen.mono (fun _ _ => hmarks.arrow_iff.2) _ _ hcyclic, ?_⟩
    rw [show (s.graph.markEach is).contentAt q = s.graph.contentAt q from hplan.contentAt q]
    exact hshows
  · rcases hmarks.profileAt? p with hsame | ⟨f₀, -, hmark⟩
    · exact (h.settled p f (hsame.symm.trans hf) hclean he).congr hplan.arrow_eq (funext hplan.contentAt)
    · rw [show (s.graph.markEach is).profileAt? p = some f from hf] at hmark
      cases hmark
      cases hclean

theorem markVolatile (h : s.Paused) : ({ s with graph := s.graph.markVolatile } : Sheet).Paused := by
  have hforget : ({ s with graph := { s.graph with volatiles := [] } } : Sheet).Paused := by
    have hfirm := h.firm.forget
    have hfaithful : ({ s with graph := { s.graph with volatiles := [] } } : Sheet).Faithful :=
      h.toFaithful.of_samePlan rfl (.refl s.store) hfirm.toWellFormed hfirm.wired ⟨fun _ => rfl, fun _ _ => Iff.rfl⟩
    exact ⟨h.toConsistent.of_faithful rfl hfaithful, hfirm, h.marked_dirty, h.flow, fun p f hf hclean he =>
      (h.settled p f hf hclean he).congr rfl rfl⟩
  exact hforget.markEach s.graph.volatiles

/-- The beginning of a pass. -/
theorem midway (h : s.Paused) : (s.sheetAt (s.graph.beginPass s.toContents)).Midway := by
  have hplan := samePlan_beginPass s.graph s.toContents
  have hprofile := h.firm.noted.profileAt?_beginPass h.marked_dirty s.toContents
  have hback {q : Position} {f : Profile} (hf : (s.graph.beginPass s.toContents).graph.profileAt? q = some f) :
      s.graph.profileAt? q = some f ∧ f.dirty = false ∨
        ∃ f₀, s.graph.profileAt? q = some f₀ ∧ f₀.dirty = true ∧ f = { f₀ with rebuilds := 0 } := by
    rw [hprofile] at hf
    obtain ⟨f₀, hf₀, rfl⟩ := Option.map_eq_some_iff.1 hf
    cases hd : f₀.dirty with
    | false => exact .inl ⟨by simpa [hd] using hf₀, by simp [hd]⟩
    | true => exact .inr ⟨f₀, hf₀, hd, by simp [hd]⟩
  have hdirty {q : Position} : (s.graph.beginPass s.toContents).graph.DirtyAt q ↔ s.graph.DirtyAt q := by
    rw [DirtyAt, DirtyAt, hprofile]
    cases s.graph.profileAt? q with
    | none => simp
    | some f =>
      simp only [Option.map_some, Option.some.injEq, exists_eq_left']
      split <;> rfl
  have hfaithful := h.toFaithful.beginPass (h.firm.toSound.underway s.toContents).wellFormed
  refine ⟨h.toConsistent.of_faithful rfl hfaithful, fun q f hf hd => ?_, fun x q ha hx => ?_,
    fun q f hf hclean he => ?_⟩
  · rcases hback hf with ⟨-, hclean⟩ | ⟨f₀, -, -, rfl⟩
    · rw [hclean] at hd
      cases hd
    · exact Nat.zero_le _
  · change (s.graph.beginPass s.toContents).graph.Arrow x q at ha
    rw [hplan.arrow] at ha
    rcases h.flow x q ha (hdirty.1 hx) with hq | ⟨hcyclic, hshows⟩
    · exact .inl (hdirty.2 hq)
    · exact .inr ⟨TransGen.mono (fun _ _ => (hplan.arrow _ _).2) _ _ hcyclic, (hplan.contentAt q).symm ▸ hshows⟩
  · rcases hback hf with ⟨hf, -⟩ | ⟨f₀, -, hd, rfl⟩
    · exact (h.settled q f hf hclean he).congr hplan.arrow_eq (funext hplan.contentAt)
    · rw [show ({ f₀ with rebuilds := 0 } : Profile).dirty = f₀.dirty from rfl, hd] at hclean
      cases hclean

end Paused

theorem Midway.leads {moments : List (Pass Contents × Slot)} (h : (env.sheetAt p).Midway) (hu : p.Underway)
    (hl : Pass.Leads env.handler env.settings.limits.rebuilds p moments p') : (env.sheetAt p').Midway := by
  induction hl with
  | stop => exact h
  | @look p p' i rest moments hq hrest ih =>
    exact ih (Midway.step (p := p.taken rest) h hu.cycles i) (hu.step hq env.handler _)

/-- The end of a pass. -/
theorem Midway.coherent (h : (env.sheetAt p).Midway) (hu : p.Underway) (hq : p.queue = []) :
    (env.sheetAt p).Coherent :=
  ⟨h.toConsistent, orderly_of_clean hu.wellFormed hu.cycles h.wired hu.marked (hu.clean hq), h.settled⟩

/-- The end of a pass that is cut short. -/
theorem Midway.cut (h : (env.sheetAt p).Midway) (hu : p.Underway) : (env.sheetAt p.cut).Paused := by
  have hfaithful := h.toFaithful.cut
  exact ⟨h.toConsistent.of_faithful rfl hfaithful, ⟨hu.sound_cut, hfaithful.wired⟩,
    fun i hi => (List.mem_filter.1 hi).2, h.flow, fun q f hf hclean he =>
      (h.settled q f hf hclean he).congr rfl rfl⟩

namespace Paused

/-- A pass that is not cut short makes a sheet coherent and leaves no vertex dirty. -/
theorem coherent_recalculate (h : s.Paused) (hcut : s.recalculate.1.truncated = false) :
    s.recalculate.2.Coherent ∧ ∀ q, ¬s.recalculate.2.graph.DirtyAt q := by
  have hu := h.markVolatile.firm.toSound.underway s.toContents
  obtain ⟨moments, hr⟩ := Pass.runs_run hcut
  have hend := hr.underway hu
  have hmidway := Midway.leads h.markVolatile.midway hu hr.leads
  refine ⟨hmidway.coherent hend hr.queue, fun q hd => ?_⟩
  obtain ⟨f, hf, hd⟩ := hd
  obtain ⟨i, v, -, hv, -, rfl⟩ := hend.wellFormed.exists_vertex hf
  exact hend.clean hr.queue i (isDirty_iff.2 ⟨v, hv, hd⟩)

/-- Passes can be cut short one after the other. -/
theorem recalculate (h : s.Paused) : s.recalculate.2.Paused := by
  have hu := h.markVolatile.firm.toSound.underway s.toContents
  obtain ⟨moments, p, hl, hend⟩ := Pass.leads_run s.handler s.settings.limits.rebuilds s.settings.limits.steps
    (s.graph.markVolatile.beginPass s.toContents)
  have hmidway := Midway.leads h.markVolatile.midway hu hl
  have hp := hl.underway hu
  rcases hend with ⟨hq, -, hrun⟩ | ⟨-, -, hrun⟩
  · have hs : s.recalculate.2 = s.sheetAt p := congrArg s.sheetAt hrun
    exact hs ▸ (hmidway.coherent hp hq).paused
  · have hs : s.recalculate.2 = s.sheetAt p.cut := congrArg s.sheetAt hrun
    exact hs ▸ hmidway.cut hp

end Paused

/-! ### Coherent sheets -/

theorem Coherent.midway (h : s.Coherent) : (s.sheetAt (s.graph.beginPass s.toContents)).Midway := h.paused.midway

/-- A pass that is not cut short keeps a sheet coherent and leaves no vertex dirty. -/
theorem Coherent.recalculate (h : s.Coherent) (hcut : s.recalculate.1.truncated = false) :
    s.recalculate.2.Coherent ∧ ∀ q, ¬s.recalculate.2.graph.DirtyAt q :=
  h.paused.coherent_recalculate hcut

/-- A pass keeps a sheet faithful, and coherent if none is cut short. -/
theorem Kept.recalculate (h : s.Kept uncut) (hcut : uncut → s.recalculate.1.truncated = false) :
    s.recalculate.2.Kept uncut := by
  have hmark := h.markVolatile
  have hu := hmark.firm.toSound.underway s.toContents
  have hfaithful : s.recalculate.2.Faithful :=
    ((hmark.faithful.beginPass hu.wellFormed).run hu s.settings.limits.steps).1
  refine ⟨hfaithful, ⟨?_, hfaithful.wired⟩, fun huncut => ((h.coherent huncut).recalculate (hcut huncut)).1⟩
  exact hmark.firm.toSound.recalculate s.handler s.settings.limits s.toContents

/-- A pass changes results only. -/
theorem Kept.alike_recalculate (h : s.Kept uncut) : s.store.Alike s.recalculate.2.store := by
  have hmark := h.markVolatile
  have hu := hmark.firm.toSound.underway s.toContents
  exact ((hmark.faithful.beginPass hu.wellFormed).run hu s.settings.limits.steps).2

end Sheet

end Spreadsheet
