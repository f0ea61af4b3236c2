import Spreadsheet.Proofs.Graph.Install
import Spreadsheet.Proofs.Sheet.Faithful

/-!
Sheets in a pass. In the middle of a pass a clean vertex that reads a dirty one is on a cycle and has failed.
The two things that a pass does keep this so: a vertex is settled, or what it reads is replaced.
-/

namespace Spreadsheet

open Spreadsheet.Graph Relation

/-! ### Results in cells -/

namespace Store

variable {store store' : Store} {p q : Position} {content : Vertex.Content} {x : Value}

/-- The second store is the first one after the cells of a vertex have been made to show a result. -/
structure Delivered (p : Position) (content : Vertex.Content) (x : Value) (store store' : Store) : Prop where
  alike : store.Alike store'
  other : ∀ q, ¬content.Fills p q → store'.cell? q = store.cell? q
  shows : store'.Shows p content x

end Store

namespace Sheet

variable {s s' : Sheet} {p q r x y : Position} {f f' : Profile} {v : Value}

/-! ### In the middle of a pass -/

/-- A sheet in the middle of a pass. -/
structure Midway (s : Sheet) : Prop extends Consistent s where
  bounded : ∀ q f, s.graph.profileAt? q = some f → f.dirty = true → f.rebuilds ≤ s.settings.limits.rebuilds
  /-- What reads a dirty vertex is dirty, unless it is on a cycle and has failed. -/
  flow : ∀ x q, s.graph.Arrow x q → s.graph.DirtyAt x →
    s.graph.DirtyAt q ∨ s.graph.CyclicAt q ∧ s.store.Shows q (s.graph.contentAt q) Pass.failure
  settled : ∀ q f, s.graph.profileAt? q = some f → f.dirty = false → f.content.expression? ≠ none →
    s.Settled s.settings.limits.rebuilds s.graph s.store q f

end Sheet

namespace Graph

variable {g g' : Graph} {p q r x y : Position} {f f' : Profile}

/-- The second graph is the first one after the vertex of a cell has been settled. -/
structure SettledAt (r : Position) (f f' : Profile) (g g' : Graph) : Prop where
  before : g.profileAt? r = some f
  after : g'.profileAt? r = some f'
  content : f'.content = f.content
  dependencies : f'.dependencies = f.dependencies
  clean : f'.dirty = false
  other : ∀ q, q ≠ r → g'.profileAt? q = g.profileAt? q
  arrow : ∀ x q, g'.Arrow x q ↔ g.Arrow x q

namespace SettledAt

theorem samePlan (h : SettledAt r f f' g g') : SamePlan g g' where
  plan q := by
    by_cases hq : q = r
    · rw [hq, h.after, h.before, Option.map_some, Option.map_some, Profile.plan, Profile.plan, h.content,
        h.dependencies]
    · rw [h.other q hq]
  arrow := h.arrow

theorem contentAt (h : SettledAt r f f' g g') (q : Position) : g'.contentAt q = g.contentAt q := h.samePlan.contentAt q

theorem arrow_eq (h : SettledAt r f f' g g') : g'.Arrow = g.Arrow := h.samePlan.arrow_eq

theorem cyclicAt_iff (h : SettledAt r f f' g g') : g'.CyclicAt q ↔ g.CyclicAt q := by
  rw [CyclicAt, CyclicAt, h.arrow_eq]

theorem bypassed_iff (h : SettledAt r f f' g g') : g'.Bypassed q ↔ g.Bypassed q := by
  rw [Bypassed, Bypassed, h.arrow_eq]

theorem readsCyclicValue_iff (h : SettledAt r f f' g g') : g'.ReadsCyclicValue q ↔ g.ReadsCyclicValue q := by
  simp only [ReadsCyclicValue, h.arrow, h.contentAt, h.cyclicAt_iff]

theorem dirtyAt (h : SettledAt r f f' g g') (hd : g'.DirtyAt q) : q ≠ r ∧ g.DirtyAt q := by
  obtain ⟨c, hc, hd⟩ := hd
  have hq : q ≠ r := by
    rintro rfl
    rw [h.after] at hc
    cases hc
    rw [h.clean] at hd
    cases hd
  exact ⟨hq, c, (h.other q hq).symm.trans hc, hd⟩

end SettledAt

theorem not_dirtyAt_of_clean (hf : g.profileAt? q = some f) (hclean : f.dirty = false) : ¬g.DirtyAt q := by
  rintro ⟨f', hf', hd⟩
  rw [hf] at hf'
  cases hf'
  rw [hclean] at hd
  cases hd

end Graph

namespace Sheet

variable {s s' : Sheet} {p q r x y : Position} {f f' : Profile} {v : Value}

namespace Midway

/-- A vertex that reads a cell which shows the result of another vertex reads this one, or takes the value
of a cell of its array. -/
theorem source_of_fills (h : s.Midway) (hf : s.graph.profileAt? q = some f) (hm : f.dependencies.Mentions x)
    (hfills : (s.graph.contentAt r).Fills r x) :
    s.graph.Arrow r q ∨ s.graph.Arrow r x ∧ s.graph.Arrow x q ∧ s.graph.contentAt x = .value := by
  have hr : s.graph.profileAt? r ≠ none := by
    intro hnone
    rw [Graph.contentAt, hnone] at hfills
    cases hfills
  by_cases hxr : x = r
  · subst hxr
    exact .inl (h.wired.arrow h.wellFormed hf hm hr)
  · refine .inr ?_
    have hmem : x ∈ (s.graph.contentAt r).members := by
      cases hcontent : s.graph.contentAt r with
      | value =>
        rw [hcontent] at hfills
        cases hfills
      | formula e =>
        rw [hcontent] at hfills
        exact absurd hfills hxr
      | array e a =>
        rw [hcontent] at hfills
        exact hfills
    have harrow := h.arrayed r x hmem hxr
    have hx : s.graph.profileAt? x ≠ none := by
      obtain ⟨f', hf'⟩ := h.wellFormed.arrow_target harrow
      rw [hf']
      exact Option.some_ne_none f'
    refine ⟨harrow, h.wired.arrow h.wellFormed hf hm hx, ?_⟩
    by_contra hcontent
    have hexpr : ∃ e, (s.contentAt x).expression? = some e := by
      rw [h.tied] at hcontent
      cases hc : s.contentAt x with
      | value => exact absurd hc hcontent
      | formula e => exact ⟨e, rfl⟩
      | array e a => exact ⟨e, rfl⟩
    obtain ⟨e, he⟩ := hexpr
    rw [h.tied] at hmem
    exact hxr (eq_of_mem_members h.arranged he hmem).symm

/-! ### Settling a vertex -/

/-- What a clean vertex shows and reads is kept when the cells of another one, which has been dirty, show its result,
unless the clean one has failed on a cycle or reads a value that is on one. -/
theorem apart (h : s.Midway) (hg : SettledAt r f f' s.graph s'.graph) (hd : f.dirty = true)
    (hstore : Store.Delivered r f.content v s.store s'.store) {c : Profile} (hqr : q ≠ r)
    (hc : s.graph.profileAt? q = some c) (hclean : c.dirty = false) :
    (∀ x, c.content.Fills q x → s'.store.read x = s.store.read x) ∧
      (s.graph.CyclicAt q ∧ s.store.Shows q c.content Pass.failure ∨ s.graph.ReadsCyclicValue q ∨
        ∀ x, c.dependencies.Mentions x → s.store.AgreeAt s'.store x) := by
  have hr : s.graph.contentAt r = f.content := contentAt_of_profileAt? hg.before
  have hq : s.graph.contentAt q = c.content := contentAt_of_profileAt? hc
  have hdirty : s.graph.DirtyAt r := ⟨f, hg.before, hd⟩
  have hflow {x : Position} (ha : s.graph.Arrow x q) (hx : s.graph.DirtyAt x) :
      s.graph.CyclicAt q ∧ s.store.Shows q c.content Pass.failure := by
    rw [← hq]
    exact (h.flow x q ha hx).resolve_left (not_dirtyAt_of_clean hc hclean)
  refine ⟨fun x hx => Store.read_eq_of_cell? (hstore.other x fun hrx => hqr ?_), ?_⟩
  · rw [← hq] at hx
    rw [← hr] at hrx
    exact h.fills_unique hx hrx
  · by_cases hmention : ∃ x, c.dependencies.Mentions x ∧ f.content.Fills r x
    · obtain ⟨x, hm, hfills⟩ := hmention
      rw [← hr] at hfills
      rcases h.source_of_fills hc hm hfills with ha | ⟨hrx, hxq, hvalue⟩
      · exact .inl (hflow ha hdirty)
      · rcases h.flow r x hrx hdirty with hx | ⟨hcycle, -⟩
        · exact .inl (hflow hxq hx)
        · exact .inr (.inl ⟨x, hxq, hvalue, hcycle⟩)
    · refine .inr (.inr fun x hx => ?_)
      exact Store.agreeAt_of_cell? (hstore.other x fun hfills => hmention ⟨x, hx, hfills⟩)

/-- A clean vertex stays settled when the cells of another one, which has been dirty, show its result. -/
theorem settled_other (h : s.Midway) (hg : SettledAt r f f' s.graph s'.graph) (hd : f.dirty = true)
    (hstore : Store.Delivered r f.content v s.store s'.store) {c : Profile} (hqr : q ≠ r)
    (hc : s.graph.profileAt? q = some c) (hclean : c.dirty = false)
    (hs : s.Settled s.settings.limits.rebuilds s.graph s.store q c) :
    s.Settled s.settings.limits.rebuilds s'.graph s'.store q c := by
  obtain ⟨hread, hcells⟩ := h.apart hg hd hstore hqr hc hclean
  cases hs with
  | overrun hlimit hindirect hshows => exact .overrun hlimit hindirect (hshows.congr hread)
  | looped hcycle hshows => exact .looped (hg.cyclicAt_iff.2 hcycle) (hshows.congr hread)
  | calculated hlimit hbypassed hwritten hvalue =>
    have hkeep (hvalue : s.graph.ReadsCyclicValue q ∨ s.Derived s'.store q c) :
        s.Settled s.settings.limits.rebuilds s'.graph s'.store q c := by
      refine .calculated hlimit (fun hc => hg.bypassed_iff.2 (hbypassed (hg.cyclicAt_iff.1 hc))) ?_
        (hvalue.imp_left hg.readsCyclicValue_iff.2)
      rwa [show s'.graph.contentAt = s.graph.contentAt from funext hg.contentAt]
    rcases hcells with ⟨hcycle, hshows⟩ | hreads | hagree
    · exact .looped (hg.cyclicAt_iff.2 hcycle) (hshows.congr hread)
    · exact hkeep (.inl hreads)
    · exact hkeep (hvalue.imp_right (·.congr hread hagree))

/-- Settling a vertex, either because it is on a cycle or when its inputs are clean. -/
theorem settle (h : s.Midway) (henv : s'.toEnvironment = s.toEnvironment) (hfaithful : s'.Faithful)
    (hg : SettledAt r f f' s.graph s'.graph) (hd : f.dirty = true)
    (hstore : Store.Delivered r f.content v s.store s'.store)
    (hready : s.graph.CyclicAt r ∧ v = Pass.failure ∨ ∀ y, s.graph.Arrow y r → ¬s.graph.DirtyAt y)
    (hself : f.content.expression? ≠ none →
      s.Settled s.settings.limits.rebuilds s'.graph s'.store r f') : s'.Midway := by
  have hcontent := hg.contentAt
  have hr : s.graph.contentAt r = f.content := contentAt_of_profileAt? hg.before
  refine ⟨h.toConsistent.of_faithful henv hfaithful, fun q c hc hdirty => ?_, fun x q ha hx => ?_,
    fun q c hc hclean he => ?_⟩
  · rw [henv]
    obtain ⟨hq, -⟩ := hg.dirtyAt ⟨c, hc, hdirty⟩
    exact h.bounded q c ((hg.other q hq).symm.trans hc) hdirty
  · rw [hg.arrow] at ha
    obtain ⟨-, hx⟩ := hg.dirtyAt hx
    rw [hcontent, hg.cyclicAt_iff]
    by_cases hq : q = r
    · subst hq
      rcases hready with ⟨hcycle, rfl⟩ | hinputs
      · rw [hr]
        exact .inr ⟨hcycle, hstore.shows⟩
      · exact absurd hx (hinputs x ha)
    · rcases h.flow x q ha hx with ⟨c, hc, hdirty⟩ | ⟨hcycle, hshows⟩
      · exact .inl ⟨c, (hg.other q hq).trans hc, hdirty⟩
      · refine .inr ⟨hcycle, hshows.congr fun y hy => ?_⟩
        refine Store.read_eq_of_cell? (hstore.other y fun hry => hq ?_)
        rw [← hr] at hry
        exact h.fills_unique hy hry
  · rw [henv]
    by_cases hq : q = r
    · subst hq
      rw [hg.after] at hc
      cases hc
      exact hself (hg.content ▸ he)
    · rw [hg.other q hq] at hc
      exact h.settled_other hg hd hstore hq hc hclean (h.settled q c hc hclean he)

end Midway

end Sheet

/-! ### Replacing what a vertex reads -/

namespace Graph

variable {g g' : Graph} {p q r x y : Position} {f f' : Profile} {d : Dependencies}

/-- The second graph is the first one after the dependencies of the vertex of a cell have been replaced. -/
structure RewiredAt (r : Position) (f : Profile) (d : Dependencies) (g g' : Graph) : Prop where
  before : g.profileAt? r = some f
  after : g'.profileAt? r = some { f with dependencies := d, rebuilds := f.rebuilds + 1 }
  alters : Alters r (fun _ _ => False) g g'
  asked : ∀ x, g'.Arrow x r → d.Mentions x

namespace RewiredAt

theorem contentAt (h : RewiredAt r f d g g') (q : Position) : g'.contentAt q = g.contentAt q := by
  by_cases hq : q = r
  · rw [hq, contentAt_of_profileAt? h.after, contentAt_of_profileAt? h.before]
  · cases hc : g.profileAt? q with
    | some c => rw [contentAt_of_profileAt? (h.alters.other q c hq hc), contentAt_of_profileAt? hc]
    | none =>
      cases hc' : g'.profileAt? q with
      | none => rw [Graph.contentAt, Graph.contentAt, hc', hc]
      | some c =>
        obtain rfl := h.alters.fresh q c hq hc hc'
        rw [contentAt_of_profileAt? hc', Graph.contentAt, hc]
        rfl

theorem exact (h : RewiredAt r f d g g') (hg : g.Exact) : g'.Exact := by
  intro x q ha
  by_cases hq : q = r
  · subst hq
    exact .inl ⟨_, h.after, h.asked x ha⟩
  have hmentions (hm : ∃ c, g.profileAt? q = some c ∧ c.dependencies.Mentions x) : g'.Asked x q := by
    obtain ⟨c, hc, hm⟩ := hm
    exact .inl ⟨c, h.alters.other q c hq hc, hm⟩
  rcases h.alters.arrow_new x q ha with ha | hc | hc | ⟨-, hm⟩
  · rcases hg x q ha with hm | ⟨hmem, hne⟩
    · exact hmentions hm
    · exact .inr ⟨h.contentAt x ▸ hmem, hne⟩
  · exact hc.elim
  · exact absurd hc hq
  · exact hmentions hm

theorem dirtyAt_iff (h : RewiredAt r f d g g') : g'.DirtyAt q ↔ g.DirtyAt q := by
  by_cases hq : q = r
  · subst hq
    simp only [DirtyAt, h.before, h.after, Option.some.injEq, exists_eq_left']
  · constructor
    · rintro ⟨c, hc, hd⟩
      cases hc₀ : g.profileAt? q with
      | none =>
        obtain rfl := h.alters.fresh q c hq hc₀ hc
        cases hd
      | some c₀ =>
        rw [h.alters.other q c₀ hq hc₀] at hc
        cases hc
        exact ⟨_, hc₀, hd⟩
    · rintro ⟨c, hc, hd⟩
      exact ⟨c, h.alters.other q c hq hc, hd⟩

theorem not_fresh (h : RewiredAt r f d g g') (ha : g'.Arrow y x) (hwell : g.WellFormed) : g.profileAt? x ≠ none := by
  have hsome {c : Profile} (hc : g.profileAt? x = some c) : g.profileAt? x ≠ none := by
    rw [hc]
    exact Option.some_ne_none c
  rcases h.alters.arrow_new y x ha with ha | hc | rfl | ⟨-, c, hc, -⟩
  · obtain ⟨c, hc⟩ := hwell.arrow_target ha
    exact hsome hc
  · exact hc.elim
  · exact hsome h.before
  · exact hsome hc

/-- New arrows lead to the vertex, or from vertices that no arrow leads to. -/
theorem arrow_new (h : RewiredAt r f d g g') (hwell : g.WellFormed) (ha : g'.Arrow x q) (hx : ∃ y, g'.Arrow y x) :
    g.Arrow x q ∨ q = r := by
  obtain ⟨y, hy⟩ := hx
  rcases h.alters.arrow_new x q ha with ha | hc | hq | ⟨hnone, -⟩
  · exact .inl ha
  · exact hc.elim
  · exact .inr hq
  · exact absurd hnone (h.not_fresh hy hwell)

variable (h : RewiredAt r f d g g') (hacyclic : ¬g.CyclicAt r)

include h hacyclic

theorem cyclicAt (hq : g.CyclicAt q) : g'.CyclicAt q :=
  TransGen.mono (fun _ _ hxy => h.alters.arrow _ _ hxy.2.2 hxy.1) _ _ (transGen_around hacyclic hq .refl)

/-- Another vertex on a cycle that the given one is not on keeps its cycle. -/
theorem cycle_around (hy : g.CyclicAt y) (hq : ¬g.CyclicAt q) :
    TransGen (fun a b => g'.Arrow a b ∧ a ≠ q ∧ b ≠ q) y y := by
  have haround := transGen_around (r := fun a b => g.Arrow a b ∧ a ≠ q ∧ b ≠ q) (z := r)
    (fun hc => hacyclic (TransGen.mono (fun _ _ hab => hab.1) _ _ hc)) (transGen_around hq hy .refl) .refl
  exact TransGen.mono (fun _ _ hab => ⟨h.alters.arrow _ _ hab.2.2 hab.1.1, hab.1.2⟩) _ _ haround

theorem bypassed (hq : g.Bypassed q) : g'.Bypassed q := by
  obtain ⟨y, hyq, hqy, hcycle⟩ := hq
  refine ⟨y, ?_, ?_, ?_⟩
  · exact TransGen.mono (fun _ _ hab => h.alters.arrow _ _ hab.2.2 hab.1) _ _
      (transGen_around hacyclic hyq hqy.to_reflTransGen)
  · exact TransGen.mono (fun _ _ hab => h.alters.arrow _ _ hab.2.2 hab.1) _ _
      (transGen_around hacyclic hqy hyq.to_reflTransGen)
  · have haround := transGen_around (z := r)
      (fun hc => hacyclic (TransGen.mono (fun _ _ hab => hab.1) _ _ hc)) hcycle .refl
    exact TransGen.mono (fun _ _ hab => ⟨h.alters.arrow _ _ hab.2.2 hab.1.1, hab.1.2⟩) _ _ haround

theorem readsCyclicValue (hq : g.ReadsCyclicValue q) (hqr : q ≠ r) : g'.ReadsCyclicValue q := by
  obtain ⟨m, ha, hvalue, hcycle⟩ := hq
  exact ⟨m, h.alters.arrow m q hqr ha, (h.contentAt m).trans hvalue, h.cyclicAt hacyclic hcycle⟩

/-- A clean vertex that comes to be on a cycle because a dirty one reads something else has another vertex
before it that has been on a cycle before, when clean vertices with dirty inputs are on cycles. -/
theorem bypassed_of_new (hwell : g.WellFormed) (hr : g.DirtyAt r) (hq : ¬g.DirtyAt q) (hold : ¬g.CyclicAt q)
    (hnew : g'.CyclicAt q) (hflow : ∀ x y, g.Arrow x y → g.DirtyAt x → g.DirtyAt y ∨ g.CyclicAt y) :
    g'.Bypassed q := by
  -- the new cycle leads through the vertex that reads something else, and is old from there on
  have hpath : TransGen g'.Arrow q r ∧ TransGen g.Arrow r q := by
    have hentered := transGen_entered (entered_of_cycle hnew) hnew
    rcases transGen_last (s := g.Arrow) (z := r) (fun x y hxy => h.arrow_new hwell hxy.1 hxy.2) hentered with
      hc | ⟨hqr, hrq⟩
    · exact absurd hc hold
    · refine ⟨TransGen.mono (fun _ _ hab => hab.1) _ _ hqr, ?_⟩
      rcases Relation.reflTransGen_iff_eq_or_transGen.1 hrq with heq | hrq
      · rw [heq] at hq
        exact absurd hr hq
      · exact hrq
  obtain ⟨hqr, hrq⟩ := hpath
  obtain ⟨x, y, hx, hxy, hy, hry, hyq⟩ := transGen_enters (U := fun x => ¬g.DirtyAt x) (fun hc => hc hr) hq hrq
  have hcycle : g.CyclicAt y := (hflow x y hxy (Classical.not_not.1 hx)).resolve_left hy
  have hyq : TransGen g.Arrow y q := by
    rcases Relation.reflTransGen_iff_eq_or_transGen.1 hyq with heq | hyq
    · rw [heq] at hold
      exact absurd hcycle hold
    · exact hyq
  have hkept {a b : Position} (hab : TransGen g.Arrow a b) (ha : ¬TransGen g.Arrow a r) : TransGen g'.Arrow a b :=
    TransGen.mono (fun _ _ hxy => h.alters.arrow _ _ hxy.2 hxy.1) _ _ (transGen_unreached ha hab)
  exact ⟨y, hkept hyq fun hyr => hacyclic (hry.trans hyr), hqr.trans (hkept hry hacyclic),
    h.cycle_around hacyclic hcycle hold⟩

end RewiredAt

end Graph

namespace Sheet

variable {s s' : Sheet} {p q r x y : Position} {f : Profile} {d : Dependencies} {e : Expression}

/-- Replacing what a vertex with a formula reads. -/
theorem Faithful.rewire (h : s.Faithful) (henv : s'.toEnvironment = s.toEnvironment) (hwell : s'.graph.WellFormed)
    (hwired : s'.graph.Wired) (hg : RewiredAt r f d s.graph s'.graph) (hstore : s'.store = s.store)
    (he : f.content.expression? = some e) (hwithin : Dependencies.Within (s.dependencies e) d)
    (hindirect : ¬e.Direct s.library) : s'.Faithful := by
  have hcontent := hg.contentAt
  have hr : s.graph.contentAt r = f.content := contentAt_of_profileAt? hg.before
  have halike : s.store.Alike s'.store := by
    rw [hstore]
    exact .refl s.store
  refine h.of_alike henv halike hwell hwired hcontent (fun p q hq hne => ?_) (hg.exact h.exact)
    (fun q c e' hc he' => ?_) fun q c hc => ?_
  · rw [hcontent] at hq
    refine hg.alters.arrow p q ?_ (h.arrayed p q hq hne)
    rintro rfl
    rw [h.tied] at hq hr
    exact hne (eq_of_mem_members h.arranged (hr ▸ he) hq).symm
  · by_cases hq : q = r
    · subst hq
      rw [hg.after] at hc
      cases hc
      rw [he, Option.some.injEq] at he'
      rw [← he']
      exact hwithin
    · cases hc₀ : s.graph.profileAt? q with
      | none =>
        obtain rfl := hg.alters.fresh q c hq hc₀ hc
        cases he'
      | some c₀ =>
        rw [hg.alters.other q c₀ hq hc₀] at hc
        cases hc
        exact h.informed q _ e' hc₀ he'
  · by_cases hq : q = r
    · subst hq
      rw [hg.after] at hc
      cases hc
      exact Environment.straightAt_formula he fun hdirect => absurd hdirect hindirect
    · cases hc₀ : s.graph.profileAt? q with
      | none =>
        obtain rfl := hg.alters.fresh q c hq hc₀ hc
        exact Environment.straightAt_idle rfl rfl
      | some c₀ =>
        rw [hg.alters.other q c₀ hq hc₀] at hc
        cases hc
        exact h.straight q _ hc₀

/-- A clean vertex comes to be on a cycle only through another one that has been on a cycle before. -/
theorem Midway.bypassed_rewire {g' : Graph} (h : s.Midway) (hg : RewiredAt r f d s.graph g') (hd : f.dirty = true)
    (hacyclic : ¬s.graph.CyclicAt r) {c : Profile} (hc : s.graph.profileAt? q = some c) (hclean : c.dirty = false)
    (hbypassed : s.graph.CyclicAt q → s.graph.Bypassed q) (hnew : g'.CyclicAt q) : g'.Bypassed q := by
  by_cases hold : s.graph.CyclicAt q
  · exact hg.bypassed hacyclic (hbypassed hold)
  · exact hg.bypassed_of_new hacyclic h.wellFormed ⟨f, hg.before, hd⟩ (not_dirtyAt_of_clean hc hclean) hold hnew
      fun x y hxy hx => (h.flow x y hxy hx).imp_right And.left

/-- Replacing what a dirty vertex reads that is on no cycle. -/
theorem Midway.rewire (h : s.Midway) (henv : s'.toEnvironment = s.toEnvironment) (hfaithful : s'.Faithful)
    (hg : RewiredAt r f d s.graph s'.graph) (hd : f.dirty = true) (hstore : s'.store = s.store)
    (hacyclic : ¬s.graph.CyclicAt r) (hlimit : f.rebuilds < s.settings.limits.rebuilds) : s'.Midway := by
  have hcontent := hg.contentAt
  have hdirty : s.graph.DirtyAt r := ⟨f, hg.before, hd⟩
  refine ⟨h.toConsistent.of_faithful henv hfaithful, fun q c hc hcd => ?_, fun x q ha hx => ?_,
    fun q c hc hclean hce => ?_⟩
  · rw [henv]
    by_cases hq : q = r
    · subst hq
      rw [hg.after] at hc
      cases hc
      exact hlimit
    · obtain ⟨c₀, hc₀, -⟩ := hg.dirtyAt_iff.1 ⟨c, hc, hcd⟩
      rw [hg.alters.other q c₀ hq hc₀] at hc
      cases hc
      exact h.bounded q _ hc₀ hcd
  · rw [hg.dirtyAt_iff] at hx ⊢
    rw [hcontent, hstore]
    rcases hg.alters.arrow_new x q ha with ha | hc | rfl | ⟨hnone, -⟩
    · exact (h.flow x q ha hx).imp_right fun hq => ⟨hg.cyclicAt hacyclic hq.1, hq.2⟩
    · exact hc.elim
    · exact .inl hdirty
    · obtain ⟨c, hc, -⟩ := hx
      rw [hnone] at hc
      cases hc
  · have hq : q ≠ r := by
      rintro rfl
      exact not_dirtyAt_of_clean hc hclean (hg.dirtyAt_iff.2 hdirty)
    have hc₀ : s.graph.profileAt? q = some c := by
      cases hc₀ : s.graph.profileAt? q with
      | none =>
        obtain rfl := hg.alters.fresh q c hq hc₀ hc
        exact absurd rfl hce
      | some c₀ => rw [← hg.alters.other q c₀ hq hc₀, hc]
    rw [henv, hstore]
    cases h.settled q c hc₀ hclean hce with
    | overrun hlimit hindirect hshows => exact .overrun hlimit hindirect hshows
    | looped hcycle hshows => exact .looped (hg.cyclicAt hacyclic hcycle) hshows
    | calculated hlimit hbypassed hwritten hvalue =>
      refine .calculated hlimit (h.bypassed_rewire hg hd hacyclic hc₀ hclean hbypassed) ?_
        (hvalue.imp_left (hg.readsCyclicValue hacyclic · hq))
      rwa [show s'.graph.contentAt = s.graph.contentAt from funext hcontent]

end Sheet

end Spreadsheet
