import Spreadsheet.Proofs.Graph.Run
import Spreadsheet.Proofs.Sheet.Midway

/-!
Passes over sheets. Every step of a pass settles a vertex, replaces what it reads or changes nothing that
matters, so it keeps a sheet faithful, and keeps what holds in the middle of a pass.
-/

namespace Spreadsheet

open Spreadsheet.Graph Relation

/-! ### Results that are delivered -/

namespace Store

variable {s : Store} {p q : Position} {c : Cell} {v : Value}

theorem alike_setResult (hc : s.cell? p = some c) (v : Value) : Alike s (s.update p (·.setResult v)) := by
  intro q
  rw [cell?_update]
  by_cases hq : p = q
  · subst hq
    rw [if_pos rfl, hc]
    rfl
  · rw [if_neg hq]

theorem read_setResult (hc : s.cell? p = some c) (hshow : (c.isFormula || c.area.isSome) = true) (v : Value) :
    (s.update p (·.setResult v)).read p = v := by
  rw [read, cell?_update_self, hc]
  change (if (c.isFormula || c.area.isSome) = true then v else _) = v
  rw [if_pos hshow]

end Store

namespace Contents

variable {c : Contents} {ps : List Position} {q : Position}

/-- Storing results in members of arrays. -/
theorem setResults_spec (result : Position → Value) (ps : List Position)
    (hcells : ∀ q ∈ ps, ∃ d, c.store.cell? q = some d ∧ d.area.isSome = true) :
    c.store.Alike (ps.foldl (fun c p => c.setResult p (result p)) c).store ∧
      (∀ q, q ∉ ps → (ps.foldl (fun c p => c.setResult p (result p)) c).store.cell? q = c.store.cell? q) ∧
      ∀ q ∈ ps, (ps.foldl (fun c p => c.setResult p (result p)) c).store.read q = result q := by
  induction ps generalizing c with
  | nil => exact ⟨fun _ => rfl, fun _ _ => rfl, fun q hq => nomatch hq⟩
  | cons p ps ih =>
    obtain ⟨d, hd, harea⟩ := hcells p List.mem_cons_self
    have hfirst := Store.alike_setResult hd (result p)
    obtain ⟨halike, hother, hread⟩ := ih (c := c.setResult p (result p)) fun q hq => by
      obtain ⟨d, hd, harea⟩ := hcells q (List.mem_cons_of_mem p hq)
      obtain ⟨d', hd', hflush⟩ := hfirst.symm.cell hd
      exact ⟨d', hd', by rwa [← Store.Alike.area_eq hflush]⟩
    refine ⟨fun q => (halike q).trans (hfirst q), fun q hq => ?_, fun q hq => ?_⟩
    · rw [List.mem_cons, not_or] at hq
      exact (hother q hq.2).trans (Store.cell?_update_of_ne c.store _ hq.1)
    · by_cases hmem : q ∈ ps
      · exact hread q hmem
      · obtain rfl := (List.mem_cons.1 hq).resolve_right hmem
        rw [List.foldl_cons, Store.read_eq_of_cell? (hother q hmem)]
        exact Store.read_setResult hd (by rw [harea, Bool.or_true]) _

end Contents

namespace Sheet

variable {s : Sheet} {p : Position}

/-- The result of a vertex is delivered to its cells. -/
theorem delivered (harranged : s.store.Arranged) {v : Vertex} (hcontent : v.content = s.contentAt v.position)
    (x : Value) {c : Contents} (hc : c.store = s.store) :
    Store.Delivered v.position v.content x s.store (((Pass.deliver s.handler v x).run c).2).store := by
  unfold Pass.deliver
  cases hv : v.content with
  | value => exact ⟨fun q => by rw [← hc]; rfl, fun q _ => by rw [← hc]; rfl, fun q hq => hq.elim⟩
  | formula e =>
    rw [hv] at hcontent
    obtain ⟨d, hd, hformula, -⟩ := cell_of_formula hcontent.symm harranged
    have hupdate : (((s.handler.store v.position x).run c).2).store = s.store.update v.position (·.setResult x) := by
      rw [← hc]
      rfl
    rw [hupdate]
    refine ⟨Store.alike_setResult hd x, fun q hq => Store.cell?_update_of_ne s.store _ hq, fun q hq => ?_⟩
    obtain rfl : q = v.position := hq
    exact Store.read_setResult hd (by rw [hformula, Bool.true_or]) x
  | array e a =>
    rw [hv] at hcontent
    obtain ⟨d, hd, -, ha, htop⟩ := cell_of_array hcontent.symm
    have hbounded := (harranged.area v.position d a hd ha).1
    have hspread : ((s.handler.spread a x).run c).2 =
        a.members.foldl (fun c p => c.setResult p (x.elementFor v.position p)) c := by
      change c.spread a x = _
      rw [Contents.spread, htop]
    obtain ⟨halike, hother, hread⟩ := Contents.setResults_spec (c := c) (x.elementFor v.position) a.members
      fun q hq => by
        obtain ⟨d', hd', ha'⟩ := harranged.whole v.position d a q hd ha ((Area.mem_members hbounded).1 hq)
        exact ⟨d', hc ▸ hd', by rw [ha']; rfl⟩
    rw [hc] at halike hother
    simp only [hspread]
    exact ⟨halike, fun q hq => hother q hq, fun q hq => hread q hq⟩

end Sheet

/-! ### Steps, cell by cell -/

namespace Graph

variable {g g₁ g' : Graph} {i k : Slot} {q x : Position} {v : Vertex} {f : Vertex → Vertex} {d : Dependencies}

namespace UpToCycles

theorem profileAt? (h : UpToCycles g g') (q : Position) : g'.profileAt? q = g.profileAt? q :=
  profileAt?_congr (h.slot? q) fun k => by
    obtain ⟨b, hb⟩ := h.vertex k
    rw [profile?, profile?, hb]
    cases g.vertex? k <;> rfl

theorem arrow_iff (h : UpToCycles g g') : g'.Arrow x q ↔ g.Arrow x q :=
  arrow_congr h.slot? fun _ _ => h.edge_iff

theorem samePlan (h : UpToCycles g g') : SamePlan g g' where
  plan q := by rw [h.profileAt?]
  arrow _ _ := h.arrow_iff

theorem wired (h : UpToCycles g g') (hwired : g.Wired) : g'.Wired := by
  have hreads : g'.reads = g.reads := by
    funext k
    obtain ⟨b, hb⟩ := h.vertex k
    rw [reads, reads, hb]
    cases g.vertex? k <;> rfl
  rw [Wired, hreads]
  exact WiredBy.of_edges hwired h.slot? (fun _ _ => h.edge_iff.2) h.listeners fun _ => h.live_iff.2

theorem alters (h : UpToCycles g g') (p : Position) (T : Position → Position → Prop) : Alters p T g g' where
  live q hq := by rwa [h.profileAt?]
  other q c _ hc := by rw [h.profileAt?, hc]
  fresh q c _ hnone hc := by
    rw [h.profileAt?, hnone] at hc
    cases hc
  arrow x q _ ha := h.arrow_iff.2 ha
  arrow_new x q ha := .inl (h.arrow_iff.1 ha)

end UpToCycles

namespace Updates

theorem profileAt?_of_ne (h : Updates i f g g') (hwell : g.WellFormed) (hv : g.vertex? i = some v)
    (hq : q ≠ v.position) : g'.profileAt? q = g.profileAt? q := by
  rw [Graph.profileAt?, Graph.profileAt?, h.slot?]
  cases hslot : g.slot? q with
  | none => rfl
  | some k =>
    have hk : k ≠ i := by
      rintro rfl
      exact hq (hwell.position_unique hslot (hwell.slot?_position hv))
    rw [Option.bind_some, Option.bind_some, profile?, profile?, h.vertex_of_ne hk]

theorem profileAt?_position (h : Updates i f g g') (hwell : g.WellFormed) (hv : g.vertex? i = some v) :
    g'.profileAt? v.position = some (f v).profile := by
  rw [← h.keeps.position v]
  exact (h.wellFormed hwell).profileAt?_position (h.vertex_self hv)

theorem wired (h : Updates i f g g') (hwired : g.Wired) : g'.Wired := by
  have hreads : g'.reads = g.reads := by
    funext k
    rw [reads, reads, h.vertex]
    split
    · cases g.vertex? k <;> simp [h.keeps.dependencies]
    · rfl
  rw [Wired, hreads]
  exact WiredBy.of_edges hwired h.slot? (fun _ _ => h.edge_iff.2) h.listeners fun _ => h.live_iff.2

/-- A change of a vertex after which it is clean. -/
theorem settledAt (h : Updates i f g₁ g') (hup : UpToCycles g g₁) (hwell : g.WellFormed) (hv : g₁.vertex? i = some v)
    (hclean : (f v).dirty = false) : SettledAt v.position v.profile (f v).profile g g' where
  before := by rw [← hup.profileAt?, (hup.wellFormed hwell).profileAt?_position hv]
  after := h.profileAt?_position (hup.wellFormed hwell) hv
  content := h.keeps.content v
  dependencies := h.keeps.dependencies v
  clean := hclean
  other q hq := by rw [h.profileAt?_of_ne (hup.wellFormed hwell) hv hq, hup.profileAt?]
  arrow x q := by rw [← hup.arrow_iff, arrow_congr h.slot? fun _ _ => h.edge_iff]

end Updates

/-- The dependencies of a dirty vertex are replaced, and counted. -/
theorem rewiredAt_rewire (hup : UpToCycles g g₁) (hwell : g.WellFormed) (hwired : g.Wired)
    (hv : g₁.vertex? i = some v) (hd : v.dirty = true) (hu : Updates i Pass.counted g₁ g') (d : Dependencies)
    (marked : List Slot) :
    RewiredAt v.position v.profile d g { g'.rewire i d with marked } := by
  have hwell₁ := hup.wellFormed hwell
  have hwell' := hu.wellFormed hwell₁
  have hwired' := hu.wired (hup.wired hwired)
  have hv' : g'.vertex? i = some (Pass.counted v) := hu.vertex_self hv
  have hp : g₁.slot? v.position = some i := hwell₁.slot?_position hv
  have hp' : g'.slot? v.position = some i := (hu.slot? _).trans hp
  -- the vertex is dirty, so it is not marked again
  have hrewire : g'.rewire i d = g'.reread i d := by
    refine markFrom_of_isDirty ((isDirty_reread hwell' i d i).2 ?_)
    rw [isDirty_iff_of_vertex? hv']
    exact hd
  have halters : Alters v.position (fun _ _ => False) g₁ g' :=
    { live := fun q hq => by
        by_cases hqv : q = v.position
        · rw [hqv, hu.profileAt?_position hwell₁ hv]
          exact Option.some_ne_none _
        · rwa [hu.profileAt?_of_ne hwell₁ hv hqv]
      other := fun q c hq hc => by rw [hu.profileAt?_of_ne hwell₁ hv hq, hc]
      fresh := fun q c hq hnone hc => by
        rw [hu.profileAt?_of_ne hwell₁ hv hq, hnone] at hc
        cases hc
      arrow := fun x q _ ha => (arrow_congr hu.slot? fun _ _ => hu.edge_iff).2 ha
      arrow_new := fun x q ha => .inl ((arrow_congr hu.slot? fun _ _ => hu.edge_iff).1 ha) }
  have hreread := ((hup.alters _ _).trans halters).trans (alters_reread hwell' hwired' hp' d)
  rw [hrewire]
  refine ⟨?_, ?_, ⟨hreread.live, hreread.other, hreread.fresh, hreread.arrow, hreread.arrow_new⟩,
    fun x ha => arrow_reread hwell' hp' ha⟩
  · rw [← hup.profileAt?, hwell₁.profileAt?_position hv]
  · exact profileAt?_reread hwell' hwired' hp' d (hu.profileAt?_position hwell₁ hv)

end Graph

/-! ### Steps of a pass over a sheet -/

/-- The sheet at some moment of a pass. -/
def Environment.sheetAt (env : Environment) (p : Pass Contents) : Sheet :=
  { toEnvironment := env, toContents := p.state, graph := p.graph }

namespace Sheet

variable {s s' : Sheet} {g g' : Graph} {i : Slot} {v : Vertex} {q : Position}

/-- What is kept about cycles does not matter. -/
theorem Faithful.upToCycles (h : s.Faithful) (hup : UpToCycles s.graph g') :
    ({ s with graph := g' } : Sheet).Faithful :=
  h.of_samePlan rfl (.refl s.store) (hup.wellFormed h.wellFormed) (hup.wired h.wired) hup.samePlan

theorem Midway.upToCycles (h : s.Midway) (hup : UpToCycles s.graph g') : ({ s with graph := g' } : Sheet).Midway := by
  have hprofile : g'.profileAt? = s.graph.profileAt? := funext hup.profileAt?
  have harrow : g'.Arrow = s.graph.Arrow := hup.samePlan.arrow_eq
  have hcontent : g'.contentAt = s.graph.contentAt := funext hup.samePlan.contentAt
  have hdirty : g'.DirtyAt = s.graph.DirtyAt := by
    funext q
    rw [DirtyAt, DirtyAt, hprofile]
  have hcyclic : g'.CyclicAt = s.graph.CyclicAt := by
    funext q
    rw [CyclicAt, CyclicAt, harrow]
  refine ⟨h.toConsistent.of_faithful rfl (h.toFaithful.upToCycles hup), ?_, ?_, fun q f hf hclean he => ?_⟩
  · simp only [hprofile]
    exact h.bounded
  · simp only [harrow, hdirty, hcyclic, hcontent]
    exact h.flow
  · simp only [hprofile] at hf
    exact (h.settled q f hf hclean he).congr harrow hcontent

/-- What is known of the vertex that a pass looks at. -/
structure Looking (s : Sheet) (i : Slot) (v : Vertex) : Prop where
  slot : s.graph.slot? v.position = some i
  profile : s.graph.profileAt? v.position = some v.profile
  content : v.content = s.contentAt v.position
  charted : ∃ b, (s.graph.charted i).vertex? i = some { v with onCycle := b }

theorem Faithful.looking (h : s.Faithful) (hv : s.graph.refreshCycles.vertex? i = some v) : s.Looking i v := by
  have hrefresh := upToCycles_refreshCycles s.graph
  obtain ⟨b, hb⟩ := hrefresh.vertex_of' hv
  have hslot := h.wellFormed.slot?_position hb
  have hprofile := h.wellFormed.profileAt?_position hb
  refine ⟨hslot, hprofile, ?_, (upToCycles_checkCycle s.graph.refreshCycles i).vertex_of hv⟩
  rw [← h.tied, contentAt_of_profileAt? hprofile]
  rfl

/-- The vertex has been settled. -/
theorem Looking.settledAt (h : s.Looking i v) (hs : s.Faithful) {f : Vertex → Vertex}
    (hu : Updates i f (s.graph.charted i) g') (hclean : ∀ v, (f v).dirty = false) {n : Nat}
    (hn : ∀ b, (f { v with onCycle := b }).rebuilds = n) :
    ∃ f', SettledAt v.position v.profile f' s.graph g' ∧ f'.rebuilds = n := by
  obtain ⟨b, hb⟩ := h.charted
  have hsettled := hu.settledAt (upToCycles_charted s.graph i) hs.wellFormed hb (hclean _)
  exact ⟨_, hsettled, hn b⟩

theorem Looking.cyclicAt_iff (h : s.Looking i v) (hs : s.Faithful) : s.graph.CyclicAt v.position ↔ s.graph.OnCycle i :=
  (hs.wellFormed.onCycle_iff h.slot).symm

/-- Settling the vertex that a pass looks at keeps a sheet faithful. -/
theorem Faithful.settle_looking (h : s.Faithful) (hlooking : s.Looking i v)
    (henv : s'.toEnvironment = s.toEnvironment) (hwell : s'.graph.WellFormed) {f : Vertex → Vertex}
    (hu : Updates i f (s.graph.charted i) s'.graph) (hclean : ∀ v, (f v).dirty = false) {n : Nat}
    (hn : ∀ b, (f { v with onCycle := b }).rebuilds = n) (halike : s.store.Alike s'.store) : s'.Faithful := by
  obtain ⟨f', hg, -⟩ := hlooking.settledAt h hu hclean hn
  exact h.of_samePlan henv halike hwell (hu.wired ((upToCycles_charted s.graph i).wired h.wired)) hg.samePlan

/-- The dependencies of the vertex have been replaced. -/
theorem Looking.rewiredAt {p : Pass Contents} {env : Environment} (h : (env.sheetAt p).Looking i v)
    (hs : (env.sheetAt p).Faithful) (hd : v.dirty = true) (state : Contents) (d : Dependencies) (marked : List Slot) :
    RewiredAt v.position v.profile d p.graph { (p.retried i state).graph.rewire i d with marked } := by
  obtain ⟨b, hb⟩ := h.charted
  exact rewiredAt_rewire (upToCycles_charted p.graph i) hs.wellFormed hs.wired hb hd (Pass.updates_retried p i state) d
    marked

theorem Looking.wired_rewire {p : Pass Contents} {env : Environment} (h : (env.sheetAt p).Looking i v)
    (hs : (env.sheetAt p).Faithful) (state : Contents) (d : Dependencies) (marked : List Slot) :
    Wired { (p.retried i state).graph.rewire i d with marked } := by
  obtain ⟨b, hb⟩ := h.charted
  have hup := upToCycles_charted p.graph i
  have hu := Pass.updates_retried p i state
  have hwired := (hu.wired (hup.wired hs.wired)).rewire (hu.wellFormed (hup.wellFormed hs.wellFormed))
    (hu.live_iff.2 ⟨_, hb⟩) d
  exact ⟨hwired.edge, hwired.cells, hwired.listeners, hwired.dead⟩

/-- All inputs of a vertex that is to be calculated are clean. -/
theorem Looking.inputs_clean {p : Pass Contents} {env : Environment} (h : (env.sheetAt p).Looking i v)
    (hs : (env.sheetAt p).Faithful) (hready : p.Ready i v) {y : Position} (ha : p.graph.Arrow y v.position) :
    ¬p.graph.DirtyAt y := by
  obtain ⟨k, j, hk, hj, he⟩ := ha
  have hi : p.graph.slot? v.position = some i := h.slot
  rw [hi] at hj
  cases hj
  have hwell : p.graph.WellFormed := hs.wellFormed
  rw [hwell.dirtyAt_iff hk]
  refine hready.inputs k ((input_iff_of_vertex? hready.vertex).1 ?_)
  rw [(upToCycles_refreshCycles p.graph).input_iff]
  exact (hwell.linked k i).1 he

end Sheet

namespace Environment

variable {env : Environment} {v : Vertex} {e : Expression} {c c' : Contents}

/-- What a calculation comes to: a value, if all areas that it reports were known, or else the dependencies
with these areas. -/
theorem calculate_value {x : Value} {volatile : Bool}
    (h : (env.handler.calculate v e).run c = (.value x volatile, c')) :
    (∀ a ∈ (e.calculate (env.scope c.store v.position) c.model).areas, v.dependencies.covers a = true) ∧
      x = (e.calculate (env.scope c.store v.position) c.model).value ∧ c'.store = c.store := by
  change (if (e.calculate (env.scope c.store v.position) c.model).areas.all v.dependencies.covers then
    Outcome.value _ _ else .rewire _, _) = _ at h
  rw [Prod.mk.injEq] at h
  obtain ⟨houtcome, rfl⟩ := h
  split at houtcome
  · rename_i hall
    cases houtcome
    exact ⟨List.all_eq_true.1 hall, rfl, rfl⟩
  · cases houtcome

theorem within_foldl_addArea (d : Dependencies) (as : List Area) : Dependencies.Within d (as.foldl .addArea d) := by
  induction as generalizing d with
  | nil => exact .refl d
  | cons a as ih => exact (Dependencies.within_addArea d a).trans (ih _)

theorem calculate_rewire {d : Dependencies} (h : (env.handler.calculate v e).run c = (.rewire d, c')) :
    Dependencies.Within (env.dependencies e) d ∧ ¬e.Direct env.library ∧ c'.store = c.store := by
  change (if (e.calculate (env.scope c.store v.position) c.model).areas.all v.dependencies.covers then
    Outcome.value _ _ else .rewire _, _) = _ at h
  rw [Prod.mk.injEq] at h
  obtain ⟨houtcome, rfl⟩ := h
  split at houtcome
  · cases houtcome
  · rename_i hnot
    cases houtcome
    refine ⟨within_foldl_addArea _ _, fun hdirect => hnot ?_, rfl⟩
    rw [hdirect.areas_calculate (s := env.scope c.store v.position) c.model]
    rfl

end Environment

namespace Sheet

variable {env : Environment} {s s' : Sheet} {p p' : Pass Contents} {i : Slot} {v : Vertex} {f : Vertex → Vertex}
  {e : Expression} {x : Value}

/-- Settling the vertex that a pass looks at. -/
theorem Midway.settle_looking (h : s.Midway) (hlooking : s.Looking i v) (hd : v.dirty = true)
    (henv : s'.toEnvironment = s.toEnvironment) (hfaithful : s'.Faithful)
    (hu : Updates i f (s.graph.charted i) s'.graph) (hclean : ∀ v, (f v).dirty = false) {n : Nat}
    (hn : ∀ b, (f { v with onCycle := b }).rebuilds = n)
    (hstore : Store.Delivered v.position v.content x s.store s'.store)
    (hready : s.graph.CyclicAt v.position ∧ x = Pass.failure ∨ ∀ y, s.graph.Arrow y v.position → ¬s.graph.DirtyAt y)
    (hself : ∀ f', SettledAt v.position v.profile f' s.graph s'.graph → f'.rebuilds = n →
      v.content.expression? ≠ none → s.Settled s.settings.limits.rebuilds s'.graph s'.store v.position f') :
    s'.Midway := by
  obtain ⟨f', hg, hrebuilds⟩ := hlooking.settledAt h.toFaithful hu hclean hn
  exact h.settle henv hfaithful hg hd hstore hready (hself f' hg hrebuilds)

/-- A vertex on a cycle fails. -/
theorem Midway.fail_cycle (h : s.Midway) (hlooking : s.Looking i v) (hd : v.dirty = true) (hcycle : s.graph.OnCycle i)
    (henv : s'.toEnvironment = s.toEnvironment) (hfaithful : s'.Faithful)
    (hu : Updates i f (s.graph.charted i) s'.graph) (hclean : ∀ v, (f v).dirty = false)
    (hn : ∀ b, (f { v with onCycle := b }).rebuilds = v.rebuilds)
    (hstore : Store.Delivered v.position v.content Pass.failure s.store s'.store) : s'.Midway := by
  have hcyclic := (hlooking.cyclicAt_iff h.toFaithful).2 hcycle
  refine h.settle_looking hlooking hd henv hfaithful hu hclean hn hstore (.inl ⟨hcyclic, rfl⟩) fun f' hg _ _ => ?_
  refine .looped (hg.cyclicAt_iff.2 hcyclic) ?_
  rw [hg.content]
  exact hstore.shows

/-- A vertex on no cycle mentions none of the cells that show its result. -/
theorem Midway.agreeAt_delivered (h : s.Midway) (hlooking : s.Looking i v) (hacyclic : ¬s.graph.OnCycle i)
    (hstore : Store.Delivered v.position v.content x s.store s'.store) {y : Position}
    (hy : v.dependencies.Mentions y) : s.store.AgreeAt s'.store y := by
  refine Store.agreeAt_of_cell? (hstore.other y fun hfills => hacyclic ((hlooking.cyclicAt_iff h.toFaithful).1 ?_))
  rw [hlooking.content, ← h.tied] at hfills
  rcases h.source_of_fills hlooking.profile hy hfills with ha | ⟨hry, hyr, -⟩
  · exact .single ha
  · exact .tail (.single hry) hyr

/-- A vertex whose inputs are clean has been calculated. -/
theorem Midway.finish (h : s.Midway) (hlooking : s.Looking i v) (hd : v.dirty = true) (hacyclic : ¬s.graph.OnCycle i)
    (hinputs : ∀ y, s.graph.Arrow y v.position → ¬s.graph.DirtyAt y)
    (henv : s'.toEnvironment = s.toEnvironment) (hfaithful : s'.Faithful)
    (hu : Updates i f (s.graph.charted i) s'.graph) (hclean : ∀ v, (f v).dirty = false)
    (hn : ∀ b, (f { v with onCycle := b }).rebuilds = v.rebuilds)
    (hstore : Store.Delivered v.position v.content x s.store s'.store) (he : v.content.expression? = some e)
    (hareas : ∀ a ∈ (e.calculate (s.scope s.store v.position) s.model).areas, v.dependencies.covers a = true)
    (hx : x = (e.calculate (s.scope s.store v.position) s.model).value) : s'.Midway := by
  have hacyclic' : ¬s.graph.CyclicAt v.position := mt (hlooking.cyclicAt_iff h.toFaithful).1 hacyclic
  refine h.settle_looking hlooking hd henv hfaithful hu hclean hn hstore (.inr hinputs) fun f' hg hrebuilds _ => ?_
  refine .calculated ?_ (fun hc => absurd (hg.cyclicAt_iff.1 hc) hacyclic') (fun hc => hacyclic' ?_) (.inr ?_)
  · rw [hrebuilds]
    exact h.bounded _ _ hlooking.profile hd
  · rw [show s'.graph.contentAt = s.graph.contentAt from funext hg.contentAt] at hc
    exact hc.cyclicAt h.wellFormed h.wired h.arrayed h.informed
  · refine ⟨e, s.store, s.clock, s.model, hg.content ▸ he, ?_, fun a ha y hy => ?_, fun y hy => ?_⟩
    · rw [hg.content]
      exact hx ▸ hstore.shows
    · rw [hg.dependencies]
      exact Dependencies.mentions_of_covers (hareas a ha) hy
    · rw [hg.dependencies] at hy
      exact h.agreeAt_delivered hlooking hacyclic hstore hy

/-- A vertex whose dependencies have been replaced too often fails. -/
theorem Midway.fail_overrun (h : s.Midway) (hlooking : s.Looking i v) (hd : v.dirty = true)
    (hinputs : ∀ y, s.graph.Arrow y v.position → ¬s.graph.DirtyAt y)
    (henv : s'.toEnvironment = s.toEnvironment) (hfaithful : s'.Faithful)
    (hu : Updates i f (s.graph.charted i) s'.graph) (hclean : ∀ v, (f v).dirty = false)
    (hn : ∀ b, (f { v with onCycle := b }).rebuilds = v.rebuilds + 1) (hlimit : s.settings.limits.rebuilds ≤ v.rebuilds)
    (he : v.content.expression? = some e) (hindirect : ¬e.Direct s.library)
    (hstore : Store.Delivered v.position v.content Pass.failure s.store s'.store) : s'.Midway := by
  refine h.settle_looking hlooking hd henv hfaithful hu hclean hn hstore (.inr hinputs) fun f' hg hrebuilds _ => ?_
  refine .overrun ?_ (fun e' he' => ?_) ?_
  · rw [hrebuilds]
    exact Nat.lt_succ_of_le hlimit
  · rw [hg.content] at he'
    have hsame := he.symm.trans he'
    cases hsame
    exact hindirect
  · rw [hg.content]
    exact hstore.shows

/-- Every step keeps a sheet faithful and changes results only. -/
theorem Faithful.step (h : (env.sheetAt p).Faithful) (hknown : p.graph.CyclesKnown) (i : Slot) :
    (env.sheetAt (p.step env.handler env.settings.limits.rebuilds i)).Faithful ∧
      p.state.store.Alike (p.step env.handler env.settings.limits.rebuilds i).state.store := by
  have hl := Pass.looked_step hknown env.handler env.settings.limits.rebuilds i
  have hwell := (hl.stepped h.wellFormed hknown).wellFormed
  generalize p.look env.handler env.settings.limits.rebuilds i = look at hl
  generalize p.step env.handler env.settings.limits.rebuilds i = p' at hl hwell ⊢
  cases hl with
  | idle => exact ⟨h.upToCycles (upToCycles_refreshCycles p.graph), .refl _⟩
  | waits => exact ⟨h.upToCycles (upToCycles_charted p.graph i), .refl _⟩
  | @cycle v hv =>
    have hlooking := h.looking hv
    have hstore := delivered h.arranged hlooking.content Pass.failure (c := p.state) rfl
    exact ⟨h.settle_looking hlooking rfl hwell (updates_modify _ i (Pass.keeps_settled Pass.failure)) (fun _ => rfl)
      (n := v.rebuilds) (fun _ => rfl) hstore.alike, hstore.alike⟩
  | @read v hready =>
    have hlooking := h.looking hready.vertex
    have hstore := delivered h.arranged hlooking.content ((env.handler.read v.position).run p.state).1
      (c := p.state) rfl
    exact ⟨h.settle_looking hlooking rfl hwell (updates_modify _ i (Pass.keeps_settled _)) (fun _ => rfl)
      (n := v.rebuilds) (fun _ => rfl) hstore.alike, hstore.alike⟩
  | @value v e x volatile state hready he hrun =>
    have hlooking := h.looking hready.vertex
    have hu := (Pass.updates_noteVolatile (p.graph.charted i) i volatile).trans
      (updates_modify _ i (Pass.keeps_settled x))
    have hstore := delivered h.arranged hlooking.content x (c := state) (Environment.calculate_value hrun).2.2
    exact ⟨h.settle_looking hlooking rfl hwell hu (fun _ => rfl) (n := v.rebuilds) (fun _ => rfl) hstore.alike,
      hstore.alike⟩
  | @exhausted v e d state hready he hrun =>
    have hlooking := h.looking hready.vertex
    have hu := (Pass.updates_retried p i state).trans (updates_modify _ i (Pass.keeps_settled Pass.failure))
    have hstore := delivered h.arranged hlooking.content Pass.failure (c := state)
      (Environment.calculate_rewire hrun).2.2
    exact ⟨h.settle_looking hlooking rfl hwell hu (fun _ => rfl) (n := v.rebuilds + 1) (fun _ => rfl) hstore.alike,
      hstore.alike⟩
  | @rewired v e d state hready he hrun =>
    have hlooking := h.looking hready.vertex
    obtain ⟨hwithin, hindirect, hstate⟩ := Environment.calculate_rewire hrun
    rw [Vertex.expression?_eq] at he
    refine ⟨h.rewire rfl hwell (hlooking.wired_rewire h state d _) (hlooking.rewiredAt h hready.dirty state d _) hstate
      he hwithin hindirect, ?_⟩
    change p.state.store.Alike state.store
    rw [hstate]
    exact .refl _

/-- Every step keeps what holds in the middle of a pass. -/
theorem Midway.step (h : (env.sheetAt p).Midway) (hknown : p.graph.CyclesKnown) (i : Slot) :
    (env.sheetAt (p.step env.handler env.settings.limits.rebuilds i)).Midway := by
  have hl := Pass.looked_step hknown env.handler env.settings.limits.rebuilds i
  have hfaithful := (h.toFaithful.step hknown i).1
  generalize p.look env.handler env.settings.limits.rebuilds i = look at hl
  generalize p.step env.handler env.settings.limits.rebuilds i = p' at hl hfaithful ⊢
  cases hl with
  | idle => exact h.upToCycles (upToCycles_refreshCycles p.graph)
  | waits => exact h.upToCycles (upToCycles_charted p.graph i)
  | @cycle v hv hd hcycle =>
    have hlooking := h.looking (s := env.sheetAt p) hv
    have hu := updates_modify (p.graph.charted i) i (Pass.keeps_settled Pass.failure)
    have hstore := delivered h.arranged hlooking.content Pass.failure (c := p.state) rfl
    exact h.fail_cycle hlooking hd hcycle rfl hfaithful hu (fun _ => rfl) (fun _ => rfl) hstore
  | @read v hready hvalue =>
    have hlooking := h.looking (s := env.sheetAt p) hready.vertex
    have hu := updates_modify (p.graph.charted i) i (Pass.keeps_settled ((env.handler.read v.position).run p.state).1)
    have hstore := delivered h.arranged hlooking.content ((env.handler.read v.position).run p.state).1
      (c := p.state) rfl
    rw [Vertex.expression?_eq] at hvalue
    exact h.settle_looking hlooking hready.dirty rfl hfaithful hu (fun _ => rfl) (n := v.rebuilds) (fun _ => rfl) hstore
      (.inr fun y => hlooking.inputs_clean h.toFaithful hready) fun _ _ _ hne => absurd hvalue hne
  | @value v e x volatile state hready he hrun =>
    have hlooking := h.looking (s := env.sheetAt p) hready.vertex
    obtain ⟨hareas, hx, hstate⟩ := Environment.calculate_value hrun
    have hu := (Pass.updates_noteVolatile (p.graph.charted i) i volatile).trans
      (updates_modify _ i (Pass.keeps_settled x))
    have hstore := delivered h.arranged hlooking.content x (c := state) hstate
    rw [Vertex.expression?_eq] at he
    exact h.finish hlooking hready.dirty hready.acyclic (fun y => hlooking.inputs_clean h.toFaithful hready) rfl
      hfaithful hu (fun _ => rfl) (fun _ => rfl) hstore he hareas hx
  | @exhausted v e d state hready he hrun hlimit =>
    have hlooking := h.looking (s := env.sheetAt p) hready.vertex
    obtain ⟨-, hindirect, hstate⟩ := Environment.calculate_rewire hrun
    have hu := (Pass.updates_retried p i state).trans (updates_modify _ i (Pass.keeps_settled Pass.failure))
    have hstore := delivered h.arranged hlooking.content Pass.failure (c := state) hstate
    rw [Vertex.expression?_eq] at he
    exact h.fail_overrun hlooking hready.dirty (fun y => hlooking.inputs_clean h.toFaithful hready) rfl hfaithful hu
      (fun _ => rfl) (fun _ => rfl) hlimit he hindirect hstore
  | @rewired v e d state hready he hrun hlimit =>
    have hlooking := h.looking (s := env.sheetAt p) hready.vertex
    have hacyclic : ¬(env.sheetAt p).graph.CyclicAt v.position :=
      mt (hlooking.cyclicAt_iff h.toFaithful).1 hready.acyclic
    exact h.rewire rfl hfaithful (hlooking.rewiredAt h.toFaithful hready.dirty state d _) hready.dirty
      (Environment.calculate_rewire hrun).2.2 hacyclic hlimit

end Sheet

end Spreadsheet
