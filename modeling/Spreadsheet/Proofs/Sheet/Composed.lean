import Spreadsheet.Proofs.Graph.Downstream
import Spreadsheet.Proofs.Graph.Gist
import Spreadsheet.Proofs.Sheet.Clipped

/-!
What formulas are known to read. A formula reads what it mentions, and areas that an evaluation has reported. They are
replaced only when a later evaluation reports something that is not among them, so what it reports no more is released
then and not before.
-/

namespace Spreadsheet

open Spreadsheet.Graph

/-! ### Areas that are added -/

namespace Dependencies

variable {d : Dependencies} {a : Area} {x : Position}

theorem mentions_addCell {p : Position} : (d.addCell p).Mentions x ↔ d.Mentions x ∨ p = x := by
  unfold addCell
  split
  · rename_i hp
    refine ⟨.inl, fun h => h.elim id ?_⟩
    rintro rfl
    exact .inl (List.contains_iff_mem.1 hp)
  · simp only [Mentions, List.mem_append, List.mem_singleton, eq_comm (a := x)]
    exact or_right_comm

/-- What is read once an area has been added. -/
theorem mentions_addArea_iff : (d.addArea a).Mentions x ↔ d.Mentions x ∨ a.cell? = some x ∨ a.contains x = true := by
  constructor
  · unfold addArea
    split
    · rename_i p hp
      rw [mentions_addCell, hp, Option.some.injEq]
      exact Or.imp_right .inl
    · split
      · exact .inl
      · rintro (hx | ⟨b, hb, hx⟩)
        · exact .inl (.inl hx)
        · rcases List.mem_append.1 hb with hb | hb
          · exact .inl (.inr ⟨b, hb, hx⟩)
          · rw [List.mem_singleton.1 hb] at hx
            exact .inr (.inr hx)
  · rintro (hx | hx | hx)
    · exact (within_addArea d a).mentions hx
    · unfold addArea
      rw [hx]
      exact mentions_addCell.2 (.inr rfl)
    · exact mentions_addArea d hx

theorem mentions_foldl_addArea {as : List Area} : (as.foldl addArea d).Mentions x ↔
    d.Mentions x ∨ ∃ a ∈ as, a.cell? = some x ∨ a.contains x = true := by
  induction as generalizing d with
  | nil => simp
  | cons a as ih =>
    rw [List.foldl_cons, ih, mentions_addArea_iff, List.exists_mem_cons_iff, or_assoc]

end Dependencies

/-! ### Dependencies of formulas -/

namespace Environment

variable {env : Environment} {g g' : Graph} {k : Slot} {v : Vertex} {e : Expression} {c c' : Contents}

theorem calculate_rewire_eq {d : Dependencies} (h : (env.handler.calculate v e).run c = (.rewire d, c')) :
    d = (e.calculate (env.scope c.store v.position) c.model).areas.foldl .addArea (env.dependencies e) := by
  change (if (e.calculate (env.scope c.store v.position) c.model).areas.all v.dependencies.covers then
    Outcome.value _ _ else .rewire _, _) = _ at h
  rw [Prod.mk.injEq] at h
  obtain ⟨houtcome, -⟩ := h
  split at houtcome
  · cases houtcome
  · cases houtcome
    rfl

/-- Areas that an evaluation has reported, if there has been one. -/
def Reported (env : Environment) (p : Position) (e : Expression) (former : List Area) : Prop :=
  former = [] ∨ ∃ σ t m, former = (e.calculate ((env.timed t).scope σ p) m).areas

/-- The formula in a slot, if there is one, is known to read what it mentions and what an evaluation has reported. -/
def ComposedAt (env : Environment) (g : Graph) (k : Slot) : Prop :=
  ∀ c e, g.gist? k = some c → c.content.expression? = some e →
    ∃ former, env.Reported c.position e former ∧ c.dependencies = former.foldl .addArea (env.dependencies e)

namespace ComposedAt

theorem retains (h : env.ComposedAt g k) (hr : Retains g g' k) : env.ComposedAt g' k := by
  intro c e hc he
  obtain ⟨c₀, hc₀, hpos, hcontent, hdeps⟩ := hr c hc (Sheet.ne_value_of_expression he)
  rw [← hpos, ← hdeps]
  exact h c₀ e hc₀ (hcontent ▸ he)

theorem step {p : Pass Contents} (h : env.ComposedAt p.graph k) (hwell : p.graph.WellFormed)
    (hknown : p.graph.CyclesKnown) (i : Slot) :
    env.ComposedAt (p.step env.handler env.settings.limits.rebuilds i).graph k := by
  have hl := Pass.looked_step hknown env.handler env.settings.limits.rebuilds i
  generalize p.look env.handler env.settings.limits.rebuilds i = way at hl
  by_cases hrewired : way = .rewired ∧ k = i
  · obtain ⟨rfl, rfl⟩ := hrewired
    intro c e hc he
    obtain ⟨w, e', d, state, -, hpos, hcontent, he', hrun, rfl⟩ := hl.gist?_rewired hwell hc
    rw [Vertex.expression?_eq, hcontent, he, Option.some.injEq] at he'
    subst he'
    rw [← hpos]
    exact ⟨_, .inr ⟨p.state.store, env.clock, p.state.model, rfl⟩, calculate_rewire_eq hrun⟩
  · exact h.retains (hl.retains hwell fun hway hk => hrewired ⟨hway, hk⟩)

theorem run {p : Pass Contents} (h : env.ComposedAt p.graph k) (hu : p.Underway) (steps : Nat) :
    env.ComposedAt (p.run env.handler env.settings.limits.rebuilds steps).graph k := by
  induction steps generalizing p with
  | zero =>
    unfold Pass.run
    cases p.queue with
    | nil => exact h
    | cons i rest => exact h.retains (.of_gist? rfl)
  | succ steps ih =>
    unfold Pass.run
    cases hq : p.queue with
    | nil => exact h
    | cons i rest =>
      exact ih (ComposedAt.step (p := p.taken rest) h hu.wellFormed hu.cycles i) (hu.step hq env.handler _)

end ComposedAt

end Environment

namespace Sheet

variable {s s' : Sheet} {i k : Slot} {v : Vertex} {e : Expression} {uncut : Prop}

/-- New formulas read just what they mention. -/
theorem composedAt_of_renews {g g' : Graph} (h : Renews s.Literal g g') (hg : s.ComposedAt g k) :
    s.ComposedAt g' k := by
  intro c e hc he
  rcases h k c hc (ne_value_of_expression he) with hremains | ⟨-, e', he', hdeps⟩
  · obtain ⟨b, -, hgist⟩ := hremains.gist
    exact hg { c with dirty := b } e hgist he
  · rw [he, Option.some.injEq] at he'
    subst he'
    exact ⟨[], .inl rfl, hdeps⟩

/-- Whatever has been done to a sheet, formulas are known to read what they mention and what an evaluation has
reported. -/
theorem Attained.composedAt (h : s.Attained uncut) (k : Slot) : s.ComposedAt s.graph k := by
  refine h.invariant (I := fun s => s.ComposedAt s.graph k) (fun s => ?_) (fun s s' _ _ hcarried ih => ?_)
    (fun s hs ih => ?_) fun s clock model ih => ih
  · obtain ⟨henv, hrenews⟩ := renews_rebuild s
    rw [henv]
    refine composedAt_of_renews hrenews fun c e hc _ => ?_
    simp at hc
  · rw [hcarried.environment]
    exact composedAt_of_renews hcarried.renews ih
  · have hu := hs.markVolatile.firm.toSound.underway s.toContents
    have hbegin : s.ComposedAt (s.graph.markVolatile.beginPass s.toContents).graph k :=
      (ih.retains (.markVolatile s.graph k)).retains (.beginPass _ _ k)
    exact hbegin.run hu s.settings.limits.steps

/-! ### After a pass -/

namespace Faithful

/-- A formula has edges from the cells that it is known to read, and from no others. -/
theorem mem_dependents_iff (h : s.Faithful) {u : Vertex} (hu : s.graph.vertex? k = some u)
    (hv : s.graph.vertex? i = some v) (he : v.content.expression? = some e) :
    i ∈ u.dependents ↔ v.dependencies.Mentions u.position := by
  rw [h.edge_iff hu hv, or_iff_left]
  rintro ⟨a, ha, hin, hne⟩
  -- no formula stands in the other cells of an array formula
  obtain ⟨c, hc, hca, htop⟩ := h.exists_cell_of_area? hu ha
  obtain ⟨d, hd, hda⟩ := h.arranged.whole _ c a _ hc hca hin
  rw [h.content_vertex hv] at he
  obtain ⟨d', -, hd', hformula, -⟩ := cell_of_expression he
  rw [hd, Option.some.injEq] at hd'
  subst hd'
  rw [(h.arranged.head _ d a hd hda).1 hformula, Option.some.injEq] at htop
  exact hne htop

/-- When nothing is dirty, a change of a cell makes a formula dirty if it is known to read the cell, or something that
becomes dirty. -/
theorem isDirty_setDirty_iff (h : s.Faithful) (hclean : ∀ k, ¬s.graph.isDirty k = true)
    (hv : s.graph.vertex? i = some v) (he : v.content.expression? = some e) (x : Position) :
    (s.graph.setDirty x).isDirty i = true ↔ x = v.position ∨ v.dependencies.Mentions x ∨
      ∃ j u, s.graph.vertex? j = some u ∧ v.dependencies.Mentions u.position ∧
        (s.graph.setDirty x).isDirty j = true := by
  have hreached (k : Slot) := Graph.isDirty_setDirty_iff (k := k) (p := x) h.wellFormed h.wired hclean
  have hstart {j : Slot} (hj : s.graph.slot? x = some j ∨ j ∈ s.graph.listenersOf x) :
      (s.graph.setDirty x).isDirty j = true := (hreached j).2 ⟨j, hj, .refl⟩
  constructor
  · intro hdirty
    obtain ⟨k, hk, hpath⟩ := (hreached i).1 hdirty
    rcases hpath.cases_tail with rfl | ⟨j, hpath, u, hu, hdep⟩
    · rcases hk with hk | hk
      · obtain ⟨w, hw, rfl⟩ := h.wellFormed.vertex_of_slot? hk
        rw [hv, Option.some.injEq] at hw
        exact .inl (congrArg Vertex.position hw.symm)
      · obtain ⟨⟨a, l⟩, hl, rfl⟩ := List.mem_map.1 hk
        obtain ⟨hlisten, hx⟩ := List.mem_filter.1 hl
        have harea := (h.wired.listeners a l).1 hlisten
        rw [reads_of_vertex? hv] at harea
        exact .inr (.inl (.inr ⟨a, harea, hx⟩))
    · exact .inr (.inr ⟨j, u, hu, (h.mem_dependents_iff hu hv he).1 hdep, (hreached j).2 ⟨k, hk, hpath⟩⟩)
  · have hreads {j : Slot} {u : Vertex} (hu : s.graph.vertex? j = some u) (hm : v.dependencies.Mentions u.position)
        (hj : (s.graph.setDirty x).isDirty j = true) : (s.graph.setDirty x).isDirty i = true := by
      obtain ⟨k, hk, hpath⟩ := (hreached j).1 hj
      exact (hreached i).2 ⟨k, hk, hpath.tail ⟨u, hu, (h.mem_dependents_iff hu hv he).2 hm⟩⟩
    rintro (rfl | hm | ⟨j, u, hu, hm, hj⟩)
    · exact hstart (.inl (h.wellFormed.slot?_position hv))
    · rcases h.wired.listens h.wellFormed (h.wellFormed.slot?_position hv) (h.wellFormed.profileAt?_position hv) hm with
        ⟨j, hj⟩ | hlisten
      · obtain ⟨u, hu, rfl⟩ := h.wellFormed.vertex_of_slot? hj
        exact hreads hu hm (hstart (.inl hj))
      · exact hstart (.inr hlisten)
    · exact hreads hu hm hj

end Faithful

/-- What the formula `e` in slot `i` is known to read at the end of a pass over `s` that has led to `s'`: besides what
it mentions the areas `former`. -/
structure Traced (uncut : Prop) (s s' : Sheet) (moments : List (Pass Contents × Slot)) (i : Slot) (v : Vertex)
    (e : Expression) (former : List Area) : Prop where
  reported : s'.Reported v.position e former
  dependencies : v.dependencies = former.foldl .addArea (s'.dependencies e)
  mentions : ∀ x, v.dependencies.Mentions x ↔
    (s'.dependencies e).Mentions x ∨ ∃ a ∈ former, a.cell? = some x ∨ a.contains x = true
  /-- If the pass has replaced the dependencies, all that was not reported when it did so last is released. Otherwise
  nothing is. -/
  origin : (∃ before q after, moments = before ++ (q, i) :: after ∧
      q.look s.handler s.settings.limits.rebuilds i = .rewired ∧
      Pass.Spares s.handler s.settings.limits.rebuilds after i ∧
      former = (e.calculate (s.scope q.state.store v.position) q.state.model).areas) ∨
    Pass.Spares s.handler s.settings.limits.rebuilds moments i ∧
      ∃ u, s.graph.vertex? i = some u ∧ u.content = v.content ∧ u.dependencies = v.dependencies
  /-- There are edges, and so perhaps cycles, only through what is read. -/
  edge : ∀ j u, s'.graph.vertex? j = some u → (i ∈ u.dependents ↔ v.dependencies.Mentions u.position)
  /-- Changes of cells make the vertex dirty only because of what is read. -/
  marked : ∀ x, (s'.graph.setDirty x).isDirty i = true ↔ x = v.position ∨ v.dependencies.Mentions x ∨
    ∃ j u, s'.graph.vertex? j = some u ∧ v.dependencies.Mentions u.position ∧ (s'.graph.setDirty x).isDirty j = true
  /-- What an evaluation with the present cells reports is among what is read. -/
  covers : uncut → s'.graph.isOnCycle i = false → v.rebuilds ≤ s'.settings.limits.rebuilds →
    ¬s'.graph.ReadsCyclicValue v.position → e.Steady s'.library →
    ∃ rows columns, rows ≤ s'.store.rows ∧ columns ≤ s'.store.columns ∧
      ∀ a ∈ (e.calculate (s'.scope (s'.clipped rows columns).store v.position) s'.model).areas,
        v.dependencies.covers a = true

/-- What an evaluation with the present cells reports is among what a clean formula is known to read. -/
theorem RecordingAt.covers {floor : Store} (h : RecordingAt uncut floor s i) (hu : uncut) (hs : s.Consistent)
    (hclean : ¬s.graph.isDirty i = true) (hv : s.graph.vertex? i = some v) (he : v.content.expression? = some e)
    (hacyclic : s.graph.isOnCycle i = false) (hlimit : v.rebuilds ≤ s.settings.limits.rebuilds)
    (hreads : ¬s.graph.ReadsCyclicValue v.position) (hsteady : e.Steady s.library) :
    ∃ rows columns, rows ≤ s.store.rows ∧ columns ≤ s.store.columns ∧
      ∀ a ∈ (e.calculate (s.scope (s.clipped rows columns).store v.position) s.model).areas,
        v.dependencies.covers a = true := by
  obtain ⟨hcyclic, σ, t, m, hcalc⟩ := h.calculation hu hs.wellFormed hclean hv he hacyclic hlimit
  obtain ⟨-, hareas⟩ := hcalc.clipped hu hs (gist?_of_vertex? hv) he hcyclic hreads hsteady
  refine ⟨σ.rows, σ.columns, hcalc.spans.2.rows, hcalc.spans.2.columns, fun a ha => ?_⟩
  exact hcalc.covered a (hareas ▸ ha)

/-- What a pass has made of the dependencies of a formula. -/
theorem Kept.origin (h : s.Kept uncut) {moments : List (Pass Contents × Slot)} {p : Pass Contents}
    (hr : Pass.Runs s.handler s.settings.limits.rebuilds (s.graph.markVolatile.beginPass s.toContents) moments p)
    (hv : p.graph.vertex? i = some v) (he : v.content.expression? = some e) :
    (∃ before q after, moments = before ++ (q, i) :: after ∧
      q.look s.handler s.settings.limits.rebuilds i = .rewired ∧
      Pass.Spares s.handler s.settings.limits.rebuilds after i ∧
      v.dependencies = (e.calculate (s.scope q.state.store v.position) q.state.model).areas.foldl .addArea
        (s.dependencies e)) ∨
    Pass.Spares s.handler s.settings.limits.rebuilds moments i ∧
      ∃ u, s.graph.vertex? i = some u ∧ u.content = v.content ∧ u.dependencies = v.dependencies := by
  have hu := h.markVolatile.firm.toSound.underway s.toContents
  have hformula := ne_value_of_expression he
  rcases Pass.spares_or_rewired s.handler s.settings.limits.rebuilds moments i with
    hspares | ⟨before, q, after, hmoments, hlook, hspares⟩
  · have hbegin := (Retains.markVolatile s.graph i).trans (.beginPass _ s.toContents i)
    obtain ⟨c, hc, -, hcontent, hdeps⟩ := hbegin.trans (hr.retains hu hspares) v.gist (gist?_of_vertex? hv) hformula
    obtain ⟨u, hu, rfl⟩ := gist?_eq_some_iff.1 hc
    exact .inr ⟨hspares, u, hu, hcontent, hdeps⟩
  · obtain ⟨w, e', d, state, -, hpos, hcontent, he', hrun, hdeps⟩ := hr.rewired hu hmoments hlook hspares hv hformula
    rw [Vertex.expression?_eq, hcontent, he, Option.some.injEq] at he'
    subst he'
    rw [Environment.calculate_rewire_eq hrun, hpos] at hdeps
    exact .inl ⟨before, q, after, hmoments, hlook, hspares, hdeps⟩

/-- After a pass a formula is known to read what it mentions and what was reported when its dependencies were replaced
last. -/
theorem Attained.traced_recalculate (h : s.Attained uncut) (hcut : s.recalculate.1.truncated = false)
    (hv : s.recalculate.2.graph.vertex? i = some v) (he : v.expression? = some e) :
    ∃ moments p, Pass.Runs s.handler s.settings.limits.rebuilds (s.graph.markVolatile.beginPass s.toContents) moments p ∧
      s.recalculate = (p.tally, s.sheetAt p) ∧ ∃ former, Traced uncut s s.recalculate.2 moments i v e former := by
  have hkept := h.kept.recalculate fun _ => hcut
  have hfaithful := hkept.faithful
  have hclean := (h.kept.clean_recalculate hcut).1
  have hrecord := h.recorded.recalculate h.kept i
  have hcomposed := (h.recalculate fun _ => hcut).composedAt i
  rw [Vertex.expression?_eq] at he
  obtain ⟨moments, hr⟩ := Pass.runs_run hcut
  refine ⟨moments, _, hr, rfl, ?_⟩
  have htraced (former : List Area) (hreported : s.recalculate.2.Reported v.position e former)
      (hdeps : v.dependencies = former.foldl .addArea (s.recalculate.2.dependencies e)) horigin :
      Traced uncut s s.recalculate.2 moments i v e former :=
    { reported := hreported
      dependencies := hdeps
      mentions := fun x => by rw [hdeps, Dependencies.mentions_foldl_addArea]
      origin := horigin
      edge := fun j u hu => hfaithful.mem_dependents_iff hu hv he
      marked := hfaithful.isDirty_setDirty_iff hclean hv he
      covers := fun hu => hrecord.covers hu (hkept.coherent hu).toConsistent (hclean i) hv he }
  rcases h.kept.origin hr hv he with ⟨before, q, after, hmoments, hlook, hspares, hdeps⟩ | ⟨hspares, hsame⟩
  · exact ⟨_, htraced _ (.inr ⟨q.state.store, s.clock, q.state.model, rfl⟩) hdeps
      (.inl ⟨before, q, after, hmoments, hlook, hspares, rfl⟩)⟩
  · obtain ⟨former, hreported, hdeps⟩ := hcomposed v.gist e (gist?_of_vertex? hv) he
    exact ⟨former, htraced former hreported hdeps (.inr ⟨hspares, hsame⟩)⟩

/-! ### A cell that is read no more -/

/-- A function that reports `B1` while its argument holds. -/
def follower : Function :=
  { name := "FOLLOW", parameters := [{ name := "condition" }],
    apply := fun _ vs => do
      if Function.argument vs 0 == .boolean true then Action.refer (.single ⟨0, 1⟩)
      return .undefined }

/-- The library with this function only. -/
def followers : Library := Library.empty.register follower

/-- The expression `FOLLOW(C1)`. -/
def following : Expression := .call 0 "FOLLOW" [.cell ⟨{ row := some 0, column := some 2 }, "C1", 7⟩]

/-- The parts of a call with the reference to a cell as its only argument. -/
def callOfCell? : Expression → Option (Nat × String × Mention)
  | .call p name [.cell m] => some (p, name, m)
  | _ => none

/-- A sheet with the value `TRUE` in `C1`. -/
def holding : Sheet :=
  { Sheet.empty {} followers default with store := Store.setValue {} ⟨0, 2⟩ (.boolean true) }

/-- The same sheet when the formula `FOLLOW(C1)` has been entered into `A1`. -/
def attending : Sheet :=
  { holding with
    store := holding.store.setFormula ⟨0, 0⟩ "FOLLOW(C1)"
    graph := Graph.install {} ⟨0, 0⟩ (.formula following) (.ofExpression ∅ "Sheet1" following) }

/-- The same sheet when that formula has been calculated and `FALSE` has been entered into `C1`. -/
def resigned : Sheet :=
  { attending.recalculate.2 with
    store := attending.recalculate.2.store.setValue ⟨0, 2⟩ (.boolean false)
    graph := (attending.recalculate.2.graph.demote ⟨0, 2⟩).setDirty ⟨0, 2⟩ }

theorem eq_call_of_callOfCell? {n : Nat} {name : String} {m : Mention} (h : callOfCell? e = some (n, name, m)) :
    e = .call n name [.cell m] := by
  unfold callOfCell? at h
  split at h
  · cases h
    rfl
  · cases h

theorem parse_following : (Formula.parse (.ofDecimal .period) "FOLLOW(C1)").toExcept = .ok following := by
  have hcall : (Formula.parse (.ofDecimal .period) "FOLLOW(C1)").toExcept.toOption.bind callOfCell? =
      some (0, "FOLLOW", ⟨{ row := some 0, column := some 2 }, "C1", 7⟩) := by
    decide +kernel
  exact eq_ok_of_bind hcall fun _ => eq_call_of_callOfCell?

theorem setValue_holding : (Sheet.empty {} followers default).setValue ⟨0, 2⟩ (.boolean true) = .ok holding := by rfl

theorem setFormula_attending : holding.setFormula ⟨0, 0⟩ "FOLLOW(C1)" = .ok attending := by
  have hlocale : holding.locale = .ofDecimal .period := rfl
  have hnone : holding.arrayAt? ⟨0, 0⟩ = none := by rfl
  simp only [setFormula, Environment.parse, hlocale, parse_following, detach, hnone]
  rfl

theorem setValue_resigned : attending.recalculate.2.setValue ⟨0, 2⟩ (.boolean false) = .ok resigned := by
  have hnone : attending.recalculate.2.arrayAt? ⟨0, 2⟩ = none := by cbv
  simp only [setValue, detach, hnone]
  rfl

theorem attained_resigned : resigned.Attained False :=
  .setValue (.recalculate (.setFormula (.setValue (.empty {} followers default nofun) setValue_holding)
    setFormula_attending) nofun) setValue_resigned

theorem pass_resigned : resigned.recalculate.1.truncated = false ∧
    resigned.recalculate.2.graph.isOnCycle 0 = false ∧
    (resigned.recalculate.2.graph.vertex? 0).map Vertex.rebuilds = some 0 ∧
    (resigned.recalculate.2.graph.vertex? 0).bind Vertex.expression? = some following ∧
    (resigned.recalculate.2.graph.vertex? 0).map Vertex.dependencies = some { cells := [⟨0, 2⟩, ⟨0, 1⟩] } ∧
    resigned.recalculate.2.dependencies following = { cells := [⟨0, 2⟩] } ∧
    (following.calculate (resigned.recalculate.2.scope resigned.recalculate.2.store ⟨0, 0⟩)
      resigned.recalculate.2.model).areas = [] := by
  cbv

theorem expression_fed (library : Library) :
    ((fed library).recalculate.2.graph.vertex? 0).bind Vertex.expression? = some below := by
  cbv

/-- The formula in `A1` is known to read what it mentions and what it has reported, and so is one that reports
nothing. -/
theorem traced_recalculate_resigned :
    (resigned.Attained False ∧ resigned.recalculate.1.truncated = false ∧
      ∃ v moments former, resigned.recalculate.2.graph.vertex? 0 = some v ∧ v.expression? = some following ∧
        Traced False resigned resigned.recalculate.2 moments 0 v following former) ∧
    (fed .standard).Attained True ∧ (fed .standard).recalculate.1.truncated = false ∧
      ∃ v moments former, (fed .standard).recalculate.2.graph.vertex? 0 = some v ∧ v.expression? = some below ∧
        Traced True (fed .standard) (fed .standard).recalculate.2 moments 0 v below former := by
  constructor
  · obtain ⟨hcut, -, -, hexpression, -⟩ := pass_resigned
    obtain ⟨v, hv, he⟩ := Option.bind_eq_some_iff.1 hexpression
    obtain ⟨moments, p, -, -, former, htraced⟩ := attained_resigned.traced_recalculate hcut hv he
    exact ⟨attained_resigned, hcut, v, moments, former, hv, he, htraced⟩
  · have hfed : (fed .standard).Attained True := reached_fed.attained
    obtain ⟨v, hv, he⟩ := Option.bind_eq_some_iff.1 (expression_fed .standard)
    obtain ⟨hcut, -⟩ := pass_fed .standard
    obtain ⟨moments, p, -, -, former, htraced⟩ := hfed.traced_recalculate hcut hv he
    exact ⟨hfed, hcut, v, moments, former, hv, he, htraced⟩

/-- What a formula reports no more can stay: `A1` is still known to read `B1` after `FALSE` has been entered into `C1`,
though its formula mentions `C1` only and reports nothing now. -/
theorem not_released_resigned :
    ∃ s : Sheet, s.Attained False ∧ s.recalculate.1.truncated = false ∧ s.recalculate.2.graph.isOnCycle 0 = false ∧
      (s.recalculate.2.graph.vertex? 0).map Vertex.rebuilds = some 0 ∧
      (s.recalculate.2.graph.vertex? 0).bind Vertex.expression? = some following ∧
      (s.recalculate.2.graph.vertex? 0).map Vertex.dependencies = some { cells := [⟨0, 2⟩, ⟨0, 1⟩] } ∧
      s.recalculate.2.dependencies following = { cells := [⟨0, 2⟩] } ∧
      (following.calculate (s.recalculate.2.scope s.recalculate.2.store ⟨0, 0⟩) s.recalculate.2.model).areas = [] :=
  ⟨resigned, attained_resigned, pass_resigned⟩

end Sheet

end Spreadsheet
