import Spreadsheet.Proofs.Sheet.Recorded

/-!
What passes note about calculations. Each step of a pass keeps what is known of the last calculations of clean
formulas and adds what it finds out, so that afterwards just those clean formulas are listed for the next pass that
were volatile when they were calculated.
-/

namespace Spreadsheet

open Spreadsheet.Graph

namespace Environment

variable {env : Environment} {v : Vertex} {e : Expression} {c c' : Contents}

theorem calculate_volatile {x : Value} {volatile : Bool}
    (h : (env.handler.calculate v e).run c = (.value x volatile, c')) :
    volatile = (e.calculate (env.scope c.store v.position) c.model).volatile := by
  change (if (e.calculate (env.scope c.store v.position) c.model).areas.all v.dependencies.covers then
    Outcome.value _ _ else .rewire _, _) = _ at h
  rw [Prod.mk.injEq] at h
  obtain ⟨houtcome, rfl⟩ := h
  split at houtcome
  · cases houtcome
    rfl
  · cases houtcome

end Environment

/-! ### The extent of the sheet -/

namespace Graph.Pass

/-- Results make a sheet no smaller. -/
theorem spans_deliver (env : Environment) (v : Vertex) (x : Value) (c : Contents) :
    c.store.Spans (((Pass.deliver env.handler v x).run c).2).store := by
  have hmembers (head : Position) (ps : List Position) (c : Contents) :
      c.store.Spans (ps.foldl (fun c p => c.setResult p (x.elementFor head p)) c).store := by
    induction ps generalizing c with
    | nil => exact .refl _
    | cons p ps ih =>
      exact (Store.Spans.update c.store p (·.setResult (x.elementFor head p))).trans (ih (c.setResult p _))
  unfold Pass.deliver
  cases v.content with
  | value => exact .refl _
  | formula e => exact Store.Spans.update c.store v.position (·.setResult x)
  | array e a =>
    change c.store.Spans (c.spread a x).store
    unfold Contents.spread
    split
    · exact hmembers _ _ c
    · exact .refl _

end Graph.Pass

namespace Sheet

variable {s s' : Sheet} {env : Environment} {p p' : Pass Contents} {i k : Slot} {c v : Vertex} {e : Expression}
  {floor : Store} {floors : Slot → Store} {look : Pass.Look} {limit : Nat} {uncut : Prop}

/-- Steps make a sheet no smaller. -/
theorem spans_looked (hl : Pass.Looked env.handler limit p i look p') : p.state.store.Spans p'.state.store := by
  cases hl with
  | idle => exact .refl _
  | waits => exact .refl _
  | @cycle v => exact Pass.spans_deliver env v Pass.failure p.state
  | @read v => exact Pass.spans_deliver env v _ p.state
  | @value v e x volatile state hready he hrun =>
    rw [← (Environment.calculate_value hrun).2.2]
    exact Pass.spans_deliver env v x state
  | @exhausted v e d state hready he hrun =>
    rw [← (Environment.calculate_rewire hrun).2.2]
    exact Pass.spans_deliver env v Pass.failure state
  | @rewired v e d state hready he hrun =>
    change p.state.store.Spans state.store
    rw [(Environment.calculate_rewire hrun).2.2]
    exact .refl _

/-! ### Formulas that a step is not about -/

/-- A step leaves other clean formulas alone. -/
theorem undisturbed_looked (h : (env.sheetAt p).Faithful) (hm : uncut → (env.sheetAt p).Midway)
    (hl : Pass.Looked env.handler limit p i look p') (hk : k ≠ i) (hc : p.graph.gist? k = some c)
    (hclean : c.dirty = false) : Undisturbed uncut (env.sheetAt p) (env.sheetAt p') c.position c.profile := by
  have hspans := spans_looked hl
  have hprofile : (env.sheetAt p).graph.profileAt? c.position = some c.profile := h.wellFormed.profileAt?_of_gist? hc
  have hne (v : Vertex) (hlooking : (env.sheetAt p).Looking i v) : c.position ≠ v.position := by
    intro heq
    have hslot := h.wellFormed.slot?_of_gist? hc
    rw [heq, hlooking.slot, Option.some.injEq] at hslot
    exact hk hslot.symm
  -- a step that settles a vertex delivers its result
  have hsettle {v : Vertex} {x : Value} {state : Contents} {f : Vertex → Vertex}
      (hv : p.graph.refreshCycles.vertex? i = some v) (hd : v.dirty = true)
      (hu : Updates i f (p.graph.charted i) p'.graph) (hf : ∀ v, (f v).dirty = false)
      (hstate : state.store = p.state.store)
      (hp' : p'.state.store = (((Pass.deliver env.handler v x).run state).2).store) :
      Undisturbed uncut (env.sheetAt p) (env.sheetAt p') c.position c.profile := by
    have hlooking := h.looking hv
    obtain ⟨b, hb⟩ := hlooking.charted
    have hsettled := hu.settledAt (upToCycles_charted p.graph i) h.wellFormed hb (hf _)
    have hstore : Store.Delivered v.position v.content x p.state.store p'.state.store := by
      rw [hp']
      exact delivered h.arranged hlooking.content x hstate
    have henv : (env.sheetAt p').toEnvironment = (env.sheetAt p).toEnvironment := rfl
    exact undisturbed_settle hm henv hspans hsettled hd hstore (hne v hlooking) hprofile hclean
  cases hl with
  | idle => exact .of_upToCycles (upToCycles_refreshCycles p.graph)
  | waits => exact .of_upToCycles (upToCycles_charted p.graph i)
  | cycle hv hd => exact hsettle hv hd (updates_modify _ i (Pass.keeps_settled Pass.failure)) (fun _ => rfl) rfl rfl
  | read hready =>
    exact hsettle hready.vertex hready.dirty (updates_modify _ i (Pass.keeps_settled _)) (fun _ => rfl) rfl rfl
  | @value v e x volatile state hready he hrun =>
    have hu := (Pass.updates_noteVolatile (p.graph.charted i) i volatile).trans
      (updates_modify _ i (Pass.keeps_settled x))
    exact hsettle hready.vertex hready.dirty hu (fun _ => rfl) (Environment.calculate_value hrun).2.2 rfl
  | @exhausted v e d state hready he hrun =>
    have hu := (Pass.updates_retried p i state).trans (updates_modify _ i (Pass.keeps_settled Pass.failure))
    exact hsettle hready.vertex hready.dirty hu (fun _ => rfl) (Environment.calculate_rewire hrun).2.2 rfl
  | @rewired v e d state hready he hrun =>
    have hlooking := h.looking hready.vertex
    exact undisturbed_rewire hm rfl (hlooking.rewiredAt h hready.dirty state d _) hready.dirty
      (Environment.calculate_rewire hrun).2.2 (mt (hlooking.cyclicAt_iff h).1 hready.acyclic) (hne v hlooking)
      hprofile hclean

/-! ### In the middle of a pass -/

/-- What is known of the vertex in a slot in the middle of a pass. -/
structure RecordingAt (uncut : Prop) (floor : Store) (s : Sheet) (k : Slot) : Prop where
  start : floor.Spans s.store
  bounded : ∀ c, s.graph.gist? k = some c → c.dirty = true → c.rebuilds ≤ s.settings.limits.rebuilds
  recorded : RecordedAt uncut floor s k
  /-- Only clean volatile formulas are listed. -/
  listed : k ∈ s.graph.volatiles → ∃ c e, s.graph.gist? k = some c ∧ c.content.expression? = some e ∧
    c.dirty = false ∧ c.volatile = true ∧ ∃ σ t m, Calculation uncut floor s c e σ t m

/-- A sheet in the middle of a pass, with what is known of its vertices. -/
structure Recording (uncut : Prop) (floors : Slot → Store) (s : Sheet) : Prop where
  faithful : s.Faithful
  midway : uncut → s.Midway
  vertex : ∀ k, RecordingAt uncut (floors k) s k

namespace RecordingAt

/-- A vertex that is left alone. -/
theorem same (h : RecordingAt uncut floor s k) (henv : s'.toEnvironment = s.toEnvironment)
    (hspans : s.store.Spans s'.store) (hgist : s'.graph.gist? k = s.graph.gist? k)
    (hlist : k ∈ s'.graph.volatiles ↔ k ∈ s.graph.volatiles)
    (hu : ∀ c, s.graph.gist? k = some c → c.dirty = false → Undisturbed uncut s s' c.position c.profile) :
    RecordingAt uncut floor s' k := by
  refine ⟨h.start.trans hspans, fun c hc hd => ?_, fun c e hc he hclean => ?_, fun hk => ?_⟩
  · rw [henv]
    exact h.bounded c (hgist ▸ hc) hd
  · rw [hgist] at hc
    rw [hlist]
    exact record_undisturbed (h.recorded c e hc he hclean) (hu c hc hclean) id
  · obtain ⟨c, e, hc, he, hclean, hv, σ, t, m, hcalc⟩ := h.listed (hlist.1 hk)
    exact ⟨c, e, hgist ▸ hc, he, hclean, hv, σ, t, m, hcalc.undisturbed (hu c hc hclean)⟩

/-- A slot that holds no vertex, or a new one. -/
theorem fresh (hstart : floor.Spans s.store) (hgist : ∀ c, s.graph.gist? k = some c → ∃ q, c = { position := q })
    (hlist : k ∉ s.graph.volatiles) : RecordingAt uncut floor s k := by
  refine ⟨hstart, fun c hc hd => ?_, fun c e hc he _ => ?_, fun hk => absurd hk hlist⟩ <;>
    obtain ⟨q, rfl⟩ := hgist c hc
  · cases hd
  · cases he

/-- A vertex that has just been settled without being listed: it has no formula, or it has failed. -/
theorem unlisted (hstart : floor.Spans s.store) (hgist : s.graph.gist? k = some c) (hclean : c.dirty = false)
    (hlist : k ∉ s.graph.volatiles) (hself : c.content.expression? = none ∨ Failed uncut s c) :
    RecordingAt uncut floor s k := by
  refine ⟨hstart, fun c' hc hd => ?_, fun c' e hc he _ => ?_, fun hk => absurd hk hlist⟩ <;>
    rw [hgist, Option.some.injEq] at hc <;> subst hc
  · rw [hclean] at hd
    cases hd
  · refine .inl (hself.resolve_left ?_)
    rw [he]
    exact Option.some_ne_none e

/-- A vertex whose formula has just been calculated. -/
theorem calculated {σ : Store} {t : Clock} {m : Simulation.Model} (hstart : floor.Spans s.store)
    (hgist : s.graph.gist? k = some c) (hclean : c.dirty = false) (he : c.content.expression? = some e)
    (hlist : k ∈ s.graph.volatiles ↔ c.volatile = true) (hcalc : Calculation uncut floor s c e σ t m) :
    RecordingAt uncut floor s k := by
  refine ⟨hstart, fun c' hc hd => ?_, fun c' e' hc he' _ => ?_, fun hk =>
    ⟨c, e, hgist, he, hclean, hlist.1 hk, σ, t, m, hcalc⟩⟩ <;> rw [hgist, Option.some.injEq] at hc <;> subst hc
  · rw [hclean] at hd
    cases hd
  · rw [he, Option.some.injEq] at he'
    subst he'
    exact .inr ⟨⟨σ, t, m, hcalc⟩, hlist.2⟩

/-- A dirty vertex. -/
theorem dirty (hstart : floor.Spans s.store) (hgist : s.graph.gist? k = some c) (hd : c.dirty = true)
    (hlimit : c.rebuilds ≤ s.settings.limits.rebuilds) (hlist : k ∉ s.graph.volatiles) :
    RecordingAt uncut floor s k := by
  refine ⟨hstart, fun c' hc _ => ?_, fun c' e hc _ hclean => ?_, fun hk => absurd hk hlist⟩ <;>
    rw [hgist, Option.some.injEq] at hc <;> subst hc
  · exact hlimit
  · rw [hd] at hclean
    cases hclean

/-- Dirty vertices are not listed. -/
theorem not_listed (h : RecordingAt uncut floor s k) (hd : s.graph.isDirty k = true) : k ∉ s.graph.volatiles := by
  intro hk
  obtain ⟨c, -, hc, -, hclean, -⟩ := h.listed hk
  obtain ⟨v, hv, rfl⟩ := gist?_eq_some_iff.1 hc
  rw [isDirty_iff_of_vertex? hv] at hd
  exact Bool.false_ne_true (hclean.symm.trans hd)

/-- Slots without vertices are not listed. -/
theorem not_listed_of_dead (h : RecordingAt uncut floor s k) (hdead : ¬s.graph.Live k) : k ∉ s.graph.volatiles := by
  intro hk
  obtain ⟨c, -, hc, -⟩ := h.listed hk
  obtain ⟨v, hv, -⟩ := gist?_eq_some_iff.1 hc
  exact hdead ⟨v, hv⟩

end RecordingAt

namespace Recording

/-- What is known of the vertices that a step is not about. -/
theorem looked_of_ne (h : Recording uncut floors (env.sheetAt p))
    (hl : Pass.Looked env.handler limit p i look p') (hk : k ≠ i) :
    RecordingAt uncut (floors k) (env.sheetAt p') k := by
  have hwell := h.faithful.wellFormed
  have hlist := hl.mem_volatiles_of_ne hwell hk
  by_cases hlive : p.graph.Live k
  · exact (h.vertex k).same rfl (spans_looked hl) (hl.gist?_of_ne hwell hk hlive) hlist fun c hc hclean =>
      undisturbed_looked h.faithful h.midway hl hk hc hclean
  · have hdead : k ∉ p.graph.volatiles := (h.vertex k).not_listed_of_dead hlive
    refine .fresh ((h.vertex k).start.trans (spans_looked hl)) (fun c hc => ?_) (mt hlist.1 hdead)
    obtain ⟨v, hv, -⟩ := gist?_eq_some_iff.1 hc
    obtain ⟨q, hq⟩ := hl.gist?_fresh hwell hlive ⟨v, hv⟩
    exact ⟨q, Option.some.inj (hc.symm.trans hq)⟩

/-- The calculation that a step makes. -/
theorem calculation (h : Recording uncut floors (env.sheetAt p)) {x : Value} {volatile : Bool} {state : Contents}
    (hready : p.Ready i v) (hrun : (env.handler.calculate v e).run p.state = (.value x volatile, state))
    (hp' : p' = Pass.finish env.handler
      { p with graph := Pass.noteVolatile (p.graph.charted i) i volatile, state } i v x) :
    Calculation uncut (floors i) (env.sheetAt p') (Pass.settled x (Pass.noted volatile v)).gist e p.state.store env.clock
      p.state.model := by
  have hfaithful := h.faithful
  have hold := h.vertex i
  have hlooking := hfaithful.looking hready.vertex
  have hchart := upToCycles_charted p.graph i
  obtain ⟨b, hb⟩ := hlooking.charted
  obtain ⟨hareas, hx, hstate⟩ := Environment.calculate_value hrun
  have hu : Updates i (Pass.settled x ∘ Pass.noted volatile) (p.graph.charted i) p'.graph := by
    rw [hp']
    exact (Pass.updates_noteVolatile (p.graph.charted i) i volatile).trans (updates_modify _ i (Pass.keeps_settled x))
  have hsettled := hu.settledAt hchart hfaithful.wellFormed hb rfl
  have hacyclic := mt (hlooking.cyclicAt_iff hfaithful).1 hready.acyclic
  have hstore : Store.Delivered v.position v.content x p.state.store (env.sheetAt p').store := by
    rw [hp']
    exact delivered hfaithful.arranged hlooking.content x hstate
  have hspans : p.state.store.Spans p'.state.store := by
    rw [hp', ← hstate]
    exact Pass.spans_deliver env v x state
  have hgist := gist?_of_vertex? hb
  exact
    { limit := hold.bounded v.gist ((hchart.gist? i).symm.trans hgist) hready.dirty
      volatile := Environment.calculate_volatile hrun
      covered := hareas
      spans := ⟨hold.start, hspans⟩
      bypassed := fun _ hcycle => absurd (hsettled.cyclicAt_iff.1 hcycle) hacyclic
      written := fun _ hw => by
        have hcontent := funext hsettled.contentAt
        have hwritten := hcontent ▸ hw
        exact hacyclic (hwritten.cyclicAt hfaithful.wellFormed hfaithful.wired hfaithful.arrayed hfaithful.informed)
      value := fun hc => .inr (.inr ⟨hx ▸ hstore.shows, fun y hy =>
        (h.midway hc).agreeAt_delivered hlooking hready.acyclic hstore hy⟩) }

/-- What is known of the vertex that a step is about. -/
theorem looked_self (h : Recording uncut floors (env.sheetAt p))
    (hl : Pass.Looked env.handler env.settings.limits.rebuilds p i look p') :
    RecordingAt uncut (floors i) (env.sheetAt p') i := by
  have hfaithful := h.faithful
  have hold := h.vertex i
  have hspans := spans_looked hl
  have hstart := hold.start.trans hspans
  have hchart := upToCycles_charted p.graph i
  have hunlisted (hlook : look ≠ .calculated) (hd : p.graph.isDirty i = true) : i ∉ p'.graph.volatiles := by
    rw [(hl.volatiles hfaithful.wellFormed).resolve_right fun hc => hlook hc.1]
    exact hold.not_listed hd
  cases hl with
  | idle =>
    have hup := upToCycles_refreshCycles p.graph
    exact hold.same rfl (.refl _) (hup.gist? i) (iff_of_eq (congrArg (i ∈ ·) hup.volatiles)) fun _ _ _ =>
      .of_upToCycles hup
  | waits =>
    exact hold.same rfl (.refl _) (hchart.gist? i) (iff_of_eq (congrArg (i ∈ ·) hchart.volatiles)) fun _ _ _ =>
      .of_upToCycles hchart
  | @cycle v hv hd hcycle =>
    have hlooking := hfaithful.looking hv
    have hu := updates_modify (p.graph.charted i) i (Pass.keeps_settled Pass.failure)
    obtain ⟨b, hb⟩ := hlooking.charted
    have hsettled := hu.settledAt hchart hfaithful.wellFormed hb rfl
    have hlist := hunlisted Pass.Look.noConfusion (Pass.isDirty_of_refreshed hv hd)
    have hcyclic := hsettled.cyclicAt_iff.2 ((hlooking.cyclicAt_iff hfaithful).2 hcycle)
    exact .unlisted hstart (hu.gist?_self hb) rfl hlist (.inr ⟨rfl, fun _ => .inr hcyclic⟩)
  | @read v hready hvalue =>
    have hlooking := hfaithful.looking hready.vertex
    have hu := updates_modify (p.graph.charted i) i (Pass.keeps_settled ((env.handler.read v.position).run p.state).1)
    obtain ⟨b, hb⟩ := hlooking.charted
    refine .unlisted hstart (hu.gist?_self hb) rfl ?_ (.inl ((Vertex.expression?_eq v).symm.trans hvalue))
    change i ∉ ((p.graph.charted i).modify i (Pass.settled ((env.handler.read v.position).run p.state).1)).volatiles
    rw [volatiles_modify, hchart.volatiles]
    exact hold.not_listed (Pass.isDirty_of_refreshed hready.vertex hready.dirty)
  | @value v e x volatile state hready he hrun =>
    have hlooking := hfaithful.looking hready.vertex
    have hu := (Pass.updates_noteVolatile (p.graph.charted i) i volatile).trans
      (updates_modify _ i (Pass.keeps_settled x))
    obtain ⟨b, hb⟩ := hlooking.charted
    have hcalc := h.calculation hready hrun rfl
    refine .calculated hstart (hu.gist?_self hb) rfl ((Vertex.expression?_eq v).symm.trans he) ?_ hcalc
    change i ∈ ((Pass.noteVolatile (p.graph.charted i) i volatile).modify i (Pass.settled x)).volatiles ↔ _
    rw [volatiles_modify, Pass.noteVolatile, hchart.volatiles]
    have hnot := hold.not_listed (Pass.isDirty_of_refreshed hready.vertex hready.dirty)
    cases volatile with
    | false => exact iff_of_false hnot Bool.false_ne_true
    | true => exact iff_of_true (List.mem_append_right _ (List.mem_singleton_self i)) rfl
  | @exhausted v e d state hready he hrun hlimit =>
    have hlooking := hfaithful.looking hready.vertex
    have hu := (Pass.updates_retried p i state).trans (updates_modify _ i (Pass.keeps_settled Pass.failure))
    obtain ⟨b, hb⟩ := hlooking.charted
    have hlist := hunlisted Pass.Look.noConfusion (Pass.isDirty_of_refreshed hready.vertex hready.dirty)
    exact .unlisted hstart (hu.gist?_self hb) rfl hlist (.inr ⟨rfl, fun _ => .inl (Nat.lt_succ_of_le hlimit)⟩)
  | @rewired v e d state hready he hrun hlimit =>
    have hlooking := hfaithful.looking hready.vertex
    have hcount := Pass.updates_retried p i state
    obtain ⟨b, hb⟩ := hlooking.charted
    have hrewired := Pass.rewired_retried hfaithful.wellFormed hready state d
    have hlist := hunlisted Pass.Look.noConfusion (Pass.isDirty_of_refreshed hready.vertex hready.dirty)
    exact .dirty hstart (hrewired.gist?_self (hcount.vertex_self hb)) hready.dirty hlimit hlist

/-- Every step keeps what is known of all vertices. -/
theorem step (h : Recording uncut floors (env.sheetAt p)) (hknown : p.graph.CyclesKnown) (i : Slot) :
    Recording uncut floors (env.sheetAt (p.step env.handler env.settings.limits.rebuilds i)) := by
  have hl := Pass.looked_step hknown env.handler env.settings.limits.rebuilds i
  refine ⟨(h.faithful.step hknown i).1, fun hc => (h.midway hc).step hknown i, fun k => ?_⟩
  by_cases hk : k = i
  · subst hk
    exact h.looked_self hl
  · exact h.looked_of_ne hl hk

/-- Where a pass is cut short, no vertex changes. -/
theorem cut (h : Recording uncut floors (env.sheetAt p)) (k : Slot) :
    RecordingAt uncut (floors k) (env.sheetAt p.cut) k :=
  (h.vertex k).same rfl (.refl _) rfl Iff.rfl fun _ _ _ => .of_same ⟨env.clock, rfl⟩ rfl rfl rfl

theorem run (h : Recording uncut floors (env.sheetAt p)) (hu : p.Underway) (steps : Nat) (k : Slot) :
    RecordingAt uncut (floors k) (env.sheetAt (p.run env.handler env.settings.limits.rebuilds steps)) k := by
  induction steps generalizing p with
  | zero =>
    unfold Pass.run
    cases p.queue with
    | nil => exact h.vertex k
    | cons i rest => exact h.cut k
  | succ steps ih =>
    unfold Pass.run
    cases hq : p.queue with
    | nil => exact h.vertex k
    | cons i rest => exact ih (Recording.step (p := p.taken rest) h hu.cycles i) (hu.step hq env.handler _)

end Recording

/-! ### The beginning of a pass -/

/-- Once the listed formulas have been marked, none is listed, and those that stay clean are not volatile. -/
theorem Recorded.markVolatile (h : Recorded uncut s) (hs : s.Kept uncut) :
    Recorded uncut { s with graph := s.graph.markVolatile } := by
  intro k c e hc he hclean
  have hmarks := marks_markVolatile s.graph
  have hgist : s.graph.gist? k = some c := by
    rcases hmarks.vertex k with hsame | ⟨v, -, hmark⟩
    · rw [← hc, gist?, gist?, hsame]
      rfl
    · rw [gist?_of_vertex? hmark, Option.some.injEq] at hc
      rw [← hc] at hclean
      cases hclean
  have hu := hs.amends_markVolatile.undisturbed hs (.refl _)
    (hs.firm.markVolatile.toWellFormed.profileAt?_of_gist? hc) hclean (ne_none_of_expression he)
  refine record_undisturbed (h k c e hgist he hclean) hu fun hlisted hv => absurd hclean ?_
  obtain ⟨v, hvertex, rfl⟩ := gist?_eq_some_iff.1 hgist
  have hdirty : s.graph.markVolatile.isDirty k = true := isDirty_markEach (hlisted hv) ⟨v, hvertex⟩
  obtain ⟨w, hw, hd⟩ := isDirty_iff.1 hdirty
  rw [gist?_of_vertex? hw, Option.some.injEq] at hc
  rw [← hc]
  exact ne_false_of_eq_true hd

theorem volatiles_markVolatile (g : Graph) : g.markVolatile.volatiles = [] := (marks_markVolatile g).volatiles

theorem volatiles_rested (g : Graph) (is : List Slot) : (g.rested is).volatiles = g.volatiles := by
  induction is generalizing g with
  | nil => rfl
  | cons i is ih => exact (ih _).trans (volatiles_modify ..)

/-- A pass begins with no formula listed. -/
theorem Recorded.begin (h : Recorded uncut s) (hs : s.Kept uncut) (hnone : s.graph.volatiles = [])
    (hfloors : ∀ k, floors k = {} ∨ floors k = s.store ∧ s.graph.isDirty k = true) :
    Recording uncut floors (s.sheetAt (s.graph.beginPass s.toContents)) := by
  have hu := hs.firm.toSound.underway s.toContents
  have hplan := samePlan_beginPass s.graph s.toContents
  have hsame (q : Position) (f : Profile) : Undisturbed uncut s (s.sheetAt (s.graph.beginPass s.toContents)) q f :=
    .of_same ⟨s.clock, rfl⟩ rfl hplan.arrow_eq (funext hplan.contentAt)
  have hlist (k : Slot) : k ∉ (s.graph.beginPass s.toContents).graph.volatiles := by
    rw [show (s.graph.beginPass s.toContents).graph.volatiles = s.graph.volatiles from
      volatiles_rested { s.graph with marked := [] } s.graph.marked, hnone]
    exact List.not_mem_nil
  have hgist (k : Slot) (c : Vertex) (hc : (s.graph.beginPass s.toContents).graph.gist? k = some c) :
      ∃ c₀, s.graph.gist? k = some c₀ ∧ (if k ∈ s.graph.marked then { c₀ with rebuilds := 0 } else c₀) = c := by
    rw [Pass.gist?_beginPass] at hc
    exact Option.map_eq_some_iff.1 hc
  refine ⟨hs.faithful.beginPass hu.wellFormed, fun hc => (hs.coherent hc).midway, fun k => ⟨?_, fun c hc hd => ?_,
    fun c e hc he hclean => ?_, fun hk => absurd hk (hlist k)⟩⟩
  · rcases hfloors k with hfloor | ⟨hfloor, -⟩ <;> rw [hfloor]
    · exact .empty _
    · exact .refl _
  · obtain ⟨c₀, hc₀, rfl⟩ := hgist k c hc
    obtain ⟨v, hv, rfl⟩ := gist?_eq_some_iff.1 hc₀
    have hmarked : k ∈ s.graph.marked := by
      refine hs.firm.noted k ((isDirty_iff_of_vertex? hv).2 ?_)
      split at hd <;> exact hd
    rw [if_pos hmarked]
    exact Nat.zero_le _
  · obtain ⟨c₀, hc₀, rfl⟩ := hgist k c hc
    have hclean₀ : c₀.dirty = false := by split at hclean <;> exact hclean
    have he₀ : c₀.content.expression? = some e := by split at he <;> exact he
    have hdirty : ¬s.graph.isDirty k = true := by
      obtain ⟨v, hv, rfl⟩ := gist?_eq_some_iff.1 hc₀
      rw [isDirty_iff_of_vertex? hv]
      exact ne_true_of_eq_false hclean₀
    rw [(hfloors k).resolve_right fun hfloor => hdirty hfloor.2]
    have hrecord := h k c₀ e hc₀ he₀ hclean₀
    rw [hnone] at hrecord
    split
    · rename_i hmarked
      rcases hrecord with hfailed | ⟨⟨σ, t, m, hcalc⟩, hlisted⟩
      · exact .inl ⟨hfailed.result, fun hc => absurd ((hs.orderly hc).marked_dirty k hmarked) hdirty⟩
      · refine .inr ⟨⟨σ, t, m, ?_⟩, fun hv => absurd (hlisted hv) List.not_mem_nil⟩
        exact { hcalc.undisturbed (hsame _ _) with limit := Nat.zero_le _ }
    · exact record_undisturbed hrecord (hsame _ _) fun hlisted hv => absurd (hlisted hv) List.not_mem_nil

/-! ### Whole passes -/

/-- What is known of a vertex after a pass: if its formula had to be calculated, the sheet was no smaller then than
before the pass. -/
theorem Recorded.recalculate (h : Recorded uncut s) (hs : s.Kept uncut) (k : Slot) :
    RecordingAt uncut (if s.graph.markVolatile.isDirty k then s.store else {}) s.recalculate.2 k := by
  have hmark := hs.markVolatile
  have hfloors (k : Slot) : (if s.graph.markVolatile.isDirty k then s.store else {}) = ({} : Store) ∨
      (if s.graph.markVolatile.isDirty k then s.store else {}) = s.store ∧
        s.graph.markVolatile.isDirty k = true := by
    split
    · rename_i hd
      exact .inr ⟨rfl, hd⟩
    · exact .inl rfl
  have hbegin := (h.markVolatile hs).begin hmark (volatiles_markVolatile s.graph) hfloors
  exact hbegin.run (hmark.firm.toSound.underway s.toContents) s.settings.limits.steps k

/-- Whatever has been done to a sheet, it is known of its clean formulas how they have come by their results. -/
theorem Attained.recorded (h : s.Attained uncut) : Recorded uncut s := by
  refine h.invariant recorded_rebuild (fun s s' hs hamends hcarried ih => ih.amends hs hamends hcarried)
    (fun s hs ih k => ?_) fun s clock model ih => ih.elapse clock model
  exact (ih.recalculate hs k).recorded.weaken

/-- After a pass that has not been cut short nothing is dirty or noted. -/
theorem Kept.clean_recalculate (h : s.Kept uncut) (hcut : s.recalculate.1.truncated = false) :
    (∀ k, ¬s.recalculate.2.graph.isDirty k = true) ∧ s.recalculate.2.graph.marked = [] := by
  have hu := h.markVolatile.firm.toSound.underway s.toContents
  obtain ⟨moments, hr⟩ := Pass.runs_run hcut
  exact ⟨fun k => (hr.underway hu).clean hr.queue k, (hr.underway hu).marked⟩

end Sheet

end Spreadsheet
