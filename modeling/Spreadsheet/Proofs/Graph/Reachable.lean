import Mathlib
import Spreadsheet.Proofs.Graph.Settling

/-!
Graphs that can come about. Starting from the empty graph, vertices and edges come and go in any order,
vertices are given formulas and are marked, and passes are made over the graph, with any handler and any
bounds. All that comes about in this way is sound, and a pass over it settles what is dirty. Edits may also come in the
middle of a pass: at all times the search answers whether a vertex is on a cycle, and what is kept about a vertex is
that answer for the edges of the moment, as long as the graph does not know that edges have changed.
-/

namespace Spreadsheet.Graph

variable {σ : Type} {g : Graph} {h : Handler σ} {limit : Nat}

/-! ### Soundness after a pass -/

theorem noted_of_clean (h : ∀ k, ¬g.isDirty k = true) : g.Noted := fun k hk => absurd hk (h k)

/-- A pass that is cut short notes what it leaves dirty. -/
theorem Pass.Underway.sound_cut {p : Pass σ} (hu : p.Underway) : p.cut.graph.Sound := by
  refine ⟨⟨hu.wellFormed.place, hu.wellFormed.free, hu.wellFormed.free_nodup, hu.wellFormed.linked⟩,
    hu.cycles, fun k hk => List.mem_filter.2 ⟨List.mem_range.2 ?_, hk⟩⟩
  obtain ⟨v, hv⟩ := live_of_isDirty hk
  exact lt_size_of_vertex? hv

/-- After a pass the graph is sound, even if the pass has been cut short. -/
theorem Pass.Underway.sound_run {p : Pass σ} (hu : p.Underway) (h : Handler σ) (limit steps : Nat) :
    (p.run h limit steps).graph.Sound := by
  induction steps generalizing p with
  | zero =>
    unfold Pass.run
    cases hq : p.queue with
    | nil => exact ⟨hu.wellFormed, hu.cycles, noted_of_clean (hu.clean hq)⟩
    | cons i rest => exact hu.sound_cut
  | succ steps ih =>
    unfold Pass.run
    cases hq : p.queue with
    | nil => exact ⟨hu.wellFormed, hu.cycles, noted_of_clean (hu.clean hq)⟩
    | cons i rest => exact ih (hu.step hq h limit)

theorem Sound.recalculate (hg : g.Sound) (h : Handler σ) (limits : Limits) (state : σ) :
    (g.recalculate h limits state).graph.Sound :=
  (hg.underway state).sound_run h limits.rebuilds limits.steps

/-! ### Reachable graphs -/

/-- A graph that comes about from the empty one. -/
inductive Reachable : Graph → Prop
  | empty : Reachable {}
  | ensure {g : Graph} (hg : Reachable g) (p : Position) : Reachable (g.ensure p).2
  | remove {g : Graph} (hg : Reachable g) (p : Position) : Reachable (g.remove p)
  | connect {g : Graph} (hg : Reachable g) (i j : Slot) : Reachable (g.connect i j)
  | disconnect {g : Graph} (hg : Reachable g) (i j : Slot) : Reachable (g.disconnect i j)
  | clearInputs {g : Graph} (hg : Reachable g) (i : Slot) : Reachable (g.clearInputs i)
  | isolate {g : Graph} (hg : Reachable g) (i : Slot) : Reachable (g.isolate i)
  | rewire {g : Graph} (hg : Reachable g) (i : Slot) (d : Dependencies) : Reachable (g.rewire i d)
  /-- A vertex is given a formula, or loses it. -/
  | assign {g : Graph} (hg : Reachable g) (i : Slot) (content : Vertex.Content) (volatile : Bool) :
    Reachable (g.modify i fun v => { v with content, volatile })
  | markFrom {g : Graph} (hg : Reachable g) (i : Slot) : Reachable (g.markFrom i)
  | setDirty {g : Graph} (hg : Reachable g) (p : Position) : Reachable (g.setDirty p)
  | markVolatile {g : Graph} (hg : Reachable g) : Reachable g.markVolatile
  | recalculate {g : Graph} (hg : Reachable g) {σ : Type} (h : Handler σ) (limits : Limits) (state : σ) :
    Reachable (g.recalculate h limits state).graph

theorem Reachable.sound (hg : g.Reachable) : g.Sound := by
  induction hg with
  | empty => exact .empty
  | ensure _ p ih => exact ih.ensure p
  | remove _ p ih => exact ih.remove p
  | connect _ i j ih => exact ih.connect i j
  | disconnect _ i j ih => exact ih.disconnect i j
  | clearInputs _ i ih => exact ih.clearInputs i
  | isolate _ i ih => exact ih.isolate i
  | rewire _ i d ih => exact ih.rewire i d
  | assign _ i content volatile ih =>
    exact ih.modify (f := fun v => { v with content, volatile }) (fun _ => rfl) (fun _ => rfl) (fun _ => rfl)
      (fun _ => rfl) fun _ hd => hd
  | markFrom _ i ih => exact ih.markFrom i
  | setDirty _ p ih => exact ih.setDirty p
  | markVolatile _ ih => exact ih.markVolatile
  | recalculate _ h limits state ih => exact ih.recalculate h limits state

/-! ### What a pass comes to -/

/-- What is claimed of the moments of a pass, of which a log is kept, and of its end. -/
structure Settles (g : Graph) (h : Handler σ) (limit : Nat) (state : σ)
    (moments : List (Pass (σ × List Call) × Slot)) (p' : Pass (σ × List Call)) : Prop where
  /-- These are the moments at which the pass looks at slots, up to its end. -/
  runs : Pass.Runs h.logged limit (g.beginPass (state, [])) moments p'
  /-- With enough steps the pass comes to this end, with or without a log, and is not cut short. -/
  ends : ∀ steps, moments.length ≤ steps →
    g.recalculate h.logged ⟨limit, steps⟩ (state, []) = p' ∧
      g.recalculate h ⟨limit, steps⟩ state = p'.forget ∧ p'.queue = [] ∧ p'.tally.truncated = false
  /-- No vertex is dirty at the end. -/
  clean : ∀ i, p'.graph.isDirty i = false
  /-- Each vertex that was dirty is settled once, and no other one is. -/
  once : (Pass.settlings h.logged limit moments).Nodup ∧
    ∀ i, i ∈ Pass.settlings h.logged limit moments ↔ g.isDirty i = true
  /-- So the tally adds up. -/
  count : p'.tally.calculated + p'.tally.cycles + Pass.occurrences h.logged limit .exhausted moments =
    g.dirtyCount
  /-- Each call is made for a vertex that was dirty, and each calculation when all inputs are clean. -/
  calls : ∀ q i, (q, i) ∈ moments → ∃ calls, (q.step h.logged limit i).state.2 = q.state.2 ++ calls ∧
    (calls ≠ [] → ∃ v w, g.vertex? i = some v ∧ v.dirty = true ∧
      q.graph.refreshCycles.vertex? i = some w ∧ w.position = v.position ∧ w.content = v.content ∧
      Pass.Makes w (q.look h.logged limit i) calls) ∧
    ((∃ w e, .calculate w e ∈ calls) → ∀ k, q.graph.Input k i → q.graph.isDirty k = false)

theorem Pass.calculate_not_mem_delivery (v w : Vertex) (x : Value) (e : Expression) :
    Call.calculate w e ∉ Pass.delivery v x := by
  unfold Pass.delivery
  cases v.content <;> simp

/-- Only steps that go on to calculate a vertex ask for a calculation. -/
theorem Pass.Makes.look {v w : Vertex} {look : Pass.Look} {calls : List Call} {e : Expression}
    (hm : Pass.Makes v look calls) (hc : .calculate w e ∈ calls) :
    look = .calculated ∨ look = .exhausted ∨ look = .rewired := by
  cases hm with
  | idle => cases hc
  | waits => cases hc
  | cycle => exact absurd hc (Pass.calculate_not_mem_delivery _ _ _ _)
  | read => exact .inl rfl
  | value => exact .inl rfl
  | exhausted => exact .inr (.inl rfl)
  | rewired => exact .inr (.inr rfl)

/-- The calls at one moment of a pass. -/
theorem Pass.Moment.calls {p q : Pass (σ × List Call)} (hm : Pass.Moment p q) (h : Handler σ) (limit : Nat)
    (i : Slot) : ∃ calls, (q.step h.logged limit i).state.2 = q.state.2 ++ calls ∧
      (calls ≠ [] → ∃ v w, p.graph.vertex? i = some v ∧ v.dirty = true ∧
        q.graph.refreshCycles.vertex? i = some w ∧ w.position = v.position ∧ w.content = v.content ∧
        Pass.Makes w (q.look h.logged limit i) calls) ∧
      ((∃ w e, .calculate w e ∈ calls) → ∀ k, q.graph.Input k i → q.graph.isDirty k = false) := by
  have hl := Pass.looked_step hm.cycles h.logged limit i
  by_cases hidle : q.look h.logged limit i = .idle
  · rw [hidle] at hl
    generalize q.step h.logged limit i = q' at hl ⊢
    cases hl with
    | idle => exact ⟨[], (List.append_nil _).symm, fun hc => absurd rfl hc, by simp⟩
  · obtain ⟨v, hv, hd⟩ := isDirty_iff.1 (hm.dirty i (hl.isDirty hidle))
    obtain ⟨u, hu, hpos, hcontent⟩ := hm.vertex i v hv
    obtain ⟨b, hw⟩ := (upToCycles_refreshCycles q.graph).vertex_of hu
    obtain ⟨calls, happend, hmakes⟩ := hl.makes hw
    refine ⟨calls, happend, fun _ => ⟨v, _, hv, hd, hw, hpos, hcontent, hmakes⟩, ?_⟩
    rintro ⟨w, e, hc⟩ k hk
    exact Bool.eq_false_iff.2 (hl.inputs_clean (hmakes.look hc) hk)

/-- A pass over a graph, whatever its handler answers, comes to its end, settles each dirty vertex once
and no other one, and asks for calculations only when all inputs are clean. -/
theorem Reachable.settles (hg : g.Reachable) (h : Handler σ) (limit : Nat) (state : σ) :
    ∃ moments p', Settles g h limit state moments p' := by
  have hu := hg.sound.underway (state, ([] : List Call))
  have hbound (k : Slot) (hk : (g.beginPass (state, ([] : List Call))).graph.isDirty k = true) :
      k < (g.beginPass (state, ([] : List Call))).graph.slots.size := by
    obtain ⟨v, hv⟩ := live_of_isDirty hk
    exact lt_size_of_vertex? hv
  obtain ⟨moments, p', hr⟩ := hu.runs h.logged limit hbound
  have hclean (i : Slot) : ¬p'.graph.isDirty i = true := (hr.underway hu).clean hr.queue i
  obtain ⟨hnodup, hmem⟩ := hr.settlings_spec hu
  have honce (i : Slot) : i ∈ Pass.settlings h.logged limit moments ↔ g.isDirty i = true := by
    rw [hmem, isDirty_beginPass]
    exact and_iff_left (hclean i)
  obtain ⟨hcalc, hcyc, htrunc⟩ := hr.tally hu
  refine ⟨moments, p', hr, fun steps hsteps => ?_, fun i => Bool.eq_false_iff.2 (hclean i), ⟨hnodup, honce⟩, ?_,
    fun q i hqi => ?_⟩
  · have hend : g.recalculate h.logged ⟨limit, steps⟩ (state, []) = p' := hr.run hsteps
    refine ⟨hend, ?_, hr.queue, htrunc⟩
    rw [← hend]
    exact (Pass.forget_run h limit steps (g.beginPass (state, []))).symm
  · rw [← length_eq_dirtyCount hnodup honce, Pass.length_settlings, hcalc, hcyc]
    change 0 + _ + (0 + _) + _ = _
    omega
  · obtain ⟨calls, happend, hcalls, hinputs⟩ := (hr.moment hu hqi).calls h limit i
    refine ⟨calls, happend, fun hne => ?_, hinputs⟩
    obtain ⟨v, w, hv, hd, hw, hpos, hcontent, hmakes⟩ := hcalls hne
    rw [vertex?_beginPass] at hv
    obtain ⟨u, hu', rfl⟩ := Option.map_eq_some_iff.1 hv
    refine ⟨u, w, hu', ?_, hw, ?_, ?_, hmakes⟩
    · split at hd <;> exact hd
    · rw [hpos]
      split <;> rfl
    · rw [hcontent]
      split <;> rfl

/-- A handler that is never content with what a formula is known to read. -/
def Handler.demanding (d : Dependencies) : Handler Unit where
  calculate _ _ := pure (.rewire d)
  read _ := pure .undefined
  store _ _ := pure ()
  spread _ _ := pure ()

/-- A graph with one formula, which is dirty. -/
def single : Graph :=
  (((ensure {} ⟨0, 0⟩).2).modify 0 fun v =>
    { v with content := .formula (.identifier 0 "x"), volatile := false }).rewire 0 {}

/-- Even a pass over a formula that asks again and again for its own cell comes to its end. -/
theorem settles_single_demanding :
    Reachable single ∧
      ∃ moments p', Settles single (.demanding { cells := [⟨0, 0⟩] }) 8 () moments p' :=
  have hg : Reachable single := ((Reachable.empty.ensure ⟨0, 0⟩).assign 0 _ false).rewire 0 {}
  ⟨hg, hg.settles _ 8 ()⟩

end Spreadsheet.Graph

/-! ### Cycles at all times -/

namespace Spreadsheet.Graph

open Relation

variable {σ : Type} {g : Graph} {i : Slot}

/-- A graph that comes about from the empty one, between edits or in the middle of a pass. -/
inductive Evolving : Graph → Prop
  | empty : Evolving {}
  | ensure {g : Graph} (hg : Evolving g) (p : Position) : Evolving (g.ensure p).2
  | remove {g : Graph} (hg : Evolving g) (p : Position) : Evolving (g.remove p)
  | connect {g : Graph} (hg : Evolving g) (i j : Slot) : Evolving (g.connect i j)
  | disconnect {g : Graph} (hg : Evolving g) (i j : Slot) : Evolving (g.disconnect i j)
  | clearInputs {g : Graph} (hg : Evolving g) (i : Slot) : Evolving (g.clearInputs i)
  | isolate {g : Graph} (hg : Evolving g) (i : Slot) : Evolving (g.isolate i)
  | rewire {g : Graph} (hg : Evolving g) (i : Slot) (d : Dependencies) : Evolving (g.rewire i d)
  /-- A vertex is given a formula, or loses it. -/
  | assign {g : Graph} (hg : Evolving g) (i : Slot) (content : Vertex.Content) (volatile : Bool) :
    Evolving (g.modify i fun v => { v with content, volatile })
  | markFrom {g : Graph} (hg : Evolving g) (i : Slot) : Evolving (g.markFrom i)
  | setDirty {g : Graph} (hg : Evolving g) (p : Position) : Evolving (g.setDirty p)
  | markVolatile {g : Graph} (hg : Evolving g) : Evolving g.markVolatile
  | beginPass {g : Graph} (hg : Evolving g) {σ : Type} (state : σ) : Evolving (g.beginPass state).graph
  | refreshCycles {g : Graph} (hg : Evolving g) : Evolving g.refreshCycles
  | checkCycle {g : Graph} (hg : Evolving g) (i : Slot) : Evolving (g.checkCycle i).2
  /-- A pass over the graph, whatever its queue and its cells are, looks at a slot. -/
  | step {σ : Type} {p : Pass σ} (hp : Evolving p.graph) (h : Handler σ) (limit : Nat) (i : Slot) :
    Evolving (p.step h limit i).graph
  | cut {σ : Type} {p : Pass σ} (hp : Evolving p.graph) : Evolving p.cut.graph

namespace Evolving

/-- Every operation and every step of a pass keeps what is known about cycles right. -/
theorem known (hg : g.Evolving) : g.WellFormed ∧ g.CyclesKnown := by
  induction hg with
  | empty => exact ⟨Sound.empty.toWellFormed, Sound.empty.cycles⟩
  | ensure _ p ih => exact ⟨ih.1.ensure p, (ih.1.extends_ensure 0 p).cyclesKnown ih.2⟩
  | remove _ p ih => exact ⟨ih.1.remove p, ih.2.remove ih.1 p⟩
  | connect _ i j ih => exact ⟨ih.1.connect i j, (extends_connect _ i j).cyclesKnown ih.2⟩
  | disconnect _ i j ih => exact ⟨ih.1.disconnect i j, cyclesKnown_of_stale rfl⟩
  | clearInputs _ i ih => exact ⟨ih.1.clearInputs i, cyclesKnown_clearInputs ih.2 i⟩
  | isolate _ i ih => exact ⟨ih.1.isolate i, ih.2.isolate i⟩
  | rewire _ i d ih => exact ⟨ih.1.rewire i d, ih.2.rewire ih.1 i d⟩
  | assign _ i content volatile ih =>
    exact ⟨ih.1.modify (fun _ => rfl) (fun _ => rfl) fun _ => rfl, ih.2.modify (fun _ => rfl) fun _ => rfl⟩
  | markFrom _ i ih => exact ⟨(marks_markAll _ _).wellFormed ih.1, ih.2.marks (marks_markAll _ _)⟩
  | setDirty _ p ih => exact ⟨(marks_setDirty _ p).wellFormed ih.1, ih.2.marks (marks_setDirty _ p)⟩
  | @markVolatile g _ ih =>
    have hforget : WellFormed { g with volatiles := [] } := ⟨ih.1.place, ih.1.free, ih.1.free_nodup, ih.1.linked⟩
    have hknown : CyclesKnown { g with volatiles := [] } := ih.2
    exact ⟨(marks_markVolatile g).wellFormed hforget, hknown.marks (marks_markVolatile g)⟩
  | @beginPass g _ σ state ih =>
    have hforget : WellFormed { g with marked := [] } := ⟨ih.1.place, ih.1.free, ih.1.free_nodup, ih.1.linked⟩
    have hknown : CyclesKnown { g with marked := [] } := ih.2
    exact ⟨hforget.rested g.marked, hknown.rested g.marked⟩
  | refreshCycles _ ih => exact ⟨(upToCycles_refreshCycles _).wellFormed ih.1, ih.2.refreshCycles⟩
  | checkCycle _ i ih => exact ⟨(upToCycles_checkCycle _ i).wellFormed ih.1, ih.2.checkCycle i⟩
  | step _ h limit i ih =>
    have hs := Pass.stepped_step ih.1 ih.2 h limit i
    exact ⟨hs.wellFormed, hs.cycles⟩
  | cut _ ih => exact ⟨⟨ih.1.place, ih.1.free, ih.1.free_nodup, ih.1.linked⟩, ih.2⟩

theorem run {p : Pass σ} (hp : p.graph.Evolving) (h : Handler σ) (limit steps : Nat) :
    (p.run h limit steps).graph.Evolving := by
  induction steps generalizing p with
  | zero =>
    unfold Pass.run
    cases p.queue with
    | nil => exact hp
    | cons i rest => exact hp.cut
  | succ steps ih =>
    unfold Pass.run
    cases p.queue with
    | nil => exact hp
    | cons i rest => exact ih (step (p := { p with queue := rest }) hp h limit i)

/-- The search answers whether a path of one or more edges leads from a vertex back to it. While it is not noted that
edges have changed, whatever is kept about a vertex is what the search answers. -/
theorem answers (hg : g.Evolving) {v : Vertex} (hv : g.vertex? i = some v) :
    (g.isOnCycle i = true ↔ TransGen g.Edge i i) ∧
      (g.cyclesStale = false → ∀ b, v.onCycle = some b → b = g.isOnCycle i) := by
  refine ⟨isOnCycle_iff, fun hfresh b hb => ?_⟩
  have hcycle := hg.known.2 hfresh i v b hv hb
  rw [← isOnCycle_iff] at hcycle
  exact Bool.eq_iff_iff.2 hcycle

end Evolving

theorem Reachable.evolving (hg : g.Reachable) : g.Evolving := by
  induction hg with
  | empty => exact .empty
  | ensure _ p ih => exact ih.ensure p
  | remove _ p ih => exact ih.remove p
  | connect _ i j ih => exact ih.connect i j
  | disconnect _ i j ih => exact ih.disconnect i j
  | clearInputs _ i ih => exact ih.clearInputs i
  | isolate _ i ih => exact ih.isolate i
  | rewire _ i d ih => exact ih.rewire i d
  | assign _ i content volatile ih => exact ih.assign i content volatile
  | markFrom _ i ih => exact ih.markFrom i
  | setDirty _ p ih => exact ih.setDirty p
  | markVolatile _ ih => exact ih.markVolatile
  | recalculate _ h limits state ih => exact (ih.beginPass state).run h limits.rebuilds limits.steps

/-- A pass over two vertices that read each other, after it has looked at the first one. -/
def circling : Pass Unit :=
  (((((ensure (ensure {} ⟨0, 0⟩).2 ⟨1, 0⟩).2.connect 0 1).connect 1 0).markFrom 0).beginPass ()).step
    (.demanding {}) 8 0

/-- The pass has gone on after one of the edges was removed. -/
def opened : Pass Unit :=
  { circling with graph := circling.graph.disconnect 1 0 }.step (.demanding {}) 8 1

theorem answers_opened : ∃ v, opened.graph.vertex? 1 = some v ∧ circling.graph.isOnCycle 1 = true ∧
    opened.graph.cyclesStale = false ∧ v.onCycle = some false ∧
    (opened.graph.isOnCycle 1 = true ↔ TransGen opened.graph.Edge 1 1) ∧
      (opened.graph.cyclesStale = false → ∀ b, v.onCycle = some b → b = opened.graph.isOnCycle 1) := by
  have hcircling : circling.graph.Evolving :=
    ((((((Evolving.empty.ensure ⟨0, 0⟩).ensure ⟨1, 0⟩).connect 0 1).connect 1 0).markFrom 0).beginPass ()).step _ 8 0
  have hopened : opened.graph.Evolving :=
    Evolving.step (p := { circling with graph := circling.graph.disconnect 1 0 }) (hcircling.disconnect 1 0) _ 8 1
  have hkept : (opened.graph.vertex? 1).map Vertex.onCycle = some (some false) := by cbv
  obtain ⟨v, hv, hb⟩ := Option.map_eq_some_iff.1 hkept
  exact ⟨v, hv, by cbv, by cbv, hb, hopened.answers hv⟩

end Spreadsheet.Graph
