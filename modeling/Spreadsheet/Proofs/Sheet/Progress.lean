import Spreadsheet.Proofs.Graph.Progress
import Spreadsheet.Proofs.Sheet.Truncated

/-!
How far passes get that may be cut short. A pass settles something if it may look at as many slots as vertices are
dirty, and at one more for each time that it replaces dependencies. With fewer looks it may come to nothing: the next
pass begins anew with the same slots, and the sheet is never calculated.

A pass says that it was cut short if there is still a slot in its queue when its steps are used up. Whatever is left
dirty is reported in this way; but slots of vertices that are settled are in the queue, too, and if there are no others
the report is wrong.
-/

namespace Spreadsheet.Sheet

open Spreadsheet.Graph

variable {s : Sheet} {k : Slot} {moments : List (Pass Contents × Slot)} {p : Pass Contents} {uncut : Prop}

/-! ### Sheets without volatile formulas -/

/-- No formula is volatile: none is listed, and none turns out to be, whatever its calculation reads. -/
structure Calm (s : Sheet) : Prop where
  volatiles : s.graph.volatiles = []
  formula : ∀ i v e, s.graph.vertex? i = some v → v.expression? = some e →
    ∀ σ t m, (e.calculate ((s.timed t).scope σ v.position) m).volatile = false

/-- A pass over a sheet without volatile formulas begins with what is noted. -/
theorem Calm.markVolatile (h : s.Calm) : s.graph.markVolatile = s.graph := by
  rw [Graph.markVolatile, h.volatiles]
  change { s.graph with volatiles := [] } = s.graph
  rw [← h.volatiles]

/-- A step of a pass finds no formula volatile. -/
theorem Calm.looked {env : Environment} {p p' : Pass Contents} {i : Slot} {look : Pass.Look}
    (h : (env.sheetAt p).Calm) (hl : Pass.Looked env.handler env.settings.limits.rebuilds p i look p')
    (hwell : p.graph.WellFormed) (hknown : p.graph.CyclesKnown) : (env.sheetAt p').Calm where
  volatiles := by
    have hnone : p.graph.volatiles = [] := h.volatiles
    rcases hl.volatiles hwell with hsame | ⟨rfl, -⟩
    · exact hsame.trans hnone
    · have hchart := (upToCycles_charted p.graph i).volatiles.trans hnone
      cases hl with
      | read => exact (volatiles_modify _ i _).trans hchart
      | @value v e x volatile state hready he hrun =>
        obtain ⟨b, hb⟩ := (upToCycles_refreshCycles p.graph).vertex_of' hready.vertex
        obtain rfl : volatile = false :=
          (Environment.calculate_volatile hrun).trans (h.formula i _ e hb he p.state.store env.clock p.state.model)
        exact (volatiles_modify _ i _).trans hchart
  formula j v e hv he σ t m := by
    change p'.graph.vertex? j = some v at hv
    have hs := hl.stepped hwell hknown
    by_cases hlive : p.graph.Live j
    · obtain ⟨u, hu⟩ := hlive
      obtain ⟨w, hw, hpos, hcontent⟩ := hs.vertex j u hu
      obtain rfl : v = w := Option.some.inj (hv.symm.trans hw)
      rw [Vertex.expression?_eq, hcontent, ← Vertex.expression?_eq] at he
      rw [hpos]
      exact h.formula j u e hu he σ t m
    · obtain ⟨q, hq⟩ := hl.gist?_fresh hwell hlive ⟨v, hv⟩
      rw [gist?_of_vertex? hv, Option.some.injEq] at hq
      rw [Vertex.expression?_eq, show v.content = .value from congrArg Vertex.content hq] at he
      cases he

theorem Calm.leads {env : Environment} {p p' : Pass Contents} (h : (env.sheetAt p).Calm)
    (hl : Pass.Leads env.handler env.settings.limits.rebuilds p moments p') (hu : p.Underway) :
    (env.sheetAt p').Calm := by
  induction hl with
  | stop => exact h
  | @look p p' i rest moments hq hrest ih =>
    have hstep := Pass.looked_step (p := p.taken rest) hu.cycles env.handler env.settings.limits.rebuilds i
    have hbegin : (env.sheetAt (p.taken rest)).Calm := h
    exact ih (hbegin.looked hstep hu.wellFormed hu.cycles) (hu.step hq env.handler _)

/-! ### What is noted between passes -/

/-- What a pass leaves noted: nothing, or all that is still dirty. -/
theorem Kept.marked_recalculate (h : s.Kept uncut) :
    s.recalculate.2.graph.marked = [] ∨ s.recalculate.2.graph.marked = s.recalculate.2.graph.dirtySlots := by
  obtain ⟨moments, p, hp⟩ := s.exists_passes
  have hu := hp.leads.underway (h.markVolatile.firm.toSound.underway s.toContents)
  obtain ⟨-, -, hs⟩ | ⟨-, -, hs⟩ := hp.stops <;> rw [hs]
  · exact .inl hu.marked
  · exact .inr rfl

/-- At all times just the dirty vertices are noted, each of them once. -/
theorem Attained.neat (h : s.Attained uncut) : s.graph.Neat := by
  refine h.invariant (I := fun s => s.graph.Neat) neat_rebuild (fun s s' hs _ hcarried ih => hcarried.neat hs.firm ih)
    (fun s hs _ => ?_) fun _ _ _ ih => ih
  rcases hs.marked_recalculate with hmarked | hmarked
  · refine ⟨fun k hk => ?_, by rw [hmarked]; exact List.nodup_nil⟩
    rw [hmarked] at hk
    cases hk
  · refine ⟨fun k hk => ?_, by rw [hmarked]; exact nodup_dirtySlots _⟩
    rw [hmarked] at hk
    exact mem_dirtySlots.1 hk

theorem Attained.length_marked (h : s.Attained uncut) : s.graph.marked.length = s.graph.dirtyCount :=
  h.neat.length_marked h.kept.firm.noted

/-! ### One pass -/

theorem Passes.rebuilds (hp : s.Passes moments p) : s.recalculate.1.rebuilds = p.tally.rebuilds := by
  obtain ⟨-, -, hs⟩ | ⟨-, -, hs⟩ := hp.stops <;> rw [hs]
  rfl

theorem open_beginPass {g : Graph} {state : Contents} : (g.beginPass state).graph.Open k ↔ g.Open k :=
  open_congr (isDirty_beginPass g state) fun _ _ => edge_beginPass g state

namespace Calm

/-- The beginning of a pass over a sheet without volatile formulas. -/
theorem begins (hcalm : s.Calm) (h : s.Kept uncut) (hp : s.Passes moments p) :
    (s.graph.beginPass s.toContents).Underway ∧
      Pass.Leads s.handler s.settings.limits.rebuilds (s.graph.beginPass s.toContents) moments p := by
  have hleads := hp.leads
  rw [hcalm.markVolatile] at hleads
  exact ⟨h.firm.toSound.underway s.toContents, hleads⟩

theorem beginPass (hcalm : s.Calm) : (s.sheetAt (s.graph.beginPass s.toContents)).Calm where
  volatiles := (volatiles_rested { s.graph with marked := [] } s.graph.marked).trans hcalm.volatiles
  formula i v e hv he σ t m := by
    change (s.graph.beginPass s.toContents).graph.vertex? i = some v at hv
    rw [vertex?_beginPass] at hv
    obtain ⟨u, hu, rfl⟩ := Option.map_eq_some_iff.1 hv
    split at he <;> split <;> exact hcalm.formula i u e hu he σ t m

/-- No formula becomes volatile. -/
theorem recalculate (hcalm : s.Calm) (h : s.Kept uncut) : s.recalculate.2.Calm := by
  obtain ⟨moments, p, hp⟩ := s.exists_passes
  obtain ⟨hu, hleads⟩ := hcalm.begins h hp
  have hend := hcalm.beginPass.leads hleads hu
  obtain ⟨-, -, hs⟩ | ⟨-, -, hs⟩ := hp.stops <;> rw [hs]
  · exact hend
  · exact ⟨hend.volatiles, hend.formula⟩

/-- Clean vertices stay clean. -/
theorem dirty_mono (hcalm : s.Calm) (h : s.Kept uncut) (hk : s.recalculate.2.graph.isDirty k = true) :
    s.graph.isDirty k = true := by
  obtain ⟨moments, p, hp⟩ := s.exists_passes
  obtain ⟨hu, hleads⟩ := hcalm.begins h hp
  rw [hp.isDirty] at hk
  exact isDirty_beginPass s.graph s.toContents k ▸ hleads.dirty_mono hu hk

/-- Fewer vertices are dirty after a pass just if it settles one. -/
theorem dirtyCount_lt_iff (hcalm : s.Calm) (h : s.Kept uncut) (hp : s.Passes moments p) :
    s.recalculate.2.graph.dirtyCount < s.graph.dirtyCount ↔
      ∃ m ∈ moments, (Pass.look s.handler s.settings.limits.rebuilds m.1 m.2).settles = true := by
  obtain ⟨hu, hleads⟩ := hcalm.begins h hp
  rw [Graph.dirtyCount_lt_iff fun k => hcalm.dirty_mono h, hleads.settles_iff hu]
  simp only [hp.isDirty, isDirty_beginPass]

/-- A pass that is not cut short takes all slots that are noted. -/
theorem take_marked (hcalm : s.Calm) (h : s.Kept uncut) (hp : s.Passes moments p) :
    s.graph.marked.take moments.length = s.graph.marked.take s.settings.limits.steps := by
  obtain ⟨hu, hleads⟩ := hcalm.begins h hp
  rcases hp.stops with ⟨hq, hle, -⟩ | ⟨-, hlength, -⟩
  · have hqueue : s.graph.marked.length ≤ moments.length := hleads.length_queue_le hu hq
    rw [List.take_of_length_le hqueue, List.take_of_length_le (Nat.le_trans hqueue hle)]
  · rw [hlength]

/-- A pass acts just if one of the slots that it takes first holds a vertex that can be dealt with. -/
theorem exists_acts_iff (hcalm : s.Calm) (h : s.Kept uncut) (hp : s.Passes moments p) :
    (∃ m ∈ moments, (Pass.look s.handler s.settings.limits.rebuilds m.1 m.2).acts = true) ↔
      ∃ i ∈ s.graph.marked.take s.settings.limits.steps, s.graph.Open i := by
  obtain ⟨hu, hleads⟩ := hcalm.begins h hp
  have hqueue : (s.graph.beginPass s.toContents).queue = s.graph.marked := rfl
  rw [hleads.acts_iff hu, hqueue, hcalm.take_marked h hp]
  simp only [open_beginPass]

/-- A pass gets anywhere just if one of the slots that it takes first holds a vertex that can be dealt with. -/
theorem acts_iff (hcalm : s.Calm) (h : s.Kept uncut) :
    s.recalculate.2.graph.dirtyCount < s.graph.dirtyCount ∨ 0 < s.recalculate.1.rebuilds ↔
      ∃ i ∈ s.graph.marked.take s.settings.limits.steps, s.graph.Open i := by
  obtain ⟨moments, p, hp⟩ := s.exists_passes
  obtain ⟨hu, hleads⟩ := hcalm.begins h hp
  have htally : (s.graph.beginPass s.toContents).tally.rebuilds = 0 := rfl
  rw [← hcalm.exists_acts_iff h hp, hleads.acts_iff_settles hu, ← hcalm.dirtyCount_lt_iff h hp, htally, hp.rebuilds]

/-- A pass settles a vertex if it may look at as many slots as vertices are dirty and at one more for each time that it
replaces dependencies. -/
theorem dirtyCount_lt (hcalm : s.Calm) (h : s.Attained uncut) (hpos : 0 < s.graph.dirtyCount)
    (hsteps : s.graph.dirtyCount + s.recalculate.1.rebuilds ≤ s.settings.limits.steps) :
    s.recalculate.2.graph.dirtyCount < s.graph.dirtyCount := by
  obtain ⟨moments, p, hp⟩ := s.exists_passes
  obtain ⟨hu, hleads⟩ := hcalm.begins h.kept hp
  obtain ⟨k, hk⟩ := dirtyCount_pos_iff.1 hpos
  rw [hcalm.dirtyCount_lt_iff h.kept hp]
  refine hleads.settles_of_length hu ((isDirty_beginPass s.graph s.toContents k).trans hk) ?_
  rcases hp.stops with ⟨hq, -, -⟩ | ⟨-, hlength, -⟩
  · exact .inl hq
  · refine .inr ?_
    change s.graph.marked.length + p.tally.rebuilds ≤ moments.length + 0
    rwa [h.length_marked, ← hp.rebuilds, hlength]

/-- So it does if it may look at all dirty vertices as often as their dependencies may be replaced, and once more. -/
theorem dirtyCount_lt_of_le (hcalm : s.Calm) (h : s.Attained uncut) (hpos : 0 < s.graph.dirtyCount)
    (hsteps : s.graph.dirtyCount * (1 + s.settings.limits.rebuilds) ≤ s.settings.limits.steps) :
    s.recalculate.2.graph.dirtyCount < s.graph.dirtyCount := by
  obtain ⟨moments, p, hp⟩ := s.exists_passes
  obtain ⟨hu, hleads⟩ := hcalm.begins h.kept hp
  by_contra hlt
  have hnone (m : Pass Contents × Slot) (hm : m ∈ moments) :
      (Pass.look s.handler s.settings.limits.rebuilds m.1 m.2).settles = false :=
    Bool.eq_false_iff.2 fun hc => hlt ((hcalm.dirtyCount_lt_iff h.kept hp).2 ⟨m, hm, hc⟩)
  have hle := hleads.rebuilds_le hu hnone
  have hcount : (s.graph.beginPass s.toContents).graph.dirtyCount = s.graph.dirtyCount := by
    refine Nat.le_antisymm (dirtyCount_le fun k hk => ?_) (dirtyCount_le fun k hk => ?_)
    · rwa [isDirty_beginPass] at hk
    · rwa [isDirty_beginPass]
  have htally : (s.graph.beginPass s.toContents).tally.rebuilds = 0 := rfl
  rw [hcount, htally, ← hp.rebuilds] at hle
  exact hlt (hcalm.dirtyCount_lt h hpos (Nat.le_trans hle hsteps))

end Calm

/-! ### Passes that follow each other -/

/-- The sheet after a number of passes. -/
def afterPasses : Nat → Sheet → Sheet
  | 0, s => s
  | n + 1, s => afterPasses n s.recalculate.2

/-- With enough steps for each pass, as many passes as vertices are dirty calculate all of them. -/
theorem Calm.clean_afterPasses (hcalm : s.Calm) (h : s.Attained False)
    (hsteps : s.graph.dirtyCount * (1 + s.settings.limits.rebuilds) ≤ s.settings.limits.steps) {n : Nat}
    (hn : s.graph.dirtyCount ≤ n) : (afterPasses n s).graph.dirtyCount = 0 := by
  induction n generalizing s with
  | zero => exact Nat.le_zero.1 hn
  | succ n ih =>
    have hle : s.recalculate.2.graph.dirtyCount ≤ s.graph.dirtyCount :=
      dirtyCount_le fun k => hcalm.dirty_mono h.kept
    refine ih (hcalm.recalculate h.kept) (h.recalculate False.elim) ?_ ?_
    · exact Nat.le_trans (Nat.mul_le_mul_right _ hle) hsteps
    · rcases Nat.eq_zero_or_pos s.graph.dirtyCount with hzero | hpos
      · omega
      · have hlt := hcalm.dirtyCount_lt_of_le h hpos hsteps
        omega

theorem size_beginPass (g : Graph) (state : Contents) : (g.beginPass state).graph.slots.size = g.slots.size := by
  have hrested (g : Graph) (is : List Slot) : (g.rested is).slots.size = g.slots.size := by
    induction is generalizing g with
    | nil => rfl
    | cons i is ih => exact (ih _).trans (size_modify ..)
  exact hrested { g with marked := [] } g.marked

/-- A pass and the one after it look only at vertices that they cannot deal with. -/
structure Stuck (s : Sheet) : Prop where
  first : ∀ i ∈ s.graph.marked.take s.settings.limits.steps, ¬s.graph.Open i
  next : ∀ i ∈ s.graph.dirtySlots.take s.settings.limits.steps, ¬s.graph.Open i

/-- Such a pass leaves the sheet as it was. -/
theorem Stuck.recalculate (hs : s.Stuck) (hcalm : s.Calm) (h : s.Kept uncut) :
    s.recalculate.2.Stuck ∧ s.recalculate.2.toContents = s.toContents ∧
      ∀ k, s.recalculate.2.graph.isDirty k = s.graph.isDirty k := by
  obtain ⟨moments, p, hp⟩ := s.exists_passes
  obtain ⟨hu, hleads⟩ := hcalm.begins h hp
  have hnone (m : Pass Contents × Slot) (hm : m ∈ moments) :
      (Pass.look s.handler s.settings.limits.rebuilds m.1 m.2).acts = false := by
    refine Bool.eq_false_iff.2 fun hacts => ?_
    obtain ⟨i, hi, hopen⟩ := (hcalm.exists_acts_iff h hp).1 ⟨m, hm, hacts⟩
    exact hs.first i hi hopen
  obtain ⟨hup, hstate⟩ := hleads.still hu hnone
  have hdirty (k : Slot) : s.recalculate.2.graph.isDirty k = s.graph.isDirty k := by
    rw [hp.isDirty, hup.isDirty, isDirty_beginPass]
  have hopen (k : Slot) : s.recalculate.2.graph.Open k ↔ s.graph.Open k :=
    open_congr hdirty fun _ _ => hp.edge_iff.trans (hup.edge_iff.trans (edge_beginPass _ _))
  have hslots : s.recalculate.2.graph.dirtySlots = s.graph.dirtySlots := by
    have hsize : s.recalculate.2.graph.slots.size = s.graph.slots.size := by
      rw [← size_beginPass s.graph s.toContents, ← hup.size]
      obtain ⟨-, -, hs⟩ | ⟨-, -, hs⟩ := hp.stops <;> rw [hs]
      · rfl
      · rfl
    rw [dirtySlots, dirtySlots, hsize, funext hdirty]
  have hnext (i : Slot) (hi : i ∈ s.graph.dirtySlots.take s.settings.limits.steps) :
      ¬s.recalculate.2.graph.Open i := mt (hopen i).1 (hs.next i hi)
  refine ⟨⟨fun i hi => ?_, fun i hi => hnext i (hslots ▸ hi)⟩, ?_, hdirty⟩
  · rcases h.marked_recalculate with hmarked | hmarked <;> rw [hmarked] at hi
    · rw [List.take_nil] at hi
      cases hi
    · exact hnext i (hslots ▸ hi)
  · obtain ⟨-, -, hs⟩ | ⟨-, -, hs⟩ := hp.stops <;> rw [hs]
    · exact hstate
    · exact hstate

/-- No number of passes gets anywhere then. -/
theorem Stuck.afterPasses (hs : s.Stuck) (hcalm : s.Calm) (h : s.Attained False) (n : Nat) :
    (afterPasses n s).toContents = s.toContents ∧ ∀ k, (Sheet.afterPasses n s).graph.isDirty k = s.graph.isDirty k := by
  induction n generalizing s with
  | zero => exact ⟨rfl, fun _ => rfl⟩
  | succ n ih =>
    obtain ⟨hstuck, hcontents, hdirty⟩ := hs.recalculate hcalm h.kept
    obtain ⟨hcontents', hdirty'⟩ := ih hstuck (hcalm.recalculate h.kept) (h.recalculate False.elim)
    exact ⟨hcontents'.trans hcontents, fun k => (hdirty' k).trans (hdirty k)⟩

/-- How far passes get in a sheet without volatile formulas. -/
structure Progressing (s : Sheet) : Prop where
  /-- Clean vertices stay clean. -/
  dirty : ∀ k, s.recalculate.2.graph.isDirty k = true → s.graph.isDirty k = true
  /-- A pass settles a vertex or replaces dependencies just if one of the slots that it takes first holds a dirty vertex
  that is on a cycle or has no dirty input. -/
  acts : s.recalculate.2.graph.dirtyCount < s.graph.dirtyCount ∨ 0 < s.recalculate.1.rebuilds ↔
    ∃ i ∈ s.graph.marked.take s.settings.limits.steps, s.graph.isDirty i = true ∧
      (s.graph.isOnCycle i = true ∨ ∀ k, s.graph.Edge k i → ¬s.graph.isDirty k = true)
  /-- It settles one if it may look at as many slots as vertices are dirty and at one more for each time that it replaces
  dependencies. -/
  fewer : 0 < s.graph.dirtyCount → s.graph.dirtyCount + s.recalculate.1.rebuilds ≤ s.settings.limits.steps →
    s.recalculate.2.graph.dirtyCount < s.graph.dirtyCount
  /-- Passes that may look at all dirty vertices as often as their dependencies may be replaced, and once more, calculate
  all of them in the end. -/
  clean : s.graph.dirtyCount * (1 + s.settings.limits.rebuilds) ≤ s.settings.limits.steps →
    ∀ n, s.graph.dirtyCount ≤ n → ∀ k, ¬(afterPasses n s).graph.isDirty k = true
  /-- If a pass and the one after it look only at vertices that they cannot deal with, no number of passes changes a cell
  or a mark. -/
  stuck : s.Stuck → ∀ n, (afterPasses n s).toContents = s.toContents ∧
    ∀ k, (afterPasses n s).graph.isDirty k = s.graph.isDirty k

/-- Whatever has been done to a sheet without volatile formulas, passes get as far as the number of slots lets them that
they may look at, and the order in which these are noted. -/
theorem Attained.progressing (h : s.Attained False) (hcalm : s.Calm) : s.Progressing where
  dirty k := hcalm.dirty_mono h.kept
  acts := by
    rw [hcalm.acts_iff h.kept]
    exact exists_congr fun i => and_congr_right fun _ =>
      ⟨fun ⟨hd, hfree⟩ => ⟨hd, hfree.imp_left isOnCycle_iff.2⟩, fun ⟨hd, hfree⟩ => ⟨hd, hfree.imp_left isOnCycle_iff.1⟩⟩
  fewer := hcalm.dirtyCount_lt h
  clean hsteps n hn k hk := by
    have hzero := hcalm.clean_afterPasses h hsteps hn
    have hpos := dirtyCount_pos_iff.2 ⟨k, hk⟩
    omega
  stuck hstuck := hstuck.afterPasses hcalm h

/-! ### A cell that waits -/

/-- A sheet whose passes look at one slot each, with the formula `B1` in `A1` and then a value in `B1`. -/
def waiting (library : Library) : Sheet :=
  { halting library with
    store := (halting library).store.setValue ⟨0, 1⟩ (.boolean true)
    graph := ((halting library).graph.demote ⟨0, 1⟩).setDirty ⟨0, 1⟩ }

section

variable (library : Library)

theorem setValue_waiting : (halting library).setValue ⟨0, 1⟩ (.boolean true) = .ok (waiting library) := by
  have hnone : (halting library).arrayAt? ⟨0, 1⟩ = none := by rfl
  simp only [setValue, detach, hnone]
  rfl

theorem size_waiting : (waiting library).graph.slots.size = 2 := by
  cbv

theorem expressions_waiting : ((waiting library).graph.vertex? 0).bind Vertex.expression? = some rightCell ∧
    ((waiting library).graph.vertex? 1).bind Vertex.expression? = none := by
  cbv

theorem volatiles_waiting : (waiting library).graph.volatiles = [] := by
  cbv

theorem marked_waiting : (waiting library).graph.marked = [0, 1] := by
  cbv

theorem dirtySlots_waiting : (waiting library).graph.dirtySlots = [0, 1] := by
  cbv

theorem isOnCycle_waiting : (waiting library).graph.isOnCycle 0 = false := by
  cbv

theorem dependents_waiting : (waiting library).graph.dependents 1 = [0] := by
  cbv

theorem read_waiting : (waiting library).read ⟨0, 0⟩ = .undefined ∧ (waiting library).read ⟨0, 1⟩ = .boolean true := by
  cbv

theorem calm_waiting : (waiting library).Calm where
  volatiles := volatiles_waiting library
  formula i v e hv he σ t m := by
    have hi := lt_size_of_vertex? hv
    obtain ⟨hfirst, hsecond⟩ := expressions_waiting library
    rw [size_waiting] at hi
    obtain rfl | rfl : i = 0 ∨ i = 1 := Nat.le_one_iff_eq_zero_or_eq_one.1 (Nat.lt_succ_iff.1 hi)
    · rw [hv, Option.bind_some, he, Option.some.injEq] at hfirst
      subst hfirst
      rfl
    · rw [hv, Option.bind_some, he] at hsecond
      cases hsecond

theorem stuck_waiting : (waiting library).Stuck := by
  have hclosed : ¬(waiting library).graph.Open 0 := by
    rintro ⟨-, hcycle | hfree⟩
    · have hnone := isOnCycle_iff.2 hcycle
      rw [isOnCycle_waiting] at hnone
      cases hnone
    · refine hfree 1 (mem_dependents_iff.1 ?_) (mem_dirtySlots.1 ?_)
      · rw [dependents_waiting]
        exact List.mem_cons_self
      · rw [dirtySlots_waiting]
        exact List.mem_cons_of_mem _ List.mem_cons_self
  have hsteps : (waiting library).settings.limits.steps = 1 := rfl
  constructor
  · rw [marked_waiting, hsteps]
    exact fun i hi => List.mem_singleton.1 hi ▸ hclosed
  · rw [dirtySlots_waiting, hsteps]
    exact fun i hi => List.mem_singleton.1 hi ▸ hclosed

end

theorem attained_waiting : (waiting .standard).Attained False :=
  .setValue (.setFormula (.empty _ .standard default fun _ => rfl) (setFormula_halting _)) (setValue_waiting _)

/-- Passes over this sheet get nowhere. -/
theorem progressing_waiting : (waiting .standard).Attained False ∧ (waiting .standard).Calm ∧
    (waiting .standard).Stuck ∧ (waiting .standard).Progressing :=
  ⟨attained_waiting, calm_waiting _, stuck_waiting _, attained_waiting.progressing (calm_waiting _)⟩

/-- Two vertices are dirty, and stay dirty however often a pass is made: `A1` never shows the value that stands in
`B1`. -/
theorem not_fewer_waiting : ∃ s : Sheet, s.Attained False ∧ s.Calm ∧ s.settings.limits.steps = 1 ∧
    s.graph.dirtyCount = 2 ∧ s.recalculate.2.graph.dirtyCount = 2 ∧
    ∀ n, (afterPasses n s).graph.dirtyCount = 2 ∧ (afterPasses n s).read ⟨0, 0⟩ = .undefined ∧
      (afterPasses n s).read ⟨0, 1⟩ = .boolean true := by
  have hcount (s : Sheet) (h : ∀ k, s.graph.isDirty k = (waiting .standard).graph.isDirty k) :
      s.graph.dirtyCount = 2 := by
    have hlength := length_eq_dirtyCount (g := s.graph) (nodup_dirtySlots (waiting .standard).graph) fun k => by
      rw [mem_dirtySlots, h]
    rw [← hlength, dirtySlots_waiting]
    rfl
  have hstuck := stuck_waiting .standard
  refine ⟨waiting .standard, attained_waiting, calm_waiting _, rfl, hcount _ fun _ => rfl,
    hcount _ (hstuck.recalculate (calm_waiting _) attained_waiting.kept).2.2, fun n => ?_⟩
  obtain ⟨hcontents, hdirty⟩ := hstuck.afterPasses (calm_waiting _) attained_waiting n
  have hread (p : Position) : (afterPasses n (waiting .standard)).read p = (waiting .standard).read p :=
    congrArg (fun c : Contents => c.store.read p) hcontents
  obtain ⟨hleft, hright⟩ := read_waiting .standard
  exact ⟨hcount _ hdirty, (hread _).trans hleft, (hread _).trans hright⟩

/-! ### What is reported for each bound -/

variable {n : Nat}

/-- The sheet when its passes may take a given number of slots from their queue. -/
def limited (s : Sheet) (n : Nat) : Sheet := { s with settings.limits.steps := n }

/-- Another bound leads to another end of the same pass. -/
theorem recalculate_limited (s : Sheet) (n : Nat) :
    (s.limited n).recalculate.1 = (Pass.run s.handler s.settings.limits.rebuilds n
      (s.graph.markVolatile.beginPass s.toContents)).tally ∧
    (s.limited n).recalculate.2.graph = (Pass.run s.handler s.settings.limits.rebuilds n
      (s.graph.markVolatile.beginPass s.toContents)).graph := ⟨rfl, rfl⟩

/-- What passes over a sheet report and leave dirty, for each bound, in terms of the slots that a pass takes from its
queue if it may take any number. -/
structure Reports (s : Sheet) (moments : List (Pass Contents × Slot)) : Prop where
  /-- The unbounded pass takes these slots. -/
  whole : ∃ p, Pass.Runs s.handler s.settings.limits.rebuilds (s.graph.markVolatile.beginPass s.toContents) moments p
  /-- There is one for each vertex that has been marked, for each reader of a vertex that is settled, and for each time
  that dependencies are replaced. -/
  length : moments.length = s.graph.markVolatile.marked.length +
    (moments.map (Pass.entering s.handler s.settings.limits.rebuilds)).sum
  /-- A pass reports that it was cut short if there are more slots than it may take. -/
  truncated : ∀ n, (s.limited n).recalculate.1.truncated = true ↔ n < moments.length
  /-- It leaves vertices dirty if one would be settled with a slot that it does not take. -/
  dirty : ∀ n, 0 < (s.limited n).recalculate.2.graph.dirtyCount ↔
    ∃ m ∈ moments.drop n, Pass.Settles s.handler s.settings.limits.rebuilds m
  /-- So whatever is left dirty is reported. -/
  complete : ∀ n, 0 < (s.limited n).recalculate.2.graph.dirtyCount → (s.limited n).recalculate.1.truncated = true
  /-- The report means that something is left dirty unless there are slots which the pass does not take, and none of them
  leads to anything. -/
  sound : ∀ n, ((s.limited n).recalculate.1.truncated = true ↔ 0 < (s.limited n).recalculate.2.graph.dirtyCount) ↔
    (n < moments.length → ∃ m ∈ moments.drop n, Pass.Settles s.handler s.settings.limits.rebuilds m)

/-- Whatever has been done to a sheet, and whatever bound its passes have: a pass reports that it was cut short whenever
it leaves vertices dirty, and otherwise only because of slots in its queue that lead to nothing. -/
theorem Attained.reports (h : s.Attained uncut) : ∃ moments, s.Reports moments := by
  have hu := h.kept.markVolatile.firm.toSound.underway s.toContents
  obtain ⟨moments, p, hr⟩ := hu.runs s.handler s.settings.limits.rebuilds fun k hk =>
    List.mem_range.1 (List.mem_filter.1 (mem_dirtySlots.2 hk)).1
  have htruncated (n : Nat) : (s.limited n).recalculate.1.truncated = true ↔ n < moments.length := by
    rw [(recalculate_limited s n).1]
    exact hr.truncated_iff hu rfl n
  have hdirty (n : Nat) : 0 < (s.limited n).recalculate.2.graph.dirtyCount ↔
      ∃ m ∈ moments.drop n, Pass.Settles s.handler s.settings.limits.rebuilds m := by
    rw [(recalculate_limited s n).2]
    exact hr.dirtyCount_run_pos_iff hu n
  have hbeyond (n : Nat) (hm : ∃ m ∈ moments.drop n, Pass.Settles s.handler s.settings.limits.rebuilds m) :
      n < moments.length := by
    obtain ⟨m, hm, -⟩ := hm
    by_contra hle
    rw [List.drop_eq_nil_of_le (Nat.le_of_not_lt hle)] at hm
    cases hm
  have hlength := hr.leads.length_moments hu
  rw [hr.queue, List.length_nil, Nat.add_zero] at hlength
  refine ⟨moments, ⟨p, hr⟩, hlength, htruncated, hdirty, fun n hn => ?_, fun n => ?_⟩
  · exact (htruncated n).2 (hbeyond n ((hdirty n).1 hn))
  · rw [htruncated n, hdirty n]
    exact ⟨fun hiff => hiff.1, fun himp => ⟨himp, hbeyond n⟩⟩

/-! ### A reader that is in the queue already -/

/-- A sheet whose passes look at two slots each, with the formula `B1` in `A1`. -/
def pairing (library : Library) : Sheet :=
  { Sheet.empty { limits := { steps := 2 } } library default with
    store := Store.setFormula {} ⟨0, 0⟩ "B1"
    graph := Graph.install {} ⟨0, 0⟩ (.formula rightCell) (.ofExpression ∅ "Sheet1" rightCell) }

/-- The same sheet when the formula `A1` has been entered into `C1`. -/
def paired (library : Library) : Sheet :=
  { pairing library with store := (pairing library).store.setFormula ⟨0, 2⟩ "A1" }.install ⟨0, 2⟩ (.formula leftCell)
    leftCell

section

variable (library : Library)

theorem setFormula_pairing :
    (Sheet.empty { limits := { steps := 2 } } library default).setFormula ⟨0, 0⟩ "B1" = .ok (pairing library) := by
  simp only [setFormula, Environment.parse, Environment.locale, Sheet.empty, parse_rightCell]
  rfl

theorem setFormula_paired : (pairing library).setFormula ⟨0, 2⟩ "A1" = .ok (paired library) := by
  have hparse : (pairing library).parse "A1" = .ok leftCell := by
    have hlocale : (pairing library).locale = .ofDecimal .period := rfl
    simp only [Environment.parse, hlocale, parse_leftCell]
  have hnone : (pairing library).arrayAt? ⟨0, 2⟩ = none := by rfl
  simp only [setFormula, hparse, detach, hnone]
  rfl

theorem pass_paired : (paired library).recalculate.1 = { calculated := 2, truncated := true } ∧
    (paired library).recalculate.2.graph.dirtyCount = 0 ∧
    (paired library).recalculate.2.recalculate.1 = {} := by
  cbv

end

theorem attained_paired : (paired .standard).Attained True :=
  .setFormula (.setFormula (.empty _ .standard default fun _ => rfl) (setFormula_pairing _)) (setFormula_paired _)

/-- With two steps the pass over `A1` and `C1` says that it was cut short, and with one it is. -/
theorem reports_paired : (paired .standard).Attained True ∧ ∃ moments, (paired .standard).Reports moments :=
  ⟨attained_paired, attained_paired.reports⟩

/-- A pass that has calculated all that was dirty reports that it was cut short; the next one finds nothing to do. -/
theorem truncated_although_clean : ∃ s : Sheet, s.Attained True ∧ s.recalculate.1.truncated = true ∧
    ¬0 < s.recalculate.2.graph.dirtyCount ∧ s.recalculate.2.recalculate.1 = {} := by
  obtain ⟨htally, hclean, hnext⟩ := pass_paired .standard
  exact ⟨_, attained_paired, by rw [htally], by omega, hnext⟩

end Spreadsheet.Sheet
