import Spreadsheet.Proofs.Graph.Gist

/-!
Progress. A pass gets anywhere only if one of the slots that it takes from the queue holds a dirty vertex that is on a
cycle or waits for no other one. Such a vertex is settled, or its dependencies are replaced, which happens to each only
so often.

A pass that may take only so many slots from its queue is the beginning of the pass that may take any number. It is cut
short if the longer one takes more slots, and it leaves dirty vertices if the longer one settles a vertex with one of
these. The two are not the same, since a vertex that is settled puts all its readers into the queue, also those that are
there already or have nothing to wait for.
-/

namespace Spreadsheet.Graph

variable {σ : Type} {g g' : Graph} {i k : Slot}

/-! ### Counting -/

/-- The slots of the dirty vertices, in order. -/
def dirtySlots (g : Graph) : List Slot := (List.range g.slots.size).filter g.isDirty

theorem nodup_dirtySlots (g : Graph) : g.dirtySlots.Nodup := List.nodup_range.filter _

theorem mem_dirtySlots : k ∈ g.dirtySlots ↔ g.isDirty k = true := by
  rw [dirtySlots, List.mem_filter, List.mem_range]
  refine ⟨And.right, fun hk => ⟨?_, hk⟩⟩
  obtain ⟨v, hv⟩ := live_of_isDirty hk
  exact lt_size_of_vertex? hv

theorem length_dirtySlots (g : Graph) : g.dirtySlots.length = g.dirtyCount :=
  length_eq_dirtyCount g.nodup_dirtySlots fun _ => mem_dirtySlots

theorem dirtyCount_pos_iff : 0 < g.dirtyCount ↔ ∃ k, g.isDirty k = true := by
  rw [← length_dirtySlots, List.length_pos_iff_exists_mem]
  exact exists_congr fun _ => mem_dirtySlots

/-- Where no vertex has become dirty, fewer are dirty if one has become clean. -/
theorem dirtyCount_lt_iff (hmono : ∀ k, g'.isDirty k = true → g.isDirty k = true) :
    g'.dirtyCount < g.dirtyCount ↔ ∃ k, g.isDirty k = true ∧ ¬g'.isDirty k = true := by
  have hmem (k : Slot) : k ∈ g.dirtySlots.filter g'.isDirty ↔ g'.isDirty k = true := by
    rw [List.mem_filter, mem_dirtySlots]
    exact ⟨And.right, fun hk => ⟨hmono k hk, hk⟩⟩
  rw [← length_eq_dirtyCount (g.nodup_dirtySlots.filter _) hmem, ← length_dirtySlots,
    List.length_filter_lt_length_iff_exists]
  simp only [mem_dirtySlots]

theorem dirtyCount_le (hmono : ∀ k, g'.isDirty k = true → g.isDirty k = true) : g'.dirtyCount ≤ g.dirtyCount := by
  rw [← length_dirtySlots, ← length_dirtySlots]
  exact (g'.nodup_dirtySlots.subperm fun k hk => mem_dirtySlots.2 (hmono k (mem_dirtySlots.1 hk))).length_le

/-! ### What can be dealt with -/

/-- A dirty vertex that a pass deals with as soon as it looks there: it is on a cycle, or all its inputs are clean. -/
structure Open (g : Graph) (i : Slot) : Prop where
  dirty : g.isDirty i = true
  free : g.OnCycle i ∨ ∀ k, g.Edge k i → ¬g.isDirty k = true

theorem open_congr (hdirty : ∀ k, g'.isDirty k = g.isDirty k) (hedge : ∀ k l, g'.Edge k l ↔ g.Edge k l) :
    g'.Open i ↔ g.Open i := by
  constructor
  · rintro ⟨hd, hfree⟩
    refine ⟨hdirty i ▸ hd, hfree.imp (onCycle_congr hedge).1 fun hnone k hk hkd => hnone k ((hedge k i).2 hk) ?_⟩
    rwa [hdirty]
  · rintro ⟨hd, hfree⟩
    refine ⟨(hdirty i).trans hd, hfree.imp (onCycle_congr hedge).2 fun hnone k hk hkd => hnone k ((hedge k i).1 hk) ?_⟩
    rwa [← hdirty]

theorem UpToCycles.open_iff (h : UpToCycles g g') : g'.Open i ↔ g.Open i :=
  open_congr h.isDirty fun _ _ => h.edge_iff

namespace Pass

variable {h : Handler σ} {limit : Nat} {p p' : Pass σ} {moments : List (Pass σ × Slot)} {look : Look}

/-- Whether the vertex has been settled or its dependencies replaced. -/
def Look.acts (look : Look) : Bool := look.settles || look == .rewired

/-- A step that does nothing changes only what is known about cycles. -/
theorem Looked.upToCycles (hl : Looked h limit p i look p') (hlook : look.acts = false) :
    UpToCycles p.graph p'.graph ∧ p'.queue = p.queue ∧ p'.state = p.state ∧ p'.tally = p.tally := by
  cases hl with
  | idle => exact ⟨upToCycles_refreshCycles _, rfl, rfl, rfl⟩
  | waits => exact ⟨upToCycles_charted _ i, rfl, rfl, rfl⟩
  | _ => cases hlook

theorem Looked.acts_iff (hl : Looked h limit p i look p') (hwell : p.graph.WellFormed) :
    look.acts = true ↔ p.graph.Open i := by
  have hready {v : Vertex} (hv : p.Ready i v) : p.graph.Open i := by
    refine ⟨isDirty_of_refreshed hv.vertex hv.dirty, .inr fun k hk => hv.inputs k ?_⟩
    rw [← input_iff_of_vertex? hv.vertex, (upToCycles_refreshCycles p.graph).input_iff]
    exact (hwell.linked k i).1 hk
  cases hl with
  | idle hclean => exact ⟨nofun, fun hopen => absurd hopen.dirty hclean⟩
  | @waits k _ hacyclic hk hd =>
    exact ⟨nofun, fun hopen => absurd hd (hopen.free.resolve_left hacyclic k ((hwell.linked k i).2 hk))⟩
  | cycle hv hd hcycle => exact ⟨fun _ => ⟨isDirty_of_refreshed hv hd, .inl hcycle⟩, fun _ => rfl⟩
  | read hv => exact ⟨fun _ => hready hv, fun _ => rfl⟩
  | value hv => exact ⟨fun _ => hready hv, fun _ => rfl⟩
  | exhausted hv => exact ⟨fun _ => hready hv, fun _ => rfl⟩
  | rewired hv => exact ⟨fun _ => hready hv, fun _ => rfl⟩

/-- A pass acts at some moment if a slot that it takes holds a vertex which can be dealt with from the beginning. -/
theorem Leads.acts_iff (hl : Leads h limit p moments p') (hu : Underway p) :
    (∃ m ∈ moments, (Pass.look h limit m.1 m.2).acts = true) ↔ ∃ i ∈ p.queue.take moments.length, p.graph.Open i := by
  induction hl with
  | stop => simp
  | @look p p' j rest moments hq hrest ih =>
    have hstep := looked_step (p := p.taken rest) hu.cycles h limit j
    have hiff := hstep.acts_iff hu.wellFormed
    rw [List.exists_mem_cons_iff, hiff, hq, List.length_cons, List.take_succ_cons, List.exists_mem_cons_iff]
    by_cases hopen : p.graph.Open j
    · exact ⟨fun _ => .inl hopen, fun _ => .inl hopen⟩
    · obtain ⟨hup, hqueue, -, -⟩ := hstep.upToCycles (Bool.eq_false_iff.2 (mt hiff.1 hopen))
      rw [ih (hu.step hq h limit), hqueue]
      simp only [hup.open_iff]
      rfl

/-- A pass that never acts has looked at the first slots of its queue and has left everything else as it was. -/
theorem Leads.still (hl : Leads h limit p moments p') (hu : Underway p)
    (hnone : ∀ m ∈ moments, (Pass.look h limit m.1 m.2).acts = false) :
    UpToCycles p.graph p'.graph ∧ p'.state = p.state := by
  induction hl with
  | @stop p => exact ⟨.refl p.graph, rfl⟩
  | @look p p' j rest moments hq hrest ih =>
    have hstep := looked_step (p := p.taken rest) hu.cycles h limit j
    obtain ⟨hup, -, hstate, -⟩ := hstep.upToCycles (hnone _ List.mem_cons_self)
    obtain ⟨hup', hstate'⟩ := ih (hu.step hq h limit) fun m hm => hnone m (List.mem_cons_of_mem _ hm)
    exact ⟨hup.trans hup', hstate'.trans hstate⟩

/-- When the queue is empty a pass has looked at all that was in it. -/
theorem Leads.length_queue_le (hl : Leads h limit p moments p') (hu : Underway p) (hq : p'.queue = []) :
    p.queue.length ≤ moments.length := by
  induction hl with
  | stop => simp [hq]
  | @look p p' j rest moments hi hrest ih =>
    have hqueue := (looked_step (p := p.taken rest) hu.cycles h limit j).queue
    have hlength := congrArg List.length hqueue
    rw [List.length_append] at hlength
    have hfirst := ih (hu.step hi h limit) hq
    have hrest : (p.taken rest).queue = rest := rfl
    rw [hrest] at hlength
    rw [hi, List.length_cons, List.length_cons]
    omega

/-! ### How much work there is -/

/-- Whether dependencies have been replaced, or were to be replaced too often. -/
def Look.replaces (look : Look) : Bool := look == .rewired || look == .exhausted

theorem Looked.rebuilds (hl : Looked h limit p i look p') :
    p'.tally.rebuilds = p.tally.rebuilds + if look.replaces then 1 else 0 := by
  cases hl <;> rfl

theorem Leads.rebuilds (hl : Leads h limit p moments p') (hu : Underway p) :
    p'.tally.rebuilds = p.tally.rebuilds + moments.countP fun m => (Pass.look h limit m.1 m.2).replaces := by
  induction hl with
  | stop => rfl
  | @look p p' j rest moments hq hrest ih =>
    have hstep := (looked_step (p := p.taken rest) hu.cycles h limit j).rebuilds
    have htaken : (p.taken rest).tally = p.tally := rfl
    rw [ih (hu.step hq h limit), hstep, htaken, List.countP_cons, Nat.add_right_comm, ← Nat.add_assoc]

/-- A pass acts if it settles a vertex or replaces dependencies. -/
theorem Leads.acts_iff_settles (hl : Leads h limit p moments p') (hu : Underway p) :
    (∃ m ∈ moments, (Pass.look h limit m.1 m.2).acts = true) ↔
      (∃ m ∈ moments, (Pass.look h limit m.1 m.2).settles = true) ∨ p.tally.rebuilds < p'.tally.rebuilds := by
  have hcount : p.tally.rebuilds < p'.tally.rebuilds ↔ ∃ m ∈ moments, (Pass.look h limit m.1 m.2).replaces = true := by
    rw [hl.rebuilds hu, ← List.countP_pos_iff]
    omega
  have hlook (look : Look) : look.acts = true ↔ look.settles = true ∨ look.replaces = true := by
    cases look <;> decide
  simp only [hcount, hlook, and_or_left, exists_or]

/-- While nothing is settled, each slot that a pass takes from the queue is lost to it, unless dependencies are
replaced. -/
theorem Leads.length_of_nothing (hl : Leads h limit p moments p') (hu : Underway p)
    (hnone : ∀ m ∈ moments, (Pass.look h limit m.1 m.2).settles = false) :
    p.queue.length + p'.tally.rebuilds = moments.length + p'.queue.length + p.tally.rebuilds := by
  induction hl with
  | stop => simp
  | @look p p' j rest moments hq hrest ih =>
    have hstep := looked_step (p := p.taken rest) hu.cycles h limit j
    have hsettles := hnone _ List.mem_cons_self
    have hnext := ih (hu.step hq h limit) fun m hm => hnone m (List.mem_cons_of_mem _ hm)
    have hlook (look : Look) (hc : look.settles = false) : look.replaces = true ↔ look = .rewired := by
      cases look <;> simp_all [Look.replaces, Look.settles]
    have hqueue := congrArg List.length hstep.queue
    have hrebuilds := hstep.rebuilds
    have htaken : (p.taken rest).queue = rest ∧ (p.taken rest).tally = p.tally := ⟨rfl, rfl⟩
    rw [htaken.1, List.length_append, if_neg (Bool.eq_false_iff.1 hsettles)] at hqueue
    rw [htaken.2] at hrebuilds
    simp only [hlook _ hsettles] at hrebuilds
    rw [hq, List.length_cons, List.length_cons]
    split at hqueue <;> rename_i hre
    · rw [if_pos hre] at hrebuilds
      rw [List.length_singleton] at hqueue
      omega
    · rw [if_neg hre] at hrebuilds
      rw [List.length_nil] at hqueue
      omega

theorem sum_map_ite (is : List Slot) (cond : Slot → Bool) (c : Nat) :
    (is.map fun k => if cond k then c else 0).sum = (is.filter cond).length * c := by
  induction is with
  | nil => simp
  | cons i is ih =>
    by_cases hi : cond i = true
    · rw [List.map_cons, List.sum_cons, ih, List.filter_cons_of_pos hi, if_pos hi, List.length_cons, Nat.succ_mul,
        Nat.add_comm]
    · rw [List.map_cons, List.sum_cons, ih, List.filter_cons_of_neg hi, if_neg hi, Nat.zero_add]

/-- For each dirty vertex there is at least one thing to do, and at most one more than dependencies may be replaced. -/
theorem work_bounds {n : Nat} (hn : ∀ k, g.isDirty k = true → k < n) :
    g.dirtyCount ≤ work limit g n ∧ work limit g n ≤ g.dirtyCount * (1 + limit) := by
  have hcount : ((List.range n).filter g.isDirty).length = g.dirtyCount :=
    length_eq_dirtyCount (List.nodup_range.filter _) fun k => by
      rw [List.mem_filter, List.mem_range]
      exact ⟨And.right, fun hk => ⟨hn k hk, hk⟩⟩
  have hweight (k : Slot) : (if g.isDirty k then 1 else 0) ≤ weight limit g k ∧
      weight limit g k ≤ if g.isDirty k then 1 + limit else 0 := by
    by_cases hk : g.isDirty k = true
    · obtain ⟨v, hv, hd⟩ := isDirty_iff.1 hk
      rw [weight_of_vertex? hv hd, if_pos hk, if_pos hk]
      omega
    · rw [weight_of_clean hk, if_neg hk, if_neg hk]
      omega
  rw [← hcount, ← sum_map_ite _ _ (1 + limit)]
  refine ⟨?_, List.sum_le_sum fun k _ => (hweight k).2⟩
  have hsum := sum_map_ite (List.range n) g.isDirty 1
  rw [Nat.mul_one] at hsum
  rw [← hsum]
  exact List.sum_le_sum fun k _ => (hweight k).1

/-- Each time that dependencies are replaced there is less work left. -/
theorem Leads.work_le (hl : Leads h limit p moments p') (hu : Underway p) {n : Nat}
    (hn : ∀ k, p.graph.isDirty k = true → k < n) :
    work limit p'.graph n + p'.tally.rebuilds ≤ work limit p.graph n + p.tally.rebuilds := by
  induction hl with
  | stop => exact Nat.le_refl _
  | @look p p' j rest moments hq hrest ih =>
    have hstep := looked_step (p := p.taken rest) hu.cycles h limit j
    have hs := stepped_step (p := p.taken rest) hu.wellFormed hu.cycles h limit j
    have hnext := ih (hu.step hq h limit) fun k hk => hn k ((hs.dirty k).1 hk).1
    have hrebuilds : _ = p.tally.rebuilds + _ := hstep.rebuilds
    by_cases hreplaces : (Pass.look h limit (p.taken rest) j).replaces = true
    · have hacts : (Pass.look h limit (p.taken rest) j).settles = true ∨ Pass.look h limit (p.taken rest) j = .rewired := by
        revert hreplaces
        cases Pass.look h limit (p.taken rest) j <;> decide
      have hdirty : p.graph.isDirty j = true := by
        refine hstep.isDirty fun hc => ?_
        rw [hc] at hreplaces
        cases hreplaces
      have hlt : _ < work limit p.graph n := hs.work_lt hstep hacts (hn j hdirty)
      rw [if_pos hreplaces] at hrebuilds
      omega
    · have hle : _ ≤ work limit p.graph n := hs.work_le limit n
      rw [if_neg hreplaces] at hrebuilds
      omega

/-! ### Settling -/

/-- A vertex is settled just if one becomes clean. -/
theorem Leads.settles_iff (hl : Leads h limit p moments p') (hu : Underway p) :
    (∃ m ∈ moments, (Pass.look h limit m.1 m.2).settles = true) ↔
      ∃ k, p.graph.isDirty k = true ∧ ¬p'.graph.isDirty k = true := by
  constructor
  · rintro ⟨m, hm, hsettles⟩
    refine ⟨m.2, ((hl.settlings_spec hu).2 m.2).1 ?_⟩
    exact List.mem_map.2 ⟨m, List.mem_filter.2 ⟨hm, hsettles⟩, rfl⟩
  · rintro ⟨k, hk, hclean⟩
    obtain ⟨m, hm, -⟩ := List.mem_map.1 (((hl.settlings_spec hu).2 k).2 ⟨hk, hclean⟩)
    exact ⟨m, List.mem_filter.1 hm⟩

/-- While nothing is settled all that is dirty stays dirty. -/
theorem Leads.isDirty_of_nothing (hl : Leads h limit p moments p') (hu : Underway p)
    (hnone : ∀ m ∈ moments, (Pass.look h limit m.1 m.2).settles = false) (hk : p.graph.isDirty k = true) :
    p'.graph.isDirty k = true := by
  by_contra hclean
  obtain ⟨m, hm, hsettles⟩ := (hl.settles_iff hu).2 ⟨k, hk, hclean⟩
  rw [hnone m hm] at hsettles
  cases hsettles

/-- A pass with dirty vertices settles one if it takes as many slots as are in its queue and one more for each time that
it replaces dependencies. -/
theorem Leads.settles_of_length (hl : Leads h limit p moments p') (hu : Underway p) (hk : p.graph.isDirty k = true)
    (hlength : p'.queue = [] ∨ p.queue.length + p'.tally.rebuilds ≤ moments.length + p.tally.rebuilds) :
    ∃ m ∈ moments, (Pass.look h limit m.1 m.2).settles = true := by
  by_contra hsettles
  have hnone (m : Pass σ × Slot) (hm : m ∈ moments) : (Pass.look h limit m.1 m.2).settles = false :=
    Bool.eq_false_iff.2 fun hc => hsettles ⟨m, hm, hc⟩
  have hcount := hl.length_of_nothing hu hnone
  have hempty : p'.queue = [] := hlength.elim id fun hle => List.length_eq_zero_iff.1 (by omega)
  exact (hl.underway hu).clean hempty k (hl.isDirty_of_nothing hu hnone hk)

/-- Dependencies are replaced only so often before a vertex is settled. -/
theorem Leads.rebuilds_le (hl : Leads h limit p moments p') (hu : Underway p)
    (hnone : ∀ m ∈ moments, (Pass.look h limit m.1 m.2).settles = false) :
    p.graph.dirtyCount + p'.tally.rebuilds ≤ p.graph.dirtyCount * (1 + limit) + p.tally.rebuilds := by
  have hlt (k : Slot) (hk : p.graph.isDirty k = true) : k < p.graph.slots.size :=
    List.mem_range.1 (List.mem_filter.1 (mem_dirtySlots.2 hk)).1
  have hle := hl.work_le hu hlt
  have hfirst : work limit p.graph _ ≤ p.graph.dirtyCount * (1 + limit) := (work_bounds hlt).2
  have hlast : p'.graph.dirtyCount ≤ work limit p'.graph _ := (work_bounds fun k hk => hlt k (hl.dirty_mono hu hk)).1
  have hcount : p.graph.dirtyCount ≤ p'.graph.dirtyCount := dirtyCount_le fun k hk => hl.isDirty_of_nothing hu hnone hk
  omega

end Pass

end Spreadsheet.Graph

namespace Spreadsheet.Graph.Pass

variable {σ : Type} {h : Handler σ} {limit : Nat} {p p' q : Pass σ} {moments : List (Pass σ × Slot)}

/-! ### Where a bound falls -/

/-- Whether the pass settles the vertex that it looks at. -/
def Settles (h : Handler σ) (limit : Nat) (m : Pass σ × Slot) : Prop := (look h limit m.1 m.2).settles = true

/-- How many slots are put into the queue at a moment: those of the readers of a vertex that is settled, or the vertex
itself if its dependencies are replaced. -/
def entering (h : Handler σ) (limit : Nat) (m : Pass σ × Slot) : Nat :=
  if (look h limit m.1 m.2).settles then (m.1.graph.dependents m.2).length
  else if look h limit m.1 m.2 = .rewired then 1 else 0

/-- A pass that is run to its end can be held after any number of slots. -/
theorem Runs.hold (hr : Runs h limit p moments p') (n : Nat) :
    ∃ q, Leads h limit p (moments.take n) q ∧ Runs h limit q (moments.drop n) p' := by
  induction hr generalizing n with
  | @done p hq =>
    refine ⟨p, ?_, ?_⟩
    · rw [List.take_nil]
      exact .stop
    · rw [List.drop_nil]
      exact .done hq
  | @look p p' i rest moments hq hrest ih =>
    cases n with
    | zero => exact ⟨p, .stop, .look hq hrest⟩
    | succ n =>
      obtain ⟨q, hleads, hruns⟩ := ih n
      exact ⟨q, .look hq hleads, hruns⟩

/-- A pass that has come somewhere goes on from there with the steps that are left. -/
theorem Leads.run (hl : Leads h limit p moments q) (n : Nat) :
    Pass.run h limit (moments.length + n) p = Pass.run h limit n q := by
  induction hl with
  | stop => rw [List.length_nil, Nat.zero_add]
  | @look p q i rest moments hq hrest ih =>
    rw [List.length_cons, Nat.add_right_comm, Pass.run, hq]
    exact ih

theorem Leads.truncated (hl : Leads h limit p moments q) (hu : Underway p) :
    q.tally.truncated = p.tally.truncated := by
  induction hl with
  | stop => rfl
  | @look p q i rest moments hq hrest ih =>
    have hs := stepped_step (p := p.taken rest) hu.wellFormed hu.cycles h limit i
    exact (ih (hu.step hq h limit)).trans hs.truncated

/-- Without any steps left a pass is cut short unless it is at its end. -/
theorem Runs.run_zero (hr : Runs h limit p moments p') :
    Pass.run h limit 0 p = if moments = [] then p' else p.cut := by
  cases hr with
  | done hq => simp [Pass.run, hq]
  | look hq => simp [Pass.run, hq]

/-- With a bound a pass does what the unbounded one does with as many slots, and is cut short if there are more. -/
theorem Runs.run_eq (hr : Runs h limit p moments p') (n : Nat) :
    ∃ q, Leads h limit p (moments.take n) q ∧ Runs h limit q (moments.drop n) p' ∧
      Pass.run h limit n p = if n < moments.length then q.cut else q := by
  obtain ⟨q, hleads, hruns⟩ := hr.hold n
  refine ⟨q, hleads, hruns, ?_⟩
  split
  · rename_i hlt
    have hrun := hleads.run 0
    rw [List.length_take_of_le (Nat.le_of_lt hlt), Nat.add_zero, hruns.run_zero] at hrun
    rw [hrun, if_neg]
    simpa using hlt
  · rename_i hle
    have hle : moments.length ≤ n := Nat.le_of_not_lt hle
    rw [List.drop_eq_nil_of_le hle] at hruns
    cases hruns
    exact hr.run hle

/-- A pass is cut short by a bound just if it takes more slots without one. -/
theorem Runs.truncated_iff (hr : Runs h limit p moments p') (hu : Underway p) (hp : p.tally.truncated = false) (n : Nat) :
    (Pass.run h limit n p).tally.truncated = true ↔ n < moments.length := by
  obtain ⟨q, hleads, -, hrun⟩ := hr.run_eq n
  rw [hrun]
  split
  · rename_i hlt
    exact ⟨fun _ => hlt, fun _ => rfl⟩
  · rename_i hle
    rw [hleads.truncated hu, hp]
    exact ⟨nofun, fun hlt => absurd hlt hle⟩

/-- What is dirty in the middle of a pass is settled later on. -/
theorem Runs.dirtyCount_pos_iff (hr : Runs h limit p moments p') (hu : Underway p) :
    0 < p.graph.dirtyCount ↔ ∃ m ∈ moments, Settles h limit m := by
  have hclean (k : Slot) : ¬p'.graph.isDirty k = true := (hr.underway hu).clean hr.queue k
  rw [Graph.dirtyCount_pos_iff]
  refine (exists_congr fun k => ?_).trans (hr.leads.settles_iff hu).symm
  exact ⟨fun hk => ⟨hk, hclean k⟩, And.left⟩

/-- A bound leaves vertices dirty just if the unbounded pass settles one with the slots that it takes beyond it. -/
theorem Runs.dirtyCount_run_pos_iff (hr : Runs h limit p moments p') (hu : Underway p) (n : Nat) :
    0 < (Pass.run h limit n p).graph.dirtyCount ↔ ∃ m ∈ moments.drop n, Settles h limit m := by
  obtain ⟨q, hleads, hruns, hrun⟩ := hr.run_eq n
  rw [← hruns.dirtyCount_pos_iff (hleads.underway hu), hrun]
  -- cutting a pass short changes no vertex
  split
  · rfl
  · rfl

/-- Every slot that a pass takes has been in the queue at its beginning or has been put there on the way. -/
theorem Leads.length_moments (hl : Leads h limit p moments q) (hu : Underway p) :
    moments.length + q.queue.length = p.queue.length + (moments.map (entering h limit)).sum := by
  induction hl with
  | stop => simp
  | @look p q i rest moments hq hrest ih =>
    have hqueue := congrArg List.length (looked_step (p := p.taken rest) hu.cycles h limit i).queue
    have hentering : (Pass.step h limit (p.taken rest) i).queue.length =
        rest.length + entering h limit (p.taken rest, i) := by
      rw [hqueue, List.length_append, entering]
      refine congrArg (rest.length + ·) ?_
      split
      · rfl
      · split <;> rfl
    have hnext := ih (hu.step hq h limit)
    rw [hq, List.length_cons, List.length_cons, List.map_cons, List.sum_cons]
    omega

end Spreadsheet.Graph.Pass
