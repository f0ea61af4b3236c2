import Mathlib.Algebra.Order.BigOperators.Group.List
import Mathlib.Algebra.Order.Ring.Nat
import Mathlib.Data.Fintype.Card
import Mathlib.Data.Fintype.EquivFin
import Spreadsheet.Proofs.Graph.Step

/-!
Whole passes. While a pass is under way every dirty vertex is in the queue or waits for a dirty input,
and those that wait do not wait for each other in a circle. So none is left when the queue is empty. A
pass comes to its end because each vertex is settled once and has its dependencies replaced only so often.
-/

namespace Spreadsheet.Graph.Pass

open Relation

variable {σ : Type} {g : Graph} {h : Handler σ} {limit : Nat} {p p' : Pass σ} {i j k l : Slot}
  {rest : List Slot}

/-! ### Vertices that wait -/

/-- A dirty vertex outside of the queue waits for another one. -/
structure Waits (p : Pass σ) (k l : Slot) : Prop where
  edge : p.graph.Edge k l
  source : p.graph.isDirty k = true ∧ k ∉ p.queue
  target : p.graph.isDirty l = true ∧ l ∉ p.queue

/-- What holds while a pass is under way. -/
structure Underway (p : Pass σ) : Prop where
  wellFormed : p.graph.WellFormed
  cycles : p.graph.CyclesKnown
  marked : p.graph.marked = []
  /-- No dirty vertex is forgotten. -/
  awake : ∀ l, p.graph.isDirty l = true → l ∈ p.queue ∨ ∃ k, p.graph.Edge k l ∧ p.graph.isDirty k = true
  /-- Vertices do not wait for each other in a circle. -/
  acyclic : ∀ k, ¬TransGen p.Waits k k

/-- The pass whose queue begins with a slot, when the slot has been taken from it. -/
def taken (p : Pass σ) (queue : List Slot) : Pass σ := { p with queue }

/-- A path along which each step either keeps to a second relation or touches a point either keeps to the
second relation or leads through that point. -/
theorem transGen_or_through {α : Type} {r s : α → α → Prop} {x y i : α}
    (hrs : ∀ a b, r a b → s a b ∨ a = i ∨ b = i) (hpath : TransGen r x y) :
    TransGen s x y ∨ ReflTransGen r x i ∧ ReflTransGen r i y := by
  induction hpath with
  | single hxy =>
    rename_i y
    rcases hrs _ _ hxy with hs | rfl | rfl
    · exact .inl (.single hs)
    · exact .inr ⟨.refl, .single hxy⟩
    · exact .inr ⟨.single hxy, .refl⟩
  | tail hpath hyz ih =>
    rcases ih with hs | ⟨hxi, hiy⟩
    · rcases hrs _ _ hyz with hs' | rfl | rfl
      · exact .inl (hs.tail hs')
      · exact .inr ⟨hpath.to_reflTransGen, .single hyz⟩
      · exact .inr ⟨hpath.to_reflTransGen.tail hyz, .refl⟩
    · exact .inr ⟨hxi, hiy.tail hyz⟩

namespace Underway

/-- After a step vertices wait for each other as before, but for the one that the step has found waiting. -/
theorem waits_step (hq : p.queue = i :: rest) {look : Look}
    (hs : Stepped look (p.taken rest) i p') (hl : Looked h limit (p.taken rest) i look p')
    (hkl : p'.Waits k l) : p.Waits k l ∨ look = .waits ∧ (k = i ∨ l = i) := by
  have hdk := (hs.dirty k).1 hkl.source.1
  have hdl := (hs.dirty l).1 hkl.target.1
  have hmem (m : Slot) (hm : m ∉ p'.queue) (hmi : m ≠ i) : m ∉ p.queue := by
    rw [hs.queue, List.mem_append, not_or] at hm
    rw [hq, List.mem_cons]
    rintro (rfl | hc)
    · exact hmi rfl
    · exact hm.1 hc
  by_cases hwait : look = .waits ∧ (k = i ∨ l = i)
  · exact .inr hwait
  · have hne (m : Slot) (hd : p.graph.isDirty m = true ∧ ¬(m = i ∧ look.settles = true)) (hm : m ∉ p'.queue)
        (hends : look = .waits → m ≠ i) : m ≠ i := by
      rintro rfl
      cases hl with
      | idle hclean => exact hclean hd.1
      | waits => exact hends rfl rfl
      | rewired => exact hm (by rw [hs.queue]; simp [Look.settles])
      | cycle => exact hd.2 ⟨rfl, rfl⟩
      | read => exact hd.2 ⟨rfl, rfl⟩
      | value => exact hd.2 ⟨rfl, rfl⟩
      | exhausted => exact hd.2 ⟨rfl, rfl⟩
    have hki := hne k hdk hkl.source.2 fun hw hk => hwait ⟨hw, .inl hk⟩
    have hli := hne l hdl hkl.target.2 fun hw hl => hwait ⟨hw, .inr hl⟩
    have hedge : p.graph.Edge k l := by
      rcases hs.edge_new k l hkl.edge with he | ⟨-, hl | hk⟩
      · exact he
      · exact absurd hl hli
      · exact absurd (live_of_isDirty hdk.1) hk
    exact .inl ⟨hedge, ⟨hdk.1, hmem k hkl.source.2 hki⟩, hdl.1, hmem l hkl.target.2 hli⟩

theorem step (hu : Underway p) (hq : p.queue = i :: rest) (h : Handler σ) (limit : Nat) :
    Underway (Pass.step h limit (p.taken rest) i) := by
  have hs := stepped_step (p := p.taken rest) hu.wellFormed hu.cycles h limit i
  have hl := looked_step (p := p.taken rest) hu.cycles h limit i
  generalize look h limit (p.taken rest) i = look at hs hl
  generalize Pass.step h limit (p.taken rest) i = p' at hs hl ⊢
  have hqueue : ∀ m ∈ rest, m ∈ p'.queue := fun m hm => by
    rw [hs.queue]
    exact List.mem_append_left _ hm
  refine ⟨hs.wellFormed, hs.cycles, hs.marked hu.marked, fun l hd => ?_, fun k hcircle => ?_⟩
  · have hdl := (hs.dirty l).1 hd
    -- whoever has a dirty input either keeps it, or is put into the queue by the step
    have hinput (m : Slot) (hml : p.graph.Edge m l) (hdm : p.graph.isDirty m = true) :
        l ∈ p'.queue ∨ ∃ k, p'.graph.Edge k l ∧ p'.graph.isDirty k = true := by
      by_cases hsettles : m = i ∧ look.settles = true
      · refine .inl ?_
        obtain ⟨rfl, hsettles⟩ := hsettles
        rw [hs.queue, if_pos hsettles]
        exact List.mem_append_right _ (mem_dependents_iff.2 hml)
      · by_cases hre : look = .rewired ∧ l = i
        · refine .inl ?_
          rw [hs.queue, hre.1, hre.2]
          simp [Look.settles]
        · exact .inr ⟨m, hs.edge m l hml hre, (hs.dirty m).2 ⟨hdm, hsettles⟩⟩
    rcases hu.awake l hdl.1 with hmem | ⟨m, hml, hdm⟩
    · rw [hq, List.mem_cons] at hmem
      rcases hmem with rfl | hmem
      · cases hl with
        | idle hclean => exact absurd hdl.1 hclean
        | waits _ _ hk hkd => exact hinput _ ((hu.wellFormed.linked _ _).2 hk) hkd
        | rewired => exact .inl (by rw [hs.queue]; simp [Look.settles])
        | cycle => exact absurd ⟨rfl, rfl⟩ hdl.2
        | read => exact absurd ⟨rfl, rfl⟩ hdl.2
        | value => exact absurd ⟨rfl, rfl⟩ hdl.2
        | exhausted => exact absurd ⟨rfl, rfl⟩ hdl.2
      · exact .inl (hqueue l hmem)
    · exact hinput m hml hdm
  · by_cases hwait : look = .waits
    · subst hwait
      rcases transGen_or_through (i := i) (fun a b hab => (waits_step hq hs hl hab).imp_right And.right) hcircle with
        hold | ⟨hki, hik⟩
      · exact hu.acyclic k hold
      · have hcycle : p'.graph.OnCycle i := by
          refine TransGen.mono (fun _ _ (hab : p'.Waits _ _) => hab.edge) _ _ ?_
          exact TransGen.trans_right hik (TransGen.trans_left hcircle hki)
        cases hl with
        | waits _ hacyclic =>
          exact hacyclic ((onCycle_congr fun k l => (upToCycles_charted p.graph i).edge_iff).1 hcycle)
    · refine hu.acyclic k (TransGen.mono (fun a b hab => ?_) _ _ hcircle)
      exact (waits_step hq hs hl hab).resolve_right fun hc => hwait hc.1

end Underway

/-- When the queue is empty no vertex is dirty. -/
theorem Underway.clean (hu : Underway p) (hq : p.queue = []) (i : Slot) : ¬p.graph.isDirty i = true := by
  have hlt (k : Slot) (hk : p.graph.isDirty k = true) : k < p.graph.slots.size := by
    obtain ⟨v, hv⟩ := live_of_isDirty hk
    exact lt_size_of_vertex? hv
  -- waiting cannot go on for ever, since there are only so many vertices
  let r (a b : Fin p.graph.slots.size) : Prop := TransGen p.Waits a b
  have : IsTrans _ r := ⟨fun _ _ _ hab hbc => TransGen.trans hab hbc⟩
  have : Std.Irrefl r := ⟨fun a => hu.acyclic a⟩
  have hwell : WellFounded r := Finite.wellFounded_of_trans_of_irrefl r
  suffices hnone : ∀ a : Fin p.graph.slots.size, ¬p.graph.isDirty a = true from
    fun hd => hnone ⟨i, hlt i hd⟩ hd
  intro a
  induction a using hwell.induction with
  | _ a ih =>
    intro hd
    rcases hu.awake a hd with hmem | ⟨k, hka, hk⟩
    · rw [hq] at hmem
      cases hmem
    · refine ih ⟨k, hlt k hk⟩ (.single ⟨hka, ⟨hk, ?_⟩, hd, ?_⟩) hk <;> simp [hq]

/-! ### Running -/

/-- A pass that goes on for a while, with the moments at which it looks at slots. -/
inductive Leads (h : Handler σ) (limit : Nat) : Pass σ → List (Pass σ × Slot) → Pass σ → Prop
  | stop {p : Pass σ} : Leads h limit p [] p
  | look {p p' : Pass σ} {i : Slot} {rest : List Slot} {moments : List (Pass σ × Slot)}
    (hq : p.queue = i :: rest) (hrest : Leads h limit (step h limit (p.taken rest) i) moments p') :
    Leads h limit p ((p.taken rest, i) :: moments) p'

theorem Leads.underway {moments : List (Pass σ × Slot)} (hl : Leads h limit p moments p') (hu : Underway p) :
    Underway p' := by
  induction hl with
  | stop => exact hu
  | look hq hrest ih => exact ih (hu.step hq h limit)

/-- A pass goes on until its queue is empty, or until it has looked at as many slots as it may and is cut short. -/
theorem leads_run (h : Handler σ) (limit steps : Nat) (p : Pass σ) : ∃ moments q, Leads h limit p moments q ∧
    (q.queue = [] ∧ moments.length ≤ steps ∧ run h limit steps p = q ∨
      q.queue ≠ [] ∧ moments.length = steps ∧ run h limit steps p = q.cut) := by
  induction steps generalizing p with
  | zero =>
    unfold run
    cases hq : p.queue with
    | nil => exact ⟨[], p, .stop, .inl ⟨hq, Nat.le_refl _, rfl⟩⟩
    | cons i rest => exact ⟨[], p, .stop, .inr ⟨hq ▸ List.cons_ne_nil i rest, rfl, rfl⟩⟩
  | succ steps ih =>
    unfold run
    cases hq : p.queue with
    | nil => exact ⟨[], p, .stop, .inl ⟨hq, Nat.zero_le _, rfl⟩⟩
    | cons i rest =>
      obtain ⟨moments, q, hl, hend⟩ := ih (step h limit (p.taken rest) i)
      refine ⟨_, q, .look hq hl, hend.imp (fun hdone => ⟨hdone.1, ?_, hdone.2.2⟩) fun hcut => ⟨hcut.1, ?_, hcut.2.2⟩⟩
      · exact Nat.succ_le_succ hdone.2.1
      · exact congrArg Nat.succ hcut.2.1

/-! ### Running to the end -/

/-- A pass that goes on until its queue is empty, with the moments at which it looks at slots. -/
inductive Runs (h : Handler σ) (limit : Nat) : Pass σ → List (Pass σ × Slot) → Pass σ → Prop
  | done {p : Pass σ} (hq : p.queue = []) : Runs h limit p [] p
  | look {p p' : Pass σ} {i : Slot} {rest : List Slot} {moments : List (Pass σ × Slot)}
    (hq : p.queue = i :: rest) (hrest : Runs h limit (step h limit (p.taken rest) i) moments p') :
    Runs h limit p ((p.taken rest, i) :: moments) p'

/-- With enough steps a pass is run to its end. -/
theorem Runs.run {moments : List (Pass σ × Slot)} (hr : Runs h limit p moments p') {steps : Nat}
    (hsteps : moments.length ≤ steps) : run h limit steps p = p' := by
  induction hr generalizing steps with
  | done hq =>
    unfold Pass.run
    rw [hq]
  | look hq hrest ih =>
    cases steps with
    | zero => cases hsteps
    | succ steps =>
      unfold Pass.run
      rw [hq]
      exact ih (Nat.le_of_succ_le_succ hsteps)

theorem Runs.leads {moments : List (Pass σ × Slot)} (hr : Runs h limit p moments p') : Leads h limit p moments p' := by
  induction hr with
  | done => exact .stop
  | look hq _ ih => exact .look hq ih

theorem Leads.runs {moments : List (Pass σ × Slot)} (hl : Leads h limit p moments p') (hq : p'.queue = []) :
    Runs h limit p moments p' := by
  induction hl with
  | stop => exact .done hq
  | look hi _ ih => exact .look hi (ih hq)

/-- A pass that is not cut short is run to its end. -/
theorem runs_run {steps : Nat} (hcut : (run h limit steps p).tally.truncated = false) :
    ∃ moments, Runs h limit p moments (run h limit steps p) := by
  obtain ⟨moments, q, hl, ⟨hq, -, hrun⟩ | ⟨-, -, hrun⟩⟩ := leads_run h limit steps p <;> rw [hrun] at hcut ⊢
  · exact ⟨moments, hl.runs hq⟩
  · cases hcut

theorem Runs.underway {moments : List (Pass σ × Slot)} (hr : Runs h limit p moments p') (hu : Underway p) :
    Underway p' :=
  hr.leads.underway hu

theorem Runs.queue {moments : List (Pass σ × Slot)} (hr : Runs h limit p moments p') : p'.queue = [] := by
  induction hr with
  | done hq => exact hq
  | look _ _ ih => exact ih

/-- How much work on a vertex a pass has before it at most. -/
def weight (limit : Nat) (g : Graph) (k : Slot) : Nat :=
  match g.vertex? k with
  | some v => if v.dirty then 1 + (limit - v.rebuilds) else 0
  | none => 0

theorem weight_of_clean (hk : ¬g.isDirty k = true) : weight limit g k = 0 := by
  unfold weight
  split
  · rename_i v hv
    rw [if_neg (mt (isDirty_iff_of_vertex? hv).2 hk)]
  · rfl

theorem weight_of_vertex? {v : Vertex} (hv : g.vertex? k = some v) (hd : v.dirty = true) :
    weight limit g k = 1 + (limit - v.rebuilds) := by
  rw [weight, hv]
  simp [hd]

/-- No step adds to the work. -/
theorem Stepped.weight_le {look : Look} (hs : Stepped look p i p') (limit : Nat) (k : Slot) :
    weight limit p'.graph k ≤ weight limit p.graph k := by
  by_cases hd : p'.graph.isDirty k = true
  · obtain ⟨v, hv, hvd⟩ := isDirty_iff.1 ((hs.dirty k).1 hd).1
    obtain ⟨w, hw, hwd⟩ := isDirty_iff.1 hd
    rw [weight_of_vertex? hv hvd, weight_of_vertex? hw hwd, hs.rebuilds k v w hv hw hwd]
    split <;> omega
  · rw [weight_of_clean hd]
    exact Nat.zero_le _

/-- A step that settles a vertex or replaces its dependencies leaves less work on it. -/
theorem Stepped.weight_lt {look : Look} (hs : Stepped look p i p') (hl : Looked h limit p i look p')
    (hlook : look.settles = true ∨ look = .rewired) :
    weight limit p'.graph i < weight limit p.graph i := by
  have hdirty : p.graph.isDirty i = true := by
    refine hl.isDirty ?_
    rintro rfl
    rcases hlook with hc | hc <;> cases hc
  obtain ⟨v, hv, hvd⟩ := isDirty_iff.1 hdirty
  rw [weight_of_vertex? hv hvd]
  by_cases hd : p'.graph.isDirty i = true
  · have hre : look = .rewired := hlook.resolve_left fun hc => ((hs.dirty i).1 hd).2 ⟨rfl, hc⟩
    obtain ⟨w, hw, hwd⟩ := isDirty_iff.1 hd
    have hlimit : v.rebuilds < limit := by
      subst hre
      cases hl with
      | rewired hready _ _ hlimit =>
        obtain ⟨b, hb⟩ := (upToCycles_refreshCycles p.graph).vertex_of' hready.vertex
        rw [hv] at hb
        cases hb
        exact hlimit
    rw [weight_of_vertex? hw hwd, hs.rebuilds i v w hv hw hwd, if_pos ⟨rfl, hre⟩]
    omega
  · rw [weight_of_clean hd]
    omega

/-- All the work that a pass has before it at most, when dirty vertices stand in the first slots only. -/
def work (limit : Nat) (g : Graph) (n : Nat) : Nat := ((List.range n).map (weight limit g)).sum

theorem Stepped.work_le {look : Look} (hs : Stepped look p i p') (limit n : Nat) :
    work limit p'.graph n ≤ work limit p.graph n :=
  List.sum_le_sum fun k _ => hs.weight_le limit k

theorem Stepped.work_lt {look : Look} (hs : Stepped look p i p') (hl : Looked h limit p i look p')
    (hlook : look.settles = true ∨ look = .rewired) {n : Nat} (hi : i < n) :
    work limit p'.graph n < work limit p.graph n :=
  List.sum_lt_sum _ _ (fun k _ => hs.weight_le limit k) ⟨i, List.mem_range.2 hi, hs.weight_lt hl hlook⟩

/-- Every pass comes to its end. -/
theorem Underway.runs {p : Pass σ} (hu : Underway p) (h : Handler σ) (limit : Nat) {n : Nat}
    (hn : ∀ k, p.graph.isDirty k = true → k < n) : ∃ moments p', Runs h limit p moments p' := by
  cases hq : p.queue with
  | nil => exact ⟨[], p, .done hq⟩
  | cons i rest =>
    have hs := stepped_step (p := p.taken rest) hu.wellFormed hu.cycles h limit i
    have hl := looked_step (p := p.taken rest) hu.cycles h limit i
    have hn' (k : Slot) (hk : (Pass.step h limit (p.taken rest) i).graph.isDirty k = true) : k < n :=
      hn k ((hs.dirty k).1 hk).1
    obtain ⟨moments, p', hr⟩ := (hu.step hq h limit).runs h limit hn'
    exact ⟨_, p', .look hq hr⟩
termination_by (work limit p.graph n, p.queue.length)
decreasing_by
  have hs := stepped_step (p := p.taken rest) hu.wellFormed hu.cycles h limit i
  have hl := looked_step (p := p.taken rest) hu.cycles h limit i
  by_cases hlook : (look h limit (p.taken rest) i).settles = true ∨ look h limit (p.taken rest) i = .rewired
  · refine Prod.Lex.left _ _ (hs.work_lt hl hlook (hn i (hl.isDirty ?_)))
    intro hc
    rw [hc] at hlook
    rcases hlook with hc | hc <;> cases hc
  · rw [not_or] at hlook
    have hqueue : (Pass.step h limit (p.taken rest) i).queue = rest := by
      rw [hs.queue, if_neg hlook.1, if_neg hlook.2, List.append_nil]
      rfl
    refine Prod.Lex.right' _ (hs.work_le limit n) ?_
    rw [hqueue, hq]
    exact Nat.lt_succ_self _

end Spreadsheet.Graph.Pass
