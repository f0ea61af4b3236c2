import Spreadsheet.Proofs.Graph.Look
import Spreadsheet.Proofs.Graph.Run

/-!
What passes come to. A pass over any graph that can come about ends, settles every dirty vertex exactly
once and no other, and asks for a calculation only when all inputs of the vertex are clean. What it asks for is seen in
a log, which any handler can be made to keep without this changing anything else.
-/

namespace Spreadsheet.Graph

variable {σ : Type}

/-- What a handler is asked for. -/
inductive Call where
  | calculate (v : Vertex) (e : Expression)
  | read (p : Position)
  | store (p : Position) (x : Value)
  | spread (area : Area) (x : Value)

/-- An answer that is entered in a log. -/
def logging {α : Type} (c : Call) (answer : StateM σ α) : StateM (σ × List Call) α :=
  modifyGet fun s => ((answer.run s.1).1, (answer.run s.1).2, s.2 ++ [c])

/-- The handler that keeps a log of what it is asked for. -/
def Handler.logged (h : Handler σ) : Handler (σ × List Call) where
  calculate v e := logging (.calculate v e) (h.calculate v e)
  read p := logging (.read p) (h.read p)
  store p x := logging (.store p x) (h.store p x)
  spread a x := logging (.spread a x) (h.spread a x)

namespace Pass

variable {h : Handler σ} {limit : Nat} {p p' : Pass (σ × List Call)} {i : Slot}

/-- The pass without the log. -/
def forget (p : Pass (σ × List Call)) : Pass σ :=
  { graph := p.graph, queue := p.queue, tally := p.tally, state := p.state.1 }

/-- The calls that deliver the result of a vertex. -/
def delivery (v : Vertex) (x : Value) : List Call :=
  match v.content with
  | .value => []
  | .formula _ => [.store v.position x]
  | .array _ a => [.spread a x]

theorem deliver_logged (h : Handler σ) (v : Vertex) (x : Value) (s : σ × List Call) :
    ((deliver h.logged v x).run s).2 = (((deliver h v x).run s.1).2, s.2 ++ delivery v x) := by
  unfold deliver delivery
  cases v.content with
  | value => exact Prod.ext rfl (List.append_nil _).symm
  | formula e => rfl
  | array e a => rfl

theorem forget_settle (h : Handler σ) (p : Pass (σ × List Call)) (i : Slot) (v : Vertex) (x : Value) :
    (settle h.logged p i v x).forget = settle h p.forget i v x := by
  simp only [settle, forget, deliver_logged]

theorem forget_calculate (h : Handler σ) (limit : Nat) (p : Pass (σ × List Call)) (i : Slot) (v : Vertex) :
    (calculate h.logged limit p i v).forget = calculate h limit p.forget i v := by
  unfold calculate
  cases v.expression? with
  | none => exact forget_settle ..
  | some e =>
    cases hrun : (h.calculate v e).run p.forget.state with
    | mk outcome state =>
      have hlogged : (h.logged.calculate v e).run p.state =
          (outcome, state, p.state.2 ++ [.calculate v e]) := by
        change (((h.calculate v e).run p.forget.state).1, ((h.calculate v e).run p.forget.state).2, _) = _
        rw [hrun]
      simp only [hrun, hlogged]
      cases outcome with
      | value x volatile => exact forget_settle ..
      | rewire d =>
        simp only [rebuild]
        split
        · exact forget_settle ..
        · rfl

/-- Keeping a log does not change what a step does. -/
theorem forget_step (h : Handler σ) (limit : Nat) (p : Pass (σ × List Call)) (i : Slot) :
    (step h.logged limit p i).forget = step h limit p.forget i := by
  unfold step
  simp only [show p.forget.graph = p.graph from rfl]
  cases p.graph.refreshCycles.vertex? i with
  | none => rfl
  | some v =>
    simp only
    split
    · split
      · exact forget_settle ..
      · split
        · rfl
        · exact forget_calculate ..
    · rfl

/-- Keeping a log does not change what a pass does. -/
theorem forget_run (h : Handler σ) (limit steps : Nat) (p : Pass (σ × List Call)) :
    (run h.logged limit steps p).forget = run h limit steps p.forget := by
  induction steps generalizing p with
  | zero =>
    unfold run
    simp only [show p.forget.queue = p.queue from rfl]
    cases p.queue <;> rfl
  | succ steps ih =>
    unfold run
    simp only [show p.forget.queue = p.queue from rfl]
    cases p.queue with
    | nil => rfl
    | cons i queue =>
      simp only
      rw [ih, forget_step]
      rfl

/-- The calls that a step makes when it deals with a vertex. -/
inductive Makes (v : Vertex) : Look → List Call → Prop
  | idle : Makes v .idle []
  | cycle : Makes v .cycle (delivery v failure)
  | waits : Makes v .waits []
  | read (hvalue : v.expression? = none) (x : Value) :
    Makes v .calculated (.read v.position :: delivery v x)
  | value {e : Expression} (he : v.expression? = some e) (x : Value) :
    Makes v .calculated (.calculate v e :: delivery v x)
  | exhausted {e : Expression} (he : v.expression? = some e) :
    Makes v .exhausted (.calculate v e :: delivery v failure)
  | rewired {e : Expression} (he : v.expression? = some e) : Makes v .rewired [.calculate v e]

/-- A step makes its calls for the vertex in the slot, and no others. -/
theorem Looked.makes {look : Look} (hl : Looked h.logged limit p i look p') {v : Vertex}
    (hv : p.graph.refreshCycles.vertex? i = some v) :
    ∃ calls, p'.state.2 = p.state.2 ++ calls ∧ Makes v look calls := by
  have heq {w : Vertex} (hw : p.graph.refreshCycles.vertex? i = some w) : w = v :=
    Option.some.inj (hw.symm.trans hv)
  cases hl with
  | idle => exact ⟨[], (List.append_nil _).symm, .idle⟩
  | waits => exact ⟨[], (List.append_nil _).symm, .waits⟩
  | cycle hw =>
    cases heq hw
    exact ⟨_, congrArg Prod.snd (deliver_logged h v _ _), .cycle⟩
  | read hready hvalue =>
    cases heq hready.vertex
    refine ⟨_, ?_, .read hvalue ((h.logged.read v.position).run p.state).1⟩
    exact (congrArg Prod.snd (deliver_logged h v _ _)).trans (List.append_assoc ..)
  | @value _ e x _ state hready he hrun =>
    cases heq hready.vertex
    have hlog : state.2 = p.state.2 ++ [.calculate v e] := (congrArg (·.2.2) hrun).symm
    refine ⟨_, (congrArg Prod.snd (deliver_logged h v x _)).trans ?_, .value he x⟩
    change state.2 ++ delivery v x = _
    rw [hlog, List.append_assoc]
    rfl
  | @exhausted _ e _ state hready he hrun =>
    cases heq hready.vertex
    have hlog : state.2 = p.state.2 ++ [.calculate v e] := (congrArg (·.2.2) hrun).symm
    refine ⟨_, (congrArg Prod.snd (deliver_logged h v failure _)).trans ?_, .exhausted he⟩
    change state.2 ++ delivery v failure = _
    rw [hlog, List.append_assoc]
    rfl
  | rewired hready he hrun =>
    cases heq hready.vertex
    exact ⟨[.calculate v _], (congrArg (·.2.2) hrun).symm, .rewired he⟩

end Pass

end Spreadsheet.Graph

/-! ### What a pass settles -/

namespace Spreadsheet.Graph

variable {σ : Type} {g : Graph} {h : Handler σ} {limit : Nat} {i k l : Slot}

/-! ### The beginning -/

/-- The graph in which no replaced dependencies are counted for some vertices. -/
def rested (g : Graph) (is : List Slot) : Graph :=
  is.foldl (fun g i => g.modify i fun v => { v with rebuilds := 0 }) g

theorem vertex?_rested (g : Graph) (is : List Slot) (k : Slot) :
    (g.rested is).vertex? k = (g.vertex? k).map fun v => if k ∈ is then { v with rebuilds := 0 } else v := by
  induction is generalizing g with
  | nil => simp [rested]
  | cons i is ih =>
    change ((g.modify i fun v => { v with rebuilds := 0 }).rested is).vertex? k = _
    rw [ih, vertex?_modify]
    by_cases hk : i = k
    · subst hk
      cases g.vertex? i <;> simp
    · simp [hk, Ne.symm hk]

theorem WellFormed.rested (h : g.WellFormed) (is : List Slot) : (g.rested is).WellFormed := by
  induction is generalizing g with
  | nil => exact h
  | cons i is ih => exact ih (h.modify (fun _ => rfl) (fun _ => rfl) fun _ => rfl)

theorem CyclesKnown.rested (h : g.CyclesKnown) (is : List Slot) : (g.rested is).CyclesKnown := by
  induction is generalizing g with
  | nil => exact h
  | cons i is ih => exact ih (h.modify (fun _ => rfl) fun _ => rfl)

theorem marked_rested (g : Graph) (is : List Slot) : (g.rested is).marked = g.marked := by
  induction is generalizing g with
  | nil => rfl
  | cons i is ih => exact (ih _).trans (marked_modify ..)

theorem isDirty_rested (g : Graph) (is : List Slot) (k : Slot) :
    (g.rested is).isDirty k = g.isDirty k := by
  rw [isDirty, isDirty, vertex?_rested]
  cases g.vertex? k with
  | none => rfl
  | some v => simp only [Option.map_some, Option.any_some]; split <;> rfl

theorem isDirty_beginPass (g : Graph) (state : σ) (k : Slot) :
    (g.beginPass state).graph.isDirty k = g.isDirty k :=
  isDirty_rested { g with marked := [] } g.marked k

/-- What a vertex is at the beginning of a pass. -/
theorem vertex?_beginPass (g : Graph) (state : σ) (k : Slot) :
    (g.beginPass state).graph.vertex? k =
      (g.vertex? k).map fun v => if k ∈ g.marked then { v with rebuilds := 0 } else v :=
  vertex?_rested { g with marked := [] } g.marked k

/-- A pass over a sound graph begins with all dirty vertices in its queue. -/
theorem Sound.underway (hg : g.Sound) (state : σ) : (g.beginPass state).Underway where
  wellFormed := WellFormed.rested (g := { g with marked := [] }) ⟨hg.place, hg.free, hg.free_nodup, hg.linked⟩ _
  cycles := CyclesKnown.rested (g := { g with marked := [] }) hg.cycles _
  marked := marked_rested { g with marked := [] } g.marked
  awake l hl := .inl (hg.noted l (isDirty_beginPass g state l ▸ hl))
  acyclic k hcircle := by
    obtain ⟨l, hkl, -⟩ := Relation.TransGen.head'_iff.1 hcircle
    exact hkl.source.2 (hg.noted k (isDirty_beginPass g state k ▸ hkl.source.1))

namespace Pass

variable {p p' : Pass σ} {moments : List (Pass σ × Slot)}

/-! ### Settling -/

/-- The slots whose vertices have been settled at some moments, one after the other. -/
def settlings (h : Handler σ) (limit : Nat) (moments : List (Pass σ × Slot)) : List Slot :=
  (moments.filter fun m => (look h limit m.1 m.2).settles).map (·.2)

theorem Leads.dirty_mono (hr : Leads h limit p moments p') (hu : Underway p)
    (hk : p'.graph.isDirty k = true) : p.graph.isDirty k = true := by
  induction hr with
  | stop => exact hk
  | @look p p' i rest moments hq hrest ih =>
    have hs := stepped_step (p := p.taken rest) hu.wellFormed hu.cycles h limit i
    exact ((hs.dirty k).1 (ih (hu.step hq h limit) hk)).1

/-- A pass settles exactly the vertices that it makes clean, each of them once. -/
theorem Leads.settlings_spec (hr : Leads h limit p moments p') (hu : Underway p) :
    (settlings h limit moments).Nodup ∧
      ∀ k, k ∈ settlings h limit moments ↔ p.graph.isDirty k = true ∧ ¬p'.graph.isDirty k = true := by
  induction hr with
  | stop =>
    refine ⟨.nil, fun k => ?_⟩
    simp [settlings]
  | @look p p' i rest moments hq hrest ih =>
    have hs := stepped_step (p := p.taken rest) hu.wellFormed hu.cycles h limit i
    have hl := looked_step (p := p.taken rest) hu.cycles h limit i
    obtain ⟨hnodup, hmem⟩ := ih (hu.step hq h limit)
    have hmono (k : Slot) : p'.graph.isDirty k = true → _ := hrest.dirty_mono (k := k) (hu.step hq h limit)
    by_cases hsettles : (Pass.look h limit (p.taken rest) i).settles = true
    · have hcons : settlings h limit ((p.taken rest, i) :: moments) = i :: settlings h limit moments := by
        simp [settlings, hsettles]
      have hi : p.graph.isDirty i = true := by
        refine hl.isDirty fun hc => ?_
        rw [hc] at hsettles
        cases hsettles
      have hclean : ¬(step h limit (p.taken rest) i).graph.isDirty i = true :=
        fun hc => ((hs.dirty i).1 hc).2 ⟨rfl, hsettles⟩
      rw [hcons]
      refine ⟨List.nodup_cons.2 ⟨fun hc => hclean ((hmem i).1 hc).1, hnodup⟩, fun k => ?_⟩
      rw [List.mem_cons, hmem, hs.dirty]
      constructor
      · rintro (rfl | ⟨hk, hk'⟩)
        · exact ⟨hi, fun hc => hclean (hmono k hc)⟩
        · exact ⟨hk.1, hk'⟩
      · rintro ⟨hk, hk'⟩
        by_cases hki : k = i
        · exact .inl hki
        · exact .inr ⟨⟨hk, fun hc => hki hc.1⟩, hk'⟩
    · have hcons : settlings h limit ((p.taken rest, i) :: moments) = settlings h limit moments := by
        simp [settlings, hsettles]
      rw [hcons]
      refine ⟨hnodup, fun k => ?_⟩
      rw [hmem, hs.dirty]
      constructor
      · exact fun hk => ⟨hk.1.1, hk.2⟩
      · exact fun hk => ⟨⟨hk.1, fun hc => hsettles hc.2⟩, hk.2⟩

theorem Runs.settlings_spec (hr : Runs h limit p moments p') (hu : Underway p) :
    (settlings h limit moments).Nodup ∧
      ∀ k, k ∈ settlings h limit moments ↔ p.graph.isDirty k = true ∧ ¬p'.graph.isDirty k = true :=
  hr.leads.settlings_spec hu

/-- The number of moments at which a slot is dealt with in a given way. -/
def occurrences (h : Handler σ) (limit : Nat) (look : Look) (moments : List (Pass σ × Slot)) : Nat :=
  moments.countP fun m => Pass.look h limit m.1 m.2 = look

/-- A vertex that is settled is calculated, is on a cycle or has had its dependencies replaced too often. -/
theorem length_settlings (h : Handler σ) (limit : Nat) (moments : List (Pass σ × Slot)) :
    (settlings h limit moments).length = occurrences h limit .calculated moments +
      occurrences h limit .cycle moments + occurrences h limit .exhausted moments := by
  induction moments with
  | nil => rfl
  | cons m moments ih =>
    have hm : (settlings h limit (m :: moments)).length =
        (settlings h limit moments).length + if (look h limit m.1 m.2).settles then 1 else 0 := by
      unfold settlings
      cases hs : (look h limit m.1 m.2).settles <;> simp [hs]
    rw [hm, ih]
    simp only [occurrences, List.countP_cons]
    cases look h limit m.1 m.2 <;> simp [Look.settles] <;> omega

/-- What a pass has done is counted. -/
theorem Leads.tally (hr : Leads h limit p moments p') (hu : Underway p) :
    p'.tally.calculated = p.tally.calculated + occurrences h limit .calculated moments ∧
      p'.tally.cycles = p.tally.cycles + occurrences h limit .cycle moments ∧
      p'.tally.truncated = p.tally.truncated := by
  induction hr with
  | stop => exact ⟨rfl, rfl, rfl⟩
  | @look p p' i rest moments hq hrest ih =>
    have hs := stepped_step (p := p.taken rest) hu.wellFormed hu.cycles h limit i
    obtain ⟨hcalc, hcyc, htrunc⟩ := ih (hu.step hq h limit)
    have hcalc' : (step h limit (p.taken rest) i).tally.calculated = p.tally.calculated + _ := hs.calculated
    have hcyc' : (step h limit (p.taken rest) i).tally.cycles = p.tally.cycles + _ := hs.failed
    refine ⟨?_, ?_, htrunc.trans hs.truncated⟩
    · rw [hcalc, hcalc', occurrences, occurrences, List.countP_cons]
      simp only [decide_eq_true_eq]
      omega
    · rw [hcyc, hcyc', occurrences, occurrences, List.countP_cons]
      simp only [decide_eq_true_eq]
      omega

theorem Runs.tally (hr : Runs h limit p moments p') (hu : Underway p) :
    p'.tally.calculated = p.tally.calculated + occurrences h limit .calculated moments ∧
      p'.tally.cycles = p.tally.cycles + occurrences h limit .cycle moments ∧
      p'.tally.truncated = p.tally.truncated :=
  hr.leads.tally hu

end Pass

/-- Dirty vertices are counted by any list that names each of them once. -/
theorem length_eq_dirtyCount {is : List Slot} (hnodup : is.Nodup)
    (hmem : ∀ k, k ∈ is ↔ g.isDirty k = true) : is.length = g.dirtyCount := by
  have hperm : is.Perm ((List.range g.slots.size).filter g.isDirty) := by
    refine (List.perm_ext_iff_of_nodup hnodup (List.nodup_range.filter _)).2 fun k => ?_
    rw [hmem, List.mem_filter, List.mem_range]
    constructor
    · intro hk
      obtain ⟨v, hv⟩ := live_of_isDirty hk
      exact ⟨lt_size_of_vertex? hv, hk⟩
    · exact And.right
  rw [hperm.length_eq, ← List.countP_eq_length_filter, dirtyCount, ← Array.countP_toList]
  have hlist : g.slots.toList = (List.range g.slots.size).map g.vertex? := by
    refine List.ext_getElem (by simp) fun k hk hk' => ?_
    have hlt : k < g.slots.size := by simpa using hk
    simp [vertex?, hlt]
  rw [hlist, List.countP_map]
  rfl

/-! ### Moments of a pass -/

namespace Pass

variable {p p' : Pass σ} {moments : List (Pass σ × Slot)} {m : Pass σ × Slot}

/-- What holds whenever a pass looks at a slot. -/
structure Moment (p q : Pass σ) : Prop where
  wellFormed : q.graph.WellFormed
  cycles : q.graph.CyclesKnown
  /-- Only vertices that have been dirty from the beginning are dirty. -/
  dirty : ∀ k, q.graph.isDirty k = true → p.graph.isDirty k = true
  /-- Vertices stay, and calculate what they did. -/
  vertex : ∀ k v, p.graph.vertex? k = some v →
    ∃ w, q.graph.vertex? k = some w ∧ w.position = v.position ∧ w.content = v.content

theorem Leads.moment (hr : Leads h limit p moments p') (hu : Underway p) (hm : m ∈ moments) :
    Moment p m.1 := by
  induction hr with
  | stop => cases hm
  | @look p p' i rest moments hq hrest ih =>
    rcases List.mem_cons.1 hm with rfl | hm
    · exact ⟨hu.wellFormed, hu.cycles, fun _ hk => hk, fun k v hv => ⟨v, hv, rfl, rfl⟩⟩
    · have hs := stepped_step (p := p.taken rest) hu.wellFormed hu.cycles h limit i
      have hmoment := ih (hu.step hq h limit) hm
      refine ⟨hmoment.wellFormed, hmoment.cycles, fun k hk => ((hs.dirty k).1 (hmoment.dirty k hk)).1,
        fun k v hv => ?_⟩
      obtain ⟨w, hw, hpos, hcontent⟩ := hs.vertex k v hv
      obtain ⟨u, hu', hpos', hcontent'⟩ := hmoment.vertex k w hw
      exact ⟨u, hu', hpos'.trans hpos, hcontent'.trans hcontent⟩

theorem Runs.moment (hr : Runs h limit p moments p') (hu : Underway p) (hm : m ∈ moments) : Moment p m.1 :=
  hr.leads.moment hu hm

/-- Calculations are asked for only when all inputs of the vertex are clean. -/
theorem Looked.inputs_clean {h : Handler σ} {look : Look} (hl : Looked h limit p i look p')
    (hlook : look = .calculated ∨ look = .exhausted ∨ look = .rewired) (hk : p.graph.Input k i) :
    ¬p.graph.isDirty k = true := by
  have hready {v : Vertex} (hv : p.Ready i v) : ¬p.graph.isDirty k = true :=
    hv.inputs k ((input_iff_of_vertex? hv.vertex).1 ((upToCycles_refreshCycles p.graph).input_iff.2 hk))
  cases hl with
  | idle => simp at hlook
  | waits => simp at hlook
  | cycle => simp at hlook
  | read hv => exact hready hv
  | value hv => exact hready hv
  | exhausted hv => exact hready hv
  | rewired hv => exact hready hv

end Pass

end Spreadsheet.Graph
