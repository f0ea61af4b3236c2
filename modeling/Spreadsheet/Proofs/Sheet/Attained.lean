import Spreadsheet.Proofs.Sheet.Current
import Spreadsheet.Sheet.Simulation

/-!
What sheets are at all times. Whatever has been done to a sheet, and wherever passes have been cut short, its graph
is what its cells call for, and its array formulas stand in their areas.
-/

namespace Spreadsheet.Sheet

open Spreadsheet.Graph

variable {s s' : Sheet} {p q : Position} {a : Area} {uncut : Prop}

/-! ### Simulations -/

/-- The sheet before the preparing pass of a simulation, with all formulas marked. -/
def preparing (s : Sheet) (iterations : Nat) : Sheet :=
  { s with
    model := { (s.model.start iterations).reseed s.settings.seed with phase := .preparing }
    graph := s.graph.markFormulas }

/-! ### Sheets that can be attained -/

/-- The sheets that come about from empty ones. Where `uncut` holds, no pass has been cut short, the functions
are the usual ones and named areas are proper. -/
inductive Attained (uncut : Prop) : Sheet → Prop
  | empty (settings : Settings) (library : Library) (clock : Clock) (hlibrary : uncut → library = .standard) :
    Attained uncut (.empty settings library clock)
  | setValue {s s' : Sheet} {p : Position} {v : Value} (h : Attained uncut s) (hs : s.setValue p v = .ok s') :
    Attained uncut s'
  | setFormula {s s' : Sheet} {p : Position} {text : String} (h : Attained uncut s)
    (hs : s.setFormula p text = .ok s') : Attained uncut s'
  | setInput {s s' : Sheet} {p : Position} {text : String} (h : Attained uncut s)
    (hs : s.setInput p text = .ok s') : Attained uncut s'
  | setArray {s s' : Sheet} {a b : Reference} {text : String} (h : Attained uncut s)
    (hs : s.setArray (.between a b) text = .ok s') : Attained uncut s'
  | clear {s s' : Sheet} {p : Position} (h : Attained uncut s) (hs : s.clear p = .ok s') : Attained uncut s'
  | defineName {s : Sheet} (name : String) (a : Area) (h : Attained uncut s) (ha : uncut → a.Ordered) :
    Attained uncut (s.defineName name a)
  | removeName {s s' : Sheet} {name : String} (h : Attained uncut s) (hs : s.removeName? name = some s') :
    Attained uncut s'
  | insert {s s' : Sheet} {x : Axis} {start count : Nat} (h : Attained uncut s)
    (hs : s.insert x start count = .ok s') : Attained uncut s'
  | delete {s s' : Sheet} {x : Axis} {start count : Nat} (h : Attained uncut s)
    (hs : s.delete x start count = .ok s') : Attained uncut s'
  | rebuild {s : Sheet} (h : Attained uncut s) : Attained uncut s.rebuild
  | recalculate {s : Sheet} (h : Attained uncut s) (hcut : uncut → s.recalculate.1.truncated = false) :
    Attained uncut s.recalculate.2
  | startSimulation {s : Sheet} (iterations : Nat) (h : Attained uncut s)
    (hcut : uncut → (s.preparing iterations).recalculate.1.truncated = false) :
    Attained uncut (s.startSimulation iterations).2
  | runTrial {s s' : Sheet} {tally : Tally} (h : Attained uncut s) (hs : s.runTrial = .ok (tally, s'))
    (hcut : uncut → tally.truncated = false) : Attained uncut s'
  | endSimulation {s s' : Sheet} {samples : List Float} (h : Attained uncut s)
    (hs : s.endSimulation = .ok (samples, s')) : Attained uncut s'
  | loadSamples {s s' : Sheet} {data : List Float} (h : Attained uncut s) (hs : s.loadSamples data = .ok s') :
    Attained uncut s'
  /-- Time passes, and random numbers are drawn when formulas are tried out or cells are drawn or clicked. -/
  | elapse {s : Sheet} (clock : Clock) (model : Simulation.Model) (h : Attained uncut s) :
    Attained uncut { s with clock, model }

theorem Reached.attained (h : s.Reached) : s.Attained uncut := by
  induction h with
  | empty settings clock => exact .empty settings .standard clock fun _ => rfl
  | setValue _ hs ih => exact ih.setValue hs
  | setFormula _ hs ih => exact ih.setFormula hs
  | setInput _ hs ih => exact ih.setInput hs
  | setArray _ hs ih => exact ih.setArray hs
  | clear _ hs ih => exact ih.clear hs
  | defineName name a b _ ih => exact ih.defineName name (.between a b) fun _ => Area.ordered_between a b
  | removeName _ hs ih => exact ih.removeName hs
  | insert _ hs ih => exact ih.insert hs
  | delete _ hs ih => exact ih.delete hs
  | recalculate _ hcut ih => exact ih.recalculate fun _ => hcut

namespace Kept

/-- What cells and vertices are to each other does not depend on the time or on random numbers. -/
theorem elapse (h : s.Kept uncut) (clock : Clock) (model : Simulation.Model) :
    ({ s with clock, model } : Sheet).Kept uncut := by
  have hfaithful : ({ s with clock, model } : Sheet).Faithful :=
    have hs := h.faithful
    ⟨hs.wellFormed, hs.wired, hs.arrayed, hs.exact, hs.informed, hs.straight, hs.tied, hs.arranged, hs.readable⟩
  refine ⟨hfaithful, h.firm, fun hu => ?_⟩
  have hs := h.coherent hu
  exact ⟨⟨hfaithful, hs.names, hs.library⟩, hs.orderly, fun p f hf hclean he =>
    (hs.settled p f hf hclean he).timed clock⟩

theorem amends_markFormulas (h : s.Kept uncut) : Amends uncut s { s with graph := s.graph.markFormulas } := by
  have hmarks : Marks s.graph s.graph.markFormulas := marks_markEach s.graph _
  have hedit : Edited uncut (fun _ => False) s { s with graph := s.graph.markFormulas } :=
    ⟨rfl, h.firm.marks hmarks, fun hu => (h.orderly hu).marks hmarks ((h.orderly hu).closed.markEach h.firm.linked _),
      hmarks.reworked h.firm.toWellFormed _, fun _ _ => rfl⟩
  exact hedit.amends_of_none

theorem markFormulas (h : s.Kept uncut) : ({ s with graph := s.graph.markFormulas } : Sheet).Kept uncut :=
  h.amends_markFormulas.kept h

theorem startSimulation (h : s.Kept uncut) (iterations : Nat)
    (hcut : uncut → (s.preparing iterations).recalculate.1.truncated = false) :
    (s.startSimulation iterations).2.Kept uncut := by
  have hpass : (s.preparing iterations).recalculate.2.Kept uncut :=
    (h.markFormulas.elapse s.clock (s.preparing iterations).model).recalculate hcut
  unfold Sheet.startSimulation
  simp only
  split
  · exact hpass.elapse _ _
  · exact hpass.elapse _ _

theorem runTrial (h : s.Kept uncut) {tally : Tally} (hs : s.runTrial = .ok (tally, s'))
    (hcut : uncut → tally.truncated = false) : s'.Kept uncut := by
  unfold Sheet.runTrial at hs
  split at hs
  · cases hs
    exact (h.recalculate hcut).elapse _ _
  · cases hs

theorem endSimulation (h : s.Kept uncut) {samples : List Float} (hs : s.endSimulation = .ok (samples, s')) :
    s'.Kept uncut := by
  unfold Sheet.endSimulation at hs
  split at hs
  · cases hs
    exact h.markFormulas.elapse _ _
  · cases hs

theorem loadSamples (h : s.Kept uncut) {data : List Float} (hs : s.loadSamples data = .ok s') : s'.Kept uncut := by
  unfold Sheet.loadSamples at hs
  split at hs
  · cases hs
    exact h.markFormulas.elapse _ _
  · cases hs

end Kept

/-- Sheets are faithful at all times, and coherent if no pass has been cut short. -/
theorem Attained.kept (h : s.Attained uncut) : s.Kept uncut := by
  induction h with
  | empty settings library clock hlibrary => exact kept_empty settings clock hlibrary
  | setValue _ hs ih => exact ih.setValue hs
  | setFormula _ hs ih => exact ih.setFormula hs
  | setInput _ hs ih => exact ih.setInput hs
  | setArray _ hs ih => exact ih.setArray (Area.ordered_between _ _) hs
  | clear _ hs ih => exact ih.clear hs
  | defineName name a _ ha ih => exact ih.defineName name ha
  | removeName _ hs ih => exact ih.removeName? hs
  | insert _ hs ih => exact ih.insert hs
  | delete _ hs ih => exact ih.delete hs
  | rebuild _ ih =>
    exact kept_rebuild ih.faithful.arranged ih.faithful.readable fun hu =>
      ⟨(ih.coherent hu).library, (ih.coherent hu).names⟩
  | recalculate _ hcut ih => exact ih.recalculate hcut
  | startSimulation iterations _ hcut ih => exact ih.startSimulation iterations hcut
  | runTrial _ hs hcut ih => exact ih.runTrial hs hcut
  | endSimulation _ hs ih => exact ih.endSimulation hs
  | loadSamples _ hs ih => exact ih.loadSamples hs
  | elapse clock model _ ih => exact ih.elapse clock model

/-! ### The graph of a sheet -/

/-- The graph of a sheet is what its cells call for. -/
structure Mirrored (s : Sheet) : Prop where
  /-- The cells that hold formulas are the cells of the vertices with formulas. -/
  formula : ∀ p, (∃ c, s.store.cell? p = some c ∧ c.isFormula = true) ↔
    ∃ i v, s.graph.vertex? i = some v ∧ v.position = p ∧ v.expression?.isSome = true
  /-- The formula of a vertex can be read from the text in its cell, both as it has been entered and without the
  sign in front. -/
  expression : ∀ i v e, s.graph.vertex? i = some v → v.expression? = some e →
    ∃ c text body, s.store.cell? v.position = some c ∧ c.content = .formula text ∧ s.parse text = .ok e ∧
      c.formula? = some body ∧ s.parse body = .ok e
  /-- Vertices are known to read what their formulas mention. -/
  dependencies : ∀ i v e, s.graph.vertex? i = some v → v.expression? = some e →
    Dependencies.Within (s.dependencies e) v.dependencies
  /-- Vertices have edges from what they read, and the members of an array from the first of them. -/
  edge : ∀ i j u v, s.graph.vertex? i = some u → s.graph.vertex? j = some v →
    (j ∈ u.dependents ↔ u.position ∈ v.dependencies.cells ∨
      (∃ a ∈ v.dependencies.areas, a.contains u.position = true) ∨
      ∃ a, u.area? = some a ∧ a.contains v.position = true ∧ v.position ≠ u.position)
  /-- Single cells that are read have vertices. -/
  cell : ∀ i v, s.graph.vertex? i = some v → ∀ q ∈ v.dependencies.cells, ∃ j w,
    s.graph.vertex? j = some w ∧ w.position = q

namespace Faithful

variable {i : Slot} {v : Vertex} {e : Expression}

theorem content_vertex (h : s.Faithful) (hv : s.graph.vertex? i = some v) : v.content = s.contentAt v.position := by
  rw [← h.tied, contentAt_of_profileAt? (h.wellFormed.profileAt?_position hv)]
  rfl

/-- What has been entered into a cell is calculated by its vertex. -/
theorem exists_vertex_of_content (h : s.Faithful) (he : (s.contentAt p).expression? = some e) :
    ∃ i v, s.graph.vertex? i = some v ∧ v.position = p ∧ v.content = s.contentAt p := by
  cases hf : s.graph.profileAt? p with
  | none =>
    rw [← h.tied, Graph.contentAt, hf] at he
    cases he
  | some f =>
    obtain ⟨i, v, -, hv, rfl, -⟩ := h.wellFormed.exists_vertex hf
    exact ⟨i, v, hv, rfl, h.content_vertex hv⟩

/-- The formula that stands in a cell. -/
theorem exists_expression (h : s.Faithful) {c : Cell} (hc : s.store.cell? p = some c) (hformula : c.isFormula = true) :
    ∃ e, (s.contentAt p).expression? = some e := by
  obtain ⟨text, hf⟩ := Option.isSome_iff_exists.1 ((formula?_isSome c).trans hformula)
  obtain ⟨e, hparse⟩ := h.readable.formula? hc hf
  refine ⟨e, ?_⟩
  rw [contentAt_of_cell? hc, content_of_formula hf hparse]
  cases c.area.filter (·.topLeft? = some p) <;> rfl

/-- The cells of the array formula of a vertex. -/
theorem mem_members_iff (h : s.Faithful) (hv : s.graph.vertex? i = some v) :
    q ∈ (s.graph.contentAt v.position).members ↔ ∃ a, v.area? = some a ∧ a.contains q = true := by
  have hcontent := h.content_vertex hv
  rw [h.tied, ← hcontent, Vertex.area?]
  cases hkind : v.content with
  | value => simp [Vertex.Content.members]
  | formula e => simp [Vertex.Content.members]
  | array e a =>
    obtain ⟨c, hc, -, ha, -⟩ := cell_of_array (hcontent.symm.trans hkind)
    simp [Vertex.Content.members, Area.mem_members (h.arranged.area _ c a hc ha).1]

theorem edge_iff (h : s.Faithful) {j : Slot} {u : Vertex} (hu : s.graph.vertex? i = some u)
    (hv : s.graph.vertex? j = some v) : j ∈ u.dependents ↔ v.dependencies.Mentions u.position ∨
      ∃ a, u.area? = some a ∧ a.contains v.position = true ∧ v.position ≠ u.position := by
  have hedge : j ∈ u.dependents ↔ s.graph.Arrow u.position v.position := by
    rw [arrow_iff (h.wellFormed.slot?_position hu) (h.wellFormed.slot?_position hv)]
    constructor
    · exact fun hj => ⟨u, hu, hj⟩
    · rintro ⟨u', hu', hj⟩
      rw [hu] at hu'
      cases hu'
      exact hj
  have hf := h.wellFormed.profileAt?_position hv
  rw [hedge]
  constructor
  · intro ha
    rcases h.exact _ _ ha with ⟨f, hf', hm⟩ | ⟨hmem, hne⟩
    · rw [hf] at hf'
      cases hf'
      exact .inl hm
    · obtain ⟨a, ha, hin⟩ := (h.mem_members_iff hu).1 hmem
      exact .inr ⟨a, ha, hin, hne⟩
  · rintro (hm | ⟨a, ha, hin, hne⟩)
    · refine h.wired.arrow h.wellFormed hf hm ?_
      rw [h.wellFormed.profileAt?_position hu]
      exact Option.some_ne_none _
    · exact h.arrayed _ _ ((h.mem_members_iff hu).2 ⟨a, ha, hin⟩) hne

end Faithful

/-- Whatever has been done to a sheet, its graph is what its cells call for. -/
theorem Attained.mirrored (h : s.Attained uncut) : s.Mirrored := by
  have hs := h.kept.faithful
  refine ⟨fun p => ⟨?_, ?_⟩, fun i v e hv he => ?_, fun i v e hv he => ?_, fun i j u v hu hv => ?_,
    fun i v hv q hq => ?_⟩
  · rintro ⟨c, hc, hformula⟩
    obtain ⟨e, he⟩ := hs.exists_expression hc hformula
    obtain ⟨i, v, hv, hpos, hcontent⟩ := hs.exists_vertex_of_content he
    refine ⟨i, v, hv, hpos, ?_⟩
    rw [Vertex.expression?_eq, hcontent, he]
    rfl
  · rintro ⟨i, v, hv, rfl, hsome⟩
    obtain ⟨e, he⟩ := Option.isSome_iff_exists.1 hsome
    rw [Vertex.expression?_eq, hs.content_vertex hv] at he
    obtain ⟨c, text, hc, hformula, -⟩ := cell_of_expression he
    exact ⟨c, hc, hformula⟩
  · rw [Vertex.expression?_eq, hs.content_vertex hv] at he
    obtain ⟨c, body, hc, -, hbody, hparse⟩ := cell_of_expression he
    obtain ⟨text, htext⟩ := Environment.content_of_formula? hbody
    obtain ⟨e', hparse'⟩ := hs.readable _ c text hc htext
    have hsame := (Environment.parse_formula? hparse' htext hbody).symm.trans hparse
    cases hsame
    exact ⟨c, text, body, hc, htext, hparse', hbody, hparse⟩
  · exact hs.informed _ _ e (hs.wellFormed.profileAt?_position hv) ((Vertex.expression?_eq v).symm.trans he)
  · rw [hs.edge_iff hu hv, Dependencies.Mentions, or_assoc]
  · rw [← reads_of_vertex? hv] at hq
    obtain ⟨j, hj⟩ := hs.wired.cells i q hq
    obtain ⟨w, hw, hpos⟩ := hs.wellFormed.vertex_of_slot? hj
    exact ⟨j, w, hw, hpos⟩

/-! ### Array formulas -/

/-- An array formula stands in its area: the formula belongs to the first cell, whose vertex is `v`. -/
structure Entire (s : Sheet) (a : Area) (head : Position) (i : Slot) (v : Vertex) : Prop where
  bounded : a.isBounded = true
  /-- All cells of the area belong to the array formula. -/
  whole : ∀ q, a.contains q = true → s.arrayAt? q = some a
  /-- It shares no cell with another array formula. -/
  apart : ∀ q b, s.arrayAt? q = some b → b ≠ a → ∀ x, ¬(a.contains x = true ∧ b.contains x = true)
  first : a.topLeft? = some head ∧ a.contains head = true
  /-- The formula stands in the first cell. -/
  formula : ∀ q c, a.contains q = true → s.store.cell? q = some c → (c.isFormula = true ↔ q = head)
  /-- Nothing has been entered into the other cells. -/
  bare : ∀ q c, a.contains q = true → s.store.cell? q = some c → q ≠ head → c.content = .value .undefined
  vertex : s.graph.vertex? i = some v ∧ v.position = head
  /-- Only the vertex of the first cell calculates for the area. -/
  area : ∀ j w, s.graph.vertex? j = some w → (w.area? = some a ↔ j = i)
  /-- All other cells have vertices that read it. -/
  edge : ∀ q, a.contains q = true → q ≠ head →
    ∃ j w, s.graph.vertex? j = some w ∧ w.position = q ∧ j ∈ v.dependents

theorem Faithful.contentAt_head (h : s.Faithful) {c : Cell} (hc : s.store.cell? p = some c) (ha : c.area = some a)
    (htop : a.topLeft? = some p) : ∃ e, s.contentAt p = .array e a := by
  obtain ⟨e, he⟩ := h.exists_expression hc ((h.arranged.head p c a hc ha).2 htop)
  cases hcontent : s.contentAt p with
  | value =>
    rw [hcontent] at he
    cases he
  | formula e =>
    obtain ⟨c', hc', -, hnone⟩ := cell_of_formula hcontent h.arranged
    rw [hc] at hc'
    cases hc'
    rw [ha] at hnone
    cases hnone
  | array e b =>
    obtain ⟨c', hc', -, hb, -⟩ := cell_of_array hcontent
    rw [hc] at hc'
    cases hc'
    rw [ha] at hb
    cases hb
    exact ⟨e, rfl⟩

/-- The cell of a vertex that calculates for the area of an array formula is the first one of the area. -/
theorem Faithful.exists_cell_of_area? (h : s.Faithful) {i : Slot} {v : Vertex} (hv : s.graph.vertex? i = some v)
    (ha : v.area? = some a) :
    ∃ c, s.store.cell? v.position = some c ∧ c.area = some a ∧ a.topLeft? = some v.position := by
  rw [Vertex.area?] at ha
  split at ha
  · rename_i hcontent
    cases ha
    rw [h.content_vertex hv] at hcontent
    obtain ⟨c, hc, -, harea, htop⟩ := cell_of_array hcontent
    exact ⟨c, hc, harea, htop⟩
  · cases ha

theorem Faithful.topLeft?_of_area? (h : s.Faithful) {i : Slot} {v : Vertex} (hv : s.graph.vertex? i = some v)
    (ha : v.area? = some a) : a.topLeft? = some v.position := by
  obtain ⟨-, -, -, htop⟩ := h.exists_cell_of_area? hv ha
  exact htop

/-- Whatever has been done to a sheet, array formulas stand in their areas. -/
theorem Attained.entire (h : s.Attained uncut) (ha : s.arrayAt? p = some a) :
    a.contains p = true ∧ ∃ head i v, s.Entire a head i v := by
  have hs := h.kept.faithful
  obtain ⟨c, hc, harea⟩ := arrayAt?_eq_some_iff.1 ha
  obtain ⟨hbounded, hordered, hcontains⟩ := hs.arranged.area p c a hc harea
  have hwhole (q : Position) (hq : a.contains q = true) : s.arrayAt? q = some a :=
    arrayAt?_eq_some_iff.2 (hs.arranged.whole p c a q hc harea hq)
  have hcell (q : Position) (d : Cell) (hq : a.contains q = true) (hd : s.store.cell? q = some d) :
      d.area = some a := by
    obtain ⟨d', hd', hd_area⟩ := arrayAt?_eq_some_iff.1 (hwhole q hq)
    rw [hd] at hd'
    cases hd'
    exact hd_area
  obtain ⟨head, htop⟩ := Area.exists_topLeft? hbounded
  have hhead := Area.contains_topLeft hordered htop
  obtain ⟨d, hd, hd_area⟩ := arrayAt?_eq_some_iff.1 (hwhole head hhead)
  obtain ⟨e, hcontent⟩ := hs.contentAt_head hd hd_area htop
  obtain ⟨i, v, hv, hpos, hv_content⟩ := hs.exists_vertex_of_content (p := head) (e := e) (by rw [hcontent]; rfl)
  have hv_area : v.area? = some a := by rw [Vertex.area?, hv_content, hcontent]
  refine ⟨hcontains, head, i, v, hbounded, hwhole, fun q b hb hne x hx => hne ?_, ⟨htop, hhead⟩, fun q d hq hd => ?_,
    fun q d hq hd hne => ?_, ⟨hv, hpos⟩, fun j w hw => ⟨fun hw_area => ?_, ?_⟩, fun q hq hne => ?_⟩
  · obtain ⟨c', hc', hb⟩ := arrayAt?_eq_some_iff.1 hb
    obtain ⟨d', hd', hd_area'⟩ := hs.arranged.whole q c' b x hc' hb hx.2
    have hsame := hcell x d' hx.1 hd'
    rw [hd_area'] at hsame
    exact Option.some.inj hsame
  · rw [hs.arranged.head q d a hd (hcell q d hq hd), htop, Option.some.injEq, eq_comm]
  · refine hs.arranged.bare q d a hd (hcell q d hq hd) fun htop' => hne ?_
    rw [htop] at htop'
    exact (Option.some.inj htop').symm
  · have htop' := hs.topLeft?_of_area? hw hw_area
    rw [htop, Option.some.injEq] at htop'
    have hslot := hs.wellFormed.slot?_position hw
    rw [← htop', ← hpos, hs.wellFormed.slot?_position hv] at hslot
    exact (Option.some.inj hslot).symm
  · rintro rfl
    rw [hv] at hw
    cases hw
    exact hv_area
  · have hmem : q ∈ (s.graph.contentAt v.position).members := (hs.mem_members_iff hv).2 ⟨a, hv_area, hq⟩
    obtain ⟨k, j, hk, hj, he⟩ := hs.arrayed v.position q hmem (hpos ▸ hne)
    rw [hs.wellFormed.slot?_position hv] at hk
    cases hk
    obtain ⟨w, hw, hw_pos⟩ := hs.wellFormed.vertex_of_slot? hj
    obtain ⟨v', hv', hj⟩ := he
    rw [hv] at hv'
    cases hv'
    exact ⟨j, w, hw, hw_pos, hj⟩

/-! ### An array over two cells -/

theorem attained_looping : (looping .standard).Attained True := .setArray reached_fed.attained (setArray_looping _)

theorem arrayAt?_looping (library : Library) : (looping library).arrayAt? ⟨1, 0⟩ = some pair := by
  cbv

/-- The graph of a sheet with an array formula and a cell that reads it is what its cells call for. -/
theorem mirrored_looping : (looping .standard).Attained True ∧ (looping .standard).Mirrored :=
  ⟨attained_looping, attained_looping.mirrored⟩

/-- The array formula stands in its area. -/
theorem entire_looping : (looping .standard).Attained True ∧ (looping .standard).arrayAt? ⟨1, 0⟩ = some pair ∧
    pair.contains ⟨1, 0⟩ = true ∧ ∃ head i v, (looping .standard).Entire pair head i v :=
  ⟨attained_looping, arrayAt?_looping _, attained_looping.entire (arrayAt?_looping _)⟩

end Spreadsheet.Sheet
