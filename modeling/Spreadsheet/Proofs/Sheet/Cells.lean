import Spreadsheet.Proofs.Formula.Stored
import Spreadsheet.Proofs.Graph.Chart
import Spreadsheet.Proofs.Store
import Spreadsheet.Sheet.Structure

/-!
Cells and vertices. The cells of an array formula stand together, the formula of a cell can be read, and
the vertex of the cell calculates what has been entered there.
-/

namespace Spreadsheet

/-! ### The cells of an area -/

namespace Area

variable {a : Area} {p q : Position}

/-- The cells of a bounded area are listed. -/
theorem mem_members (hbounded : a.isBounded = true) : q ∈ a.members ↔ a.contains q = true := by
  obtain ⟨⟨top, left, _, _, _⟩, ⟨bottom, right, _, _, _⟩⟩ := a
  cases top <;> cases left <;> cases bottom <;> cases right <;>
    simp [isBounded, Reference.isBounded] at hbounded
  rename_i top left bottom right
  obtain ⟨row, column⟩ := q
  simp only [members, cells, contains, axisContains, List.mem_flatMap, List.mem_map, Store.mem_span,
    Position.mk.injEq, Bool.and_eq_true, decide_eq_true_eq]
  constructor
  · rintro ⟨c, hc, r, hr, rfl, rfl⟩
    exact ⟨hr, hc⟩
  · rintro ⟨hr, hc⟩
    exact ⟨column, hc, row, hr, rfl, rfl⟩

/-- The first corner of an area lies in it. -/
theorem contains_topLeft (hordered : a.Ordered) (hp : a.topLeft? = some p) : a.contains p = true := by
  obtain ⟨⟨top, left, _, _, _⟩, ⟨bottom, right, _, _, _⟩⟩ := a
  have hrows := hordered.rows
  have hcolumns := hordered.columns
  cases top <;> cases left <;> simp only [topLeft?, Reference.position?, reduceCtorEq, Option.some.injEq] at hp
  subst hp
  cases bottom <;> cases right <;> simp_all [AxisOrdered, contains, axisContains]

theorem exists_topLeft? (hbounded : a.isBounded = true) : ∃ p, a.topLeft? = some p := by
  obtain ⟨⟨top, left, _, _, _⟩, last⟩ := a
  cases top <;> cases left <;> simp [isBounded, Reference.isBounded] at hbounded
  exact ⟨_, rfl⟩

theorem isBounded_of_mem_members (hq : q ∈ a.members) : a.isBounded = true := by
  obtain ⟨⟨top, left, _, _, _⟩, ⟨bottom, right, _, _, _⟩⟩ := a
  cases top <;> cases left <;> cases bottom <;> cases right <;> simp [members, cells] at hq
  rfl

end Area

namespace Vertex.Content

/-- The formula. -/
def expression? : Content → Option Expression
  | .value => none
  | .formula e => some e
  | .array e _ => some e

end Vertex.Content

theorem Vertex.expression?_eq (v : Vertex) : v.expression? = v.content.expression? := by
  unfold Vertex.expression?
  cases v.content <;> rfl

namespace Store

/-- The cells of array formulas stand together, and the formula stands in the first of them. -/
structure Arranged (s : Store) : Prop where
  area : ∀ p c a, s.cell? p = some c → c.area = some a →
    a.isBounded = true ∧ a.Ordered ∧ a.contains p = true
  whole : ∀ p c a q, s.cell? p = some c → c.area = some a → a.contains q = true →
    ∃ c', s.cell? q = some c' ∧ c'.area = some a
  head : ∀ p c a, s.cell? p = some c → c.area = some a → (c.isFormula = true ↔ a.topLeft? = some p)
  /-- Nothing has been entered into the other cells. -/
  bare : ∀ p c a, s.cell? p = some c → c.area = some a → a.topLeft? ≠ some p → c.content = .value .undefined

end Store

namespace Environment

/-- What the vertex of a cell is to calculate. -/
def content (env : Environment) (p : Position) (c : Cell) : Vertex.Content :=
  match c.formula? with
  | none => .value
  | some text =>
    match env.parse text with
    | .error _ => .value
    | .ok e =>
      match c.area.filter (·.topLeft? = some p) with
      | some a => .array e a
      | none => .formula e

/-- The formulas of a store can be read as they have been entered. -/
def Readable (env : Environment) (s : Store) : Prop :=
  ∀ p c text, s.cell? p = some c → c.content = .formula text → ∃ e, env.parse text = .ok e

variable {env : Environment} {e : Expression} {c : Cell} {p : Position} {text : String}

/-- A formula that has been entered is the one that is read from its cell. -/
theorem parse_formula? {text' : String} (hparse : env.parse text = .ok e) (hc : c.content = .formula text)
    (hf : c.formula? = some text') : env.parse text' = .ok e := by
  have hvalid : (Formula.parse env.locale text).error = none := by
    unfold Environment.parse Formula.Parsed.toExcept at hparse
    cases herror : (Formula.parse env.locale text).error with
    | none => rfl
    | some err => simp [herror] at hparse
  rw [← hparse]
  unfold Environment.parse
  rw [Formula.parse_congr (Formula.body_formula hc hf hvalid)]

theorem content_of_formula? (hf : c.formula? = some text) : ∃ entered, c.content = .formula entered := by
  unfold Cell.formula? at hf
  cases hc : c.content with
  | value v =>
    rw [hc] at hf
    cases hf
  | formula entered => exact ⟨entered, rfl⟩

theorem Readable.formula? {s : Store} (h : env.Readable s) (hc : s.cell? p = some c) (hf : c.formula? = some text) :
    ∃ e, env.parse text = .ok e := by
  obtain ⟨entered, hcontent⟩ := content_of_formula? hf
  obtain ⟨e, hparse⟩ := h p c entered hc hcontent
  exact ⟨e, parse_formula? hparse hcontent hf⟩

end Environment

/-- What the vertex of a cell calculates; a cell without a vertex calculates nothing. -/
def Graph.contentAt (g : Graph) (p : Position) : Vertex.Content := ((g.profileAt? p).map Profile.content).getD .value

namespace Sheet

variable {s s' : Sheet} {p q : Position} {c : Cell} {a : Area} {e : Expression} {f : Profile}

/-- What has been entered into a cell. -/
def contentAt (s : Sheet) (p : Position) : Vertex.Content := ((s.store.cell? p).map (s.content p)).getD .value

/-- The vertex of a cell calculates what has been entered there. -/
def Tied (s : Sheet) (p : Position) : Prop := s.graph.contentAt p = s.contentAt p

theorem contentAt_of_cell? (hc : s.store.cell? p = some c) : s.contentAt p = s.content p c := by
  rw [contentAt, hc, Option.map_some, Option.getD_some]

theorem Tied.content (h : s.Tied p) (hf : s.graph.profileAt? p = some f) : f.content = s.contentAt p := by
  rw [← h, Graph.contentAt, hf, Option.map_some, Option.getD_some]

theorem formula?_isSome (c : Cell) : c.formula?.isSome = c.isFormula := by
  unfold Cell.formula? Cell.isFormula
  cases c.content <;> rfl

/-- Where the vertex of a cell has a formula, the formula stands in the cell. -/
theorem cell_of_expression (he : (s.contentAt p).expression? = some e) :
    ∃ c text, s.store.cell? p = some c ∧ c.isFormula = true ∧ c.formula? = some text ∧ s.parse text = .ok e := by
  unfold contentAt at he
  cases hc : s.store.cell? p with
  | none =>
    rw [hc] at he
    cases he
  | some c =>
    rw [hc, Option.map_some, Option.getD_some, Environment.content] at he
    cases hf : c.formula? with
    | none =>
      rw [hf] at he
      cases he
    | some text =>
      simp only [hf] at he
      cases hparse : s.parse text with
      | error err =>
        rw [hparse] at he
        cases he
      | ok e' =>
        simp only [hparse] at he
        refine ⟨c, text, rfl, ?_, hf, ?_⟩
        · rw [← formula?_isSome, hf]
          rfl
        · rw [hparse]
          split at he <;> exact congrArg Except.ok (Option.some.inj he)

/-- Where a cell has a formula that can be read, its vertex has it. -/
theorem content_of_formula {text : String} (hf : c.formula? = some text) (hparse : s.parse text = .ok e) :
    s.content p c =
      match c.area.filter (·.topLeft? = some p) with
      | some a => .array e a
      | none => .formula e := by
  simp only [Environment.content, hf, hparse]

theorem cell_of_array (ha : s.contentAt p = .array e a) :
    ∃ c, s.store.cell? p = some c ∧ c.isFormula = true ∧ c.area = some a ∧ a.topLeft? = some p := by
  obtain ⟨c, text, hc, hformula, hf, hparse⟩ := cell_of_expression (s := s) (p := p) (e := e) (by rw [ha]; rfl)
  refine ⟨c, hc, hformula, ?_⟩
  rw [contentAt_of_cell? hc, content_of_formula hf hparse] at ha
  cases hfilter : c.area.filter (·.topLeft? = some p) with
  | none =>
    rw [hfilter] at ha
    cases ha
  | some a' =>
    rw [hfilter] at ha
    cases ha
    obtain ⟨harea, htop⟩ := Option.filter_eq_some_iff.1 hfilter
    exact ⟨harea, by simpa using htop⟩

theorem cell_of_formula (hcontent : s.contentAt p = .formula e) (harranged : s.store.Arranged) :
    ∃ c, s.store.cell? p = some c ∧ c.isFormula = true ∧ c.area = none := by
  obtain ⟨c, text, hc, hformula, hf, hparse⟩ := cell_of_expression (s := s) (p := p) (e := e) (by rw [hcontent]; rfl)
  refine ⟨c, hc, hformula, ?_⟩
  cases harea : c.area with
  | none => rfl
  | some a =>
    have htop := (harranged.head p c a hc harea).1 hformula
    rw [contentAt_of_cell? hc, content_of_formula hf hparse, harea, Option.filter_some_pos (by simpa using htop)]
      at hcontent
    cases hcontent

end Sheet

end Spreadsheet
