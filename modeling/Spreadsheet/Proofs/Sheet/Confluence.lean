import Spreadsheet.Proofs.Sheet.Determined

/-!
The order of edits. Values and plain formulas are entered into cells, and cells are emptied, in any order and
with passes between the edits. After a final pass the sheet shows the same, except in cells that depend on the
reader of a cell of an array that is on a cycle.
-/

namespace Spreadsheet

/-- An edit of a single cell. -/
inductive Edit where
  /-- Enters a value. -/
  | value (p : Position) (v : Value)
  /-- Enters a formula. -/
  | formula (p : Position) (text : String)
  /-- Empties the cell. -/
  | clear (p : Position)

namespace Edit

/-- The cell that is edited. -/
def position : Edit → Position
  | .value p _ => p
  | .formula p _ => p
  | .clear p => p

/-- Makes the edit. -/
def apply (s : Sheet) : Edit → Except SheetError Sheet
  | .value p v => s.setValue p v
  | .formula p text => s.setFormula p text
  | .clear p => s.clear p

/-- The sheet after the edit; one that is refused changes nothing. -/
def run (edit : Edit) (s : Sheet) : Sheet :=
  match edit.apply s with
  | .ok s' => s'
  | .error _ => s

/-- What has been entered into a cell after the edit. -/
def enter (env : Environment) (c : Option Cell) : Edit → Option Cell
  | .value _ v => some ((c.getD {}).setValue v)
  | .formula _ text =>
    match env.parse text with
    | .ok _ => some ((c.getD {}).setFormula text)
    | .error _ => c
  | .clear _ => c.map Cell.reset

/-- An edit that enters no formula or a plain one. -/
def Plain (env : Environment) : Edit → Prop
  | .formula _ text => ∀ e, env.parse text = .ok e → env.Plain e
  | _ => True

end Edit

/-- The cell at a position without its result. -/
def Store.entered? (store : Store) (q : Position) : Option Cell := (store.cell? q).map Cell.flush

namespace Sheet

variable {s s' s₁ s₂ : Sheet} {p q : Position} {e : Expression} {edit : Edit} {es es' : List Edit} {uncut : Prop}

/-- All formulas of a sheet are plain. -/
def PlainFormulas (s : Sheet) : Prop := ∀ p e, (s.contentAt p).expression? = some e → s.Plain e

/-! ### One edit -/

theorem contentAt_of_entered? (henv : s'.toEnvironment = s.toEnvironment)
    (hq : s'.store.entered? q = s.store.entered? q) : s'.contentAt q = s.contentAt q :=
  contentAt_of_flush henv hq

theorem arrayAt?_eq (s : Sheet) (q : Position) : s.arrayAt? q = (s.store.entered? q).bind Cell.area := by
  rw [arrayAt?, Store.entered?]
  cases s.store.cell? q <;> rfl

section Outside

variable (houtside : s.arrayAt? p = none)
include houtside

theorem run_value (v : Value) : (Edit.value p v).run s = s.vacate p (s.store.setValue p v) := by
  simp only [Edit.run, Edit.apply, setValue, detach, houtside]
  rfl

theorem run_formula {text : String} (hparse : s.parse text = .ok e) :
    (Edit.formula p text).run s = { s with store := s.store.setFormula p text }.install p (.formula e) e := by
  simp only [Edit.run, Edit.apply, setFormula, hparse, detach, houtside]
  rfl

theorem run_clear : (Edit.clear p).run s = s.erase p := by
  simp only [Edit.run, Edit.apply, clear, houtside]

end Outside

/-- Formulas that cannot be read are refused. -/
theorem run_formula_error {text : String} {err : SheetError} (hparse : s.parse text = .error err) :
    (Edit.formula p text).run s = s := by
  simp only [Edit.run, Edit.apply, setFormula, hparse]
  rfl

theorem entered?_update (store : Store) (f : Cell → Cell) (hf : ∀ c, (f c).flush = f c.flush) (p q : Position) :
    (store.update p f).entered? q = if q = p then some (f ((store.entered? q).getD {})) else store.entered? q := by
  rw [Store.entered?, Store.entered?, Store.cell?_update]
  by_cases hq : q = p
  · subst hq
    rw [if_pos rfl, if_pos rfl, Option.map_some, hf]
    cases store.cell? q <;> rfl
  · rw [if_neg (Ne.symm hq), if_neg hq]

theorem entered?_clear (store : Store) (p q : Position) :
    (store.clear p).entered? q = if q = p then (store.entered? q).map Cell.reset else store.entered? q := by
  rw [Store.entered?, Store.entered?]
  by_cases hq : q = p
  · subst hq
    rw [Store.cell?_clear_self, if_pos rfl]
    cases store.cell? q <;> rfl
  · rw [Store.cell?_clear_of_ne store hq, if_neg hq]

/-- What an edit outside of arrays does to the cells. -/
theorem run_of_outside (houtside : s.arrayAt? edit.position = none) :
    (edit.run s).toEnvironment = s.toEnvironment ∧ ∀ q, (edit.run s).store.entered? q =
      if q = edit.position then edit.enter s.toEnvironment (s.store.entered? q) else s.store.entered? q := by
  cases edit with
  | value p v =>
    rw [run_value (show s.arrayAt? p = none from houtside)]
    exact ⟨rfl, entered?_update s.store (·.setValue v) (fun _ => rfl) p⟩
  | formula p text =>
    cases hparse : s.parse text with
    | error err =>
      rw [run_formula_error hparse]
      refine ⟨rfl, fun q => ?_⟩
      simp only [Edit.enter, hparse, ite_self]
    | ok e =>
      rw [run_formula (show s.arrayAt? p = none from houtside) hparse]
      refine ⟨rfl, fun q => ?_⟩
      simp only [Edit.enter, hparse]
      exact entered?_update s.store (·.setFormula text) (fun _ => rfl) p q
  | clear p =>
    rw [run_clear (show s.arrayAt? p = none from houtside)]
    exact ⟨rfl, entered?_clear s.store p⟩

theorem environment_run (houtside : s.arrayAt? edit.position = none) :
    (edit.run s).toEnvironment = s.toEnvironment :=
  (run_of_outside houtside).1

theorem entered?_run_self (houtside : s.arrayAt? edit.position = none) :
    (edit.run s).store.entered? edit.position = edit.enter s.toEnvironment (s.store.entered? edit.position) := by
  rw [(run_of_outside houtside).2, if_pos rfl]

theorem entered?_run_of_ne (houtside : s.arrayAt? edit.position = none) (hq : q ≠ edit.position) :
    (edit.run s).store.entered? q = s.store.entered? q := by
  rw [(run_of_outside houtside).2, if_neg hq]

/-- What is entered into a cell that belongs to no array does not, either. -/
theorem area_enter {env : Environment} {c : Option Cell} (h : c.bind Cell.area = none) (edit : Edit) :
    (edit.enter env c).bind Cell.area = none := by
  cases edit with
  | value p v => cases c <;> exact h
  | formula p text =>
    rw [Edit.enter]
    split
    · cases c <;> exact h
    · exact h
  | clear p => cases c <;> rfl

/-- An edit outside of arrays makes no arrays. -/
theorem arrayAt?_run (houtside : s.arrayAt? edit.position = none) (q : Position) :
    (edit.run s).arrayAt? q = s.arrayAt? q := by
  rw [arrayAt?_eq, arrayAt?_eq]
  by_cases hq : q = edit.position
  · rw [arrayAt?_eq] at houtside
    rw [hq, entered?_run_self (by rwa [arrayAt?_eq]), area_enter houtside, houtside]
  · rw [entered?_run_of_ne houtside hq]

/-- A sheet of plain formulas stays one when a plain formula is entered. -/
theorem PlainFormulas.run (h : s.PlainFormulas) (hedit : edit.Plain s.toEnvironment)
    (houtside : s.arrayAt? edit.position = none) : (edit.run s).PlainFormulas := by
  intro q e he
  have henv := environment_run houtside
  rw [henv]
  by_cases hq : q = edit.position
  · subst hq
    have hself := entered?_run_self houtside
    obtain ⟨c, body, hc, -, hbody, hparse⟩ := cell_of_expression he
    obtain ⟨text, htext⟩ := Environment.content_of_formula? hbody
    have hentry := hself
    rw [Store.entered?, hc, Option.map_some] at hself
    rw [henv] at hparse
    cases edit with
    | value p v =>
      have hcontent : c.content = .value v := congrArg Cell.content (Option.some.inj hself)
      rw [hcontent] at htext
      cases htext
    | formula p entered =>
      cases hentered : s.parse entered with
      | error err =>
        simp only [Edit.enter, hentered] at hentry
        exact h p e (contentAt_of_entered? henv hentry ▸ he)
      | ok e' =>
        simp only [Edit.enter, hentered, Option.some.injEq] at hself
        have hcontent : c.content = .formula entered := congrArg Cell.content hself
        have hsame := (Environment.parse_formula? hentered hcontent hbody).symm.trans hparse
        cases hsame
        exact hedit e hentered
    | clear p =>
      obtain ⟨c', -, hreset⟩ := Option.map_eq_some_iff.1 (show (s.store.entered? p).map Cell.reset = _ from hself.symm)
      have hcontent : c.content = .value .undefined := (congrArg Cell.content hreset).symm
      rw [hcontent] at htext
      cases htext
  · exact h q e (contentAt_of_entered? henv (entered?_run_of_ne houtside hq) ▸ he)

theorem Attained.run (h : s.Attained uncut) (edit : Edit) : (edit.run s).Attained uncut := by
  unfold Edit.run
  cases happly : edit.apply s with
  | error err => exact h
  | ok s' =>
    cases edit with
    | value p v => exact h.setValue happly
    | formula p text => exact h.setFormula happly
    | clear p => exact h.clear happly

/-! ### Edits with passes between them -/

/-- The edits have been made one after the other, with any number of passes before, between and after them, none of
which has been cut short. -/
inductive Edits : Sheet → List Edit → Sheet → Prop
  | done (s : Sheet) : Edits s [] s
  | edit {s s' : Sheet} {edit : Edit} {es : List Edit} (h : Edits (edit.run s) es s') : Edits s (edit :: es) s'
  | pass {s s' : Sheet} {es : List Edit} (hcut : s.recalculate.1.truncated = false) (h : Edits s.recalculate.2 es s') :
    Edits s es s'

/-- A sheet of plain formulas in which no pass has been cut short, and plain edits of different cells of it that
belong to no arrays. -/
structure Editable (s : Sheet) (es : List Edit) : Prop where
  attained : s.Attained True
  formulas : s.PlainFormulas
  edits : ∀ edit ∈ es, edit.Plain s.toEnvironment
  outside : ∀ edit ∈ es, s.arrayAt? edit.position = none
  distinct : (es.map Edit.position).Nodup

namespace Editable

/-- After the first edit the others can still be made. -/
theorem run (h : s.Editable (edit :: es)) : (edit.run s).Editable es := by
  have houtside := h.outside edit List.mem_cons_self
  refine ⟨h.attained.run edit, h.formulas.run (h.edits edit List.mem_cons_self) houtside, fun edit' hmem => ?_,
    fun edit' hmem => ?_, (List.nodup_cons.1 h.distinct).2⟩
  · rw [environment_run houtside]
    exact h.edits edit' (List.mem_cons_of_mem _ hmem)
  · rw [arrayAt?_run houtside]
    exact h.outside edit' (List.mem_cons_of_mem _ hmem)

theorem entered?_recalculate (h : s.Editable es) (q : Position) : s.recalculate.2.store.entered? q = s.store.entered? q :=
  h.attained.kept.alike_recalculate q

theorem arrayAt?_recalculate (h : s.Editable es) (q : Position) : s.recalculate.2.arrayAt? q = s.arrayAt? q := by
  rw [arrayAt?_eq, arrayAt?_eq, h.entered?_recalculate]

/-- After a pass all of them can still be made. -/
theorem recalculate (h : s.Editable es) (hcut : s.recalculate.1.truncated = false) : s.recalculate.2.Editable es where
  attained := h.attained.recalculate fun _ => hcut
  formulas p e he := by
    have hcontent : s.recalculate.2.contentAt p = s.contentAt p := contentAt_of_entered? rfl (h.entered?_recalculate p)
    exact h.formulas p e (hcontent ▸ he)
  edits := h.edits
  outside edit hmem := by
    rw [h.arrayAt?_recalculate]
    exact h.outside edit hmem
  distinct := h.distinct

theorem perm (h : s.Editable es) (hperm : es.Perm es') : s.Editable es' where
  attained := h.attained
  formulas := h.formulas
  edits edit hmem := h.edits edit (hperm.mem_iff.2 hmem)
  outside edit hmem := h.outside edit (hperm.mem_iff.2 hmem)
  distinct := (hperm.map Edit.position).nodup_iff.1 h.distinct

end Editable

/-- What edits and passes make of a sheet: each edit has left in its cell what it would have left there at first. -/
structure Made (s : Sheet) (es : List Edit) (s' : Sheet) : Prop where
  environment : s'.toEnvironment = s.toEnvironment
  editable : s'.Editable []
  other : ∀ q, q ∉ es.map Edit.position → s'.store.entered? q = s.store.entered? q
  edited : ∀ edit ∈ es, s'.store.entered? edit.position = edit.enter s.toEnvironment (s.store.entered? edit.position)

theorem Edits.made (h : s.Edits es s') (hs : s.Editable es) : s.Made es s' := by
  induction h with
  | done s => exact ⟨rfl, hs, fun _ _ => rfl, fun _ hmem => nomatch hmem⟩
  | @edit s s' edit es _ ih =>
    have hrest := ih hs.run
    have houtside := hs.outside edit List.mem_cons_self
    have hfresh := (List.nodup_cons.1 hs.distinct).1
    refine ⟨hrest.environment.trans (environment_run houtside), hrest.editable, fun q hq => ?_, fun edit' hmem => ?_⟩
    · rw [List.map_cons, List.mem_cons, not_or] at hq
      rw [hrest.other q hq.2, entered?_run_of_ne houtside hq.1]
    · rcases List.mem_cons.1 hmem with rfl | hmem
      · rw [hrest.other _ hfresh, entered?_run_self houtside]
      · have hne : edit'.position ≠ edit.position := fun heq => hfresh (heq ▸ List.mem_map_of_mem hmem)
        rw [hrest.edited edit' hmem, environment_run houtside, entered?_run_of_ne houtside hne]
  | @pass s s' es hcut _ ih =>
    have hrest := ih (hs.recalculate hcut)
    refine ⟨hrest.environment, hrest.editable, fun q hq => ?_, fun edit hmem => ?_⟩
    · rw [hrest.other q hq, hs.entered?_recalculate]
    · rw [hrest.edited edit hmem, hs.entered?_recalculate]
      rfl

/-- Edits in another order leave the same in all cells, apart from results. -/
theorem Made.alike (h₁ : s.Made es s₁) (h₂ : s.Made es' s₂) (hperm : es.Perm es') : s₁.store.Alike s₂.store := by
  intro q
  change s₂.store.entered? q = s₁.store.entered? q
  by_cases hq : q ∈ es.map Edit.position
  · obtain ⟨edit, hmem, rfl⟩ := List.mem_map.1 hq
    rw [h₁.edited edit hmem, h₂.edited edit (hperm.mem_iff.1 hmem)]
  · rw [h₁.other q hq, h₂.other q fun hq' => hq ((hperm.map Edit.position).mem_iff.2 hq')]

/-- A pass over a sheet of plain formulas. -/
theorem Editable.quiet (h : s.Editable es) (hcut : s.recalculate.1.truncated = false) : s.recalculate.2.Quiet := by
  obtain ⟨hcoherent, hclean⟩ := (h.attained.kept.coherent trivial).recalculate hcut
  exact ⟨hcoherent, hclean, (h.recalculate hcut).formulas⟩

/-- Edits of different cells, in any order and with passes anywhere between them, come to the same after a final
pass, except in exposed cells. -/
theorem Editable.confluent (h : s.Editable es) (hperm : es.Perm es') (h₁ : s.Edits es s₁) (h₂ : s.Edits es' s₂)
    (hcut₁ : s₁.recalculate.1.truncated = false) (hcut₂ : s₂.recalculate.1.truncated = false)
    (hq : ¬s₁.recalculate.2.Exposed s₁.recalculate.2.contentAt q) :
    s₂.recalculate.2.read q = s₁.recalculate.2.read q := by
  have hmade₁ := h₁.made h
  have hmade₂ := h₂.made (h.perm hperm)
  have henv : s₂.recalculate.2.toEnvironment = s₁.recalculate.2.toEnvironment :=
    hmade₂.environment.trans hmade₁.environment.symm
  have halike : s₁.recalculate.2.store.Alike s₂.recalculate.2.store :=
    (hmade₁.editable.attained.kept.alike_recalculate.symm.trans (hmade₁.alike hmade₂ hperm)).trans
      hmade₂.editable.attained.kept.alike_recalculate
  exact (hmade₁.editable.quiet hcut₁).read_eq (hmade₂.editable.quiet hcut₂) henv halike hq

/-- Without array formulas no cell is exposed. -/
theorem not_exposed_of_no_arrays (h : ∀ p, s.arrayAt? p = none) (q : Position) : ¬s.Exposed s.contentAt q := by
  rintro ⟨r, -, ⟨m, -, hm, hcycle⟩, -⟩
  obtain ⟨y, -, hlast⟩ := Relation.TransGen.tail'_iff.1 hcycle
  rcases hlast with ⟨e, he, -⟩ | ⟨hmem, -⟩
  · rw [hm] at he
    cases he
  · cases hcontent : s.contentAt y with
    | value =>
      rw [hcontent] at hmem
      cases hmem
    | formula e =>
      rw [hcontent] at hmem
      cases hmem
    | array e a =>
      obtain ⟨c, hc, -, ha, -⟩ := cell_of_array hcontent
      have hsome := arrayAt?_eq_some_iff.2 ⟨c, hc, ha⟩
      rw [h y] at hsome
      cases hsome

/-- Edits and passes make no arrays. -/
theorem Made.arrayAt? (h : s.Made es s') (hs : s.Editable es) (q : Position) : s'.arrayAt? q = s.arrayAt? q := by
  rw [arrayAt?_eq, arrayAt?_eq]
  by_cases hq : q ∈ es.map Edit.position
  · obtain ⟨edit, hmem, rfl⟩ := List.mem_map.1 hq
    have houtside := hs.outside edit hmem
    rw [arrayAt?_eq] at houtside
    rw [h.edited edit hmem, area_enter houtside, houtside]
  · rw [h.other q hq]

/-! ### A formula and the cell that it reads -/

/-- The sheet after the formula `A2` has been entered into `B1`. -/
def reenter (s : Sheet) : Sheet :=
  { s with store := s.store.setFormula ⟨0, 1⟩ "A2" }.install ⟨0, 1⟩ (.formula below) below

/-- The sheet after a value has been entered. -/
def feed (s : Sheet) (p : Position) : Sheet := s.vacate p (s.store.setValue p (.boolean true))

/-- The sheet when the formula is entered and calculated before the value is entered. -/
def formulaThenValue (s : Sheet) (p : Position) : Sheet := s.reenter.recalculate.2.feed p

/-- The sheet when the value is entered and a pass is made before the formula is entered. -/
def valueThenFormula (s : Sheet) (p : Position) : Sheet := (s.feed p).recalculate.2.reenter

/-- The two edits. -/
def formulaFirst (p : Position) : List Edit := [.formula ⟨0, 1⟩ "A2", .value p (.boolean true)]

/-- The same edits in the other order. -/
def formulaLast (p : Position) : List Edit := [.value p (.boolean true), .formula ⟨0, 1⟩ "A2"]

theorem plain_below (env : Environment) : env.Plain below := by
  have hcall (position : Nat) (name : String) (args : List Expression) :
      Expression.call position name args ∉ below.units := by
    simp [Expression.units, below, Expression.walk]
  refine ⟨fun position name args hmem => absurd hmem (hcall position name args),
    fun position name args hmem => absurd hmem (hcall position name args), fun a ha => ?_⟩
  have hnone : (env.dependencies below).areas = [] := rfl
  rw [hnone] at ha
  cases ha

section

variable (hdecimal : s.settings.decimal = .period)
include hdecimal

theorem parse_eq_below : s.parse "A2" = .ok below := by
  rw [Environment.parse, Environment.locale, hdecimal, parse_below]

theorem run_reenter (houtside : s.arrayAt? ⟨0, 1⟩ = none) : (Edit.formula ⟨0, 1⟩ "A2").run s = s.reenter :=
  run_formula houtside (parse_eq_below hdecimal)

theorem editable_formulaFirst (h : s.Attained True) (hformulas : s.PlainFormulas) (hp : p ≠ ⟨0, 1⟩)
    (hfirst : s.arrayAt? ⟨0, 1⟩ = none) (hlast : s.arrayAt? p = none) : s.Editable (formulaFirst p) := by
  refine ⟨h, hformulas, ?_, ?_, ?_⟩
  · simp only [formulaFirst, List.forall_mem_cons, Edit.Plain, parse_eq_below hdecimal]
    refine ⟨?_, trivial, fun _ hmem => nomatch hmem⟩
    rintro e ⟨⟩
    exact plain_below _
  · simp only [formulaFirst, List.forall_mem_cons, Edit.position]
    exact ⟨hfirst, hlast, fun _ hmem => nomatch hmem⟩
  · simpa [formulaFirst, Edit.position] using hp.symm

theorem edits_formulaFirst (h : s.Editable (formulaFirst p)) (hcut : s.reenter.recalculate.1.truncated = false) :
    s.Edits (formulaFirst p) (s.formulaThenValue p) := by
  have hrun := run_reenter hdecimal (h.outside _ List.mem_cons_self)
  have hnext := h.run
  rw [hrun] at hnext
  have hoff : s.reenter.recalculate.2.arrayAt? p = none := (hnext.recalculate hcut).outside _ List.mem_cons_self
  refine .edit ?_
  rw [hrun]
  refine .pass hcut (.edit ?_)
  rw [run_value hoff]
  exact .done _

theorem edits_formulaLast (h : s.Editable (formulaLast p)) (hcut : (s.feed p).recalculate.1.truncated = false) :
    s.Edits (formulaLast p) (s.valueThenFormula p) := by
  have houtside : s.arrayAt? p = none := h.outside (.value p (.boolean true)) List.mem_cons_self
  have hrun : (Edit.value p (.boolean true)).run s = s.feed p := run_value houtside _
  have hnext := h.run
  rw [hrun] at hnext
  have hoff : (s.feed p).recalculate.2.arrayAt? ⟨0, 1⟩ = none :=
    (hnext.recalculate hcut).outside (.formula ⟨0, 1⟩ "A2") List.mem_cons_self
  refine .edit ?_
  rw [hrun]
  refine .pass hcut (.edit ?_)
  rw [run_reenter (s := (s.feed p).recalculate.2) hdecimal hoff]
  exact .done _

end

theorem perm_formulaFirst (p : Position) : (formulaFirst p).Perm (formulaLast p) := .swap ..

section

variable (library : Library)

theorem passes_empty : (empty {} library default).reenter.recalculate.1.truncated = false ∧
    ((empty {} library default).feed ⟨1, 0⟩).recalculate.1.truncated = false ∧
    ((empty {} library default).formulaThenValue ⟨1, 0⟩).recalculate.1.truncated = false ∧
    ((empty {} library default).valueThenFormula ⟨1, 0⟩).recalculate.1.truncated = false := by
  cbv

end

theorem arrayAt?_empty (settings : Settings) (library : Library) (clock : Clock) (p : Position) :
    (empty settings library clock).arrayAt? p = none := by
  simp [arrayAt?, empty, Store.cell?]

theorem editable_empty : (empty {} .standard default).Editable (formulaFirst ⟨1, 0⟩) := by
  refine editable_formulaFirst rfl (.empty {} .standard default fun _ => rfl) (fun p e he => ?_) (by decide)
    (arrayAt?_empty ..) (arrayAt?_empty ..)
  simp [contentAt, empty, Store.cell?, Vertex.Content.expression?] at he

theorem not_exposed_empty :
    ¬(formulaThenValue (empty {} .standard default) ⟨1, 0⟩).recalculate.2.Exposed
      (formulaThenValue (empty {} .standard default) ⟨1, 0⟩).recalculate.2.contentAt ⟨0, 1⟩ := by
  have hmade := (edits_formulaFirst rfl editable_empty (passes_empty .standard).1).made editable_empty
  refine not_exposed_of_no_arrays (fun p => ?_) _
  rw [hmade.editable.arrayAt?_recalculate, hmade.arrayAt? editable_empty]
  exact arrayAt?_empty ..

/-- A formula and the cell that it reads can be entered in either order. -/
theorem confluent_empty :
    (empty {} .standard default).Editable (formulaFirst ⟨1, 0⟩) ∧
      (formulaFirst ⟨1, 0⟩).Perm (formulaLast ⟨1, 0⟩) ∧
      (empty {} .standard default).Edits (formulaFirst ⟨1, 0⟩) (formulaThenValue (empty {} .standard default) ⟨1, 0⟩) ∧
      (empty {} .standard default).Edits (formulaLast ⟨1, 0⟩) (valueThenFormula (empty {} .standard default) ⟨1, 0⟩) ∧
      (formulaThenValue (empty {} .standard default) ⟨1, 0⟩).recalculate.1.truncated = false ∧
      (valueThenFormula (empty {} .standard default) ⟨1, 0⟩).recalculate.1.truncated = false ∧
      (valueThenFormula (empty {} .standard default) ⟨1, 0⟩).recalculate.2.read ⟨0, 1⟩ =
        (formulaThenValue (empty {} .standard default) ⟨1, 0⟩).recalculate.2.read ⟨0, 1⟩ := by
  have hperm := perm_formulaFirst ⟨1, 0⟩
  obtain ⟨hformula, hvalue, hcut₁, hcut₂⟩ := passes_empty .standard
  have h₁ := edits_formulaFirst rfl editable_empty hformula
  have h₂ := edits_formulaLast rfl (editable_empty.perm hperm) hvalue
  exact ⟨editable_empty, hperm, h₁, h₂, hcut₁, hcut₂,
    editable_empty.confluent hperm h₁ h₂ hcut₁ hcut₂ not_exposed_empty⟩

/-! ### A cell that reads a member of an array -/

section

variable (library : Library)

theorem passes_looping : (looping library).reenter.recalculate.1.truncated = false ∧
    ((looping library).feed ⟨0, 2⟩).recalculate.1.truncated = false ∧
    ((looping library).formulaThenValue ⟨0, 2⟩).recalculate.1.truncated = false ∧
    ((looping library).valueThenFormula ⟨0, 2⟩).recalculate.1.truncated = false ∧
    ((looping library).formulaThenValue ⟨0, 2⟩).recalculate.2.read ⟨0, 1⟩ = .undefined ∧
    ((looping library).valueThenFormula ⟨0, 2⟩).recalculate.2.read ⟨0, 1⟩ = Graph.Pass.failure := by
  cbv

theorem arrayAt?_looping_edited : (looping library).arrayAt? ⟨0, 1⟩ = none ∧
    (looping library).arrayAt? ⟨0, 2⟩ = none := by
  cbv

theorem formula?_looping :
    (looping library).store.toList.map (fun pc => pc.2.formula?) = [some "A2", some "A2", none] := by
  cbv

theorem editable_looping : (looping .standard).Editable (formulaFirst ⟨0, 2⟩) := by
  obtain ⟨hreader, hother⟩ := arrayAt?_looping_edited .standard
  refine editable_formulaFirst rfl attained_looping (fun p e he => ?_) (by decide) hreader hother
  obtain ⟨c, text, hc, -, htext, hparse⟩ := cell_of_expression he
  have hmem := List.mem_map_of_mem (f := fun pc : Position × Cell => pc.2.formula?) (Store.mem_toList.2 hc)
  rw [formula?_looping] at hmem
  obtain rfl : "A2" = text := by simpa [htext, eq_comm] using hmem
  rw [parse_eq_below rfl] at hparse
  cases hparse
  exact plain_below _

end

/-- The exception is real: when the formula in `B1`, which reads a member of an array on a cycle, is entered once
more and calculated before a value is entered into `C1`, the cell shows nothing, and in the other order it shows the
error. -/
theorem not_confluent_looping :
    ∃ (s s₁ s₂ : Sheet) (es es' : List Edit), s.Editable es ∧ es.Perm es' ∧ s.Edits es s₁ ∧ s.Edits es' s₂ ∧
      s₁.recalculate.1.truncated = false ∧ s₂.recalculate.1.truncated = false ∧
      s₁.recalculate.2.read ⟨0, 1⟩ = .undefined ∧ s₂.recalculate.2.read ⟨0, 1⟩ = Graph.Pass.failure := by
  have hperm := perm_formulaFirst ⟨0, 2⟩
  obtain ⟨hformula, hvalue, hpasses⟩ := passes_looping .standard
  have h₁ := edits_formulaFirst rfl editable_looping hformula
  have h₂ := edits_formulaLast rfl (editable_looping.perm hperm) hvalue
  exact ⟨looping .standard, _, _, _, _, editable_looping, hperm, h₁, h₂, hpasses⟩

end Sheet

end Spreadsheet
