import Spreadsheet.Proofs.Evaluation.Upholds
import Spreadsheet.Proofs.Sheet.Carried
import Spreadsheet.Proofs.Sheet.Evolves
import Spreadsheet.Proofs.Simulation.Evolves

/-!
Finite numbers. Most functions check the numbers that they make; literals are taken as they are read, and a few functions
hand numbers on. An expression without infinite literals that calls none of these functions has a finite value where the
cells are finite. So as long as what is entered keeps to finite numbers and to functions that check theirs, all numbers
in the cells of a sheet are finite, whatever else is done and wherever passes are cut short. A literal that is too large
is not checked: its cell shows infinity.
-/

namespace Spreadsheet

/-- A value all of whose numbers are finite, the parts of complex numbers among them, at any depth. -/
structure Value.Finite (v : Value) : Prop where
  number : ∀ x, .number x ∈ v.flatten → x.isFinite = true
  complex : ∀ z, .complex z ∈ v.flatten → z.real.isFinite = true ∧ z.imaginary.isFinite = true

/-- The demand that numbers are finite. -/
def Demand.finiteNumbers : Demand where
  number x := x.isFinite = true
  error _ := True
  finite _ h := h
  sound _ _ := trivial

theorem Value.meets_finite_iff {v : Value} : v.Meets .finiteNumbers ↔ v.Finite := by
  constructor
  · exact fun h => ⟨fun x hx => h (.number x) hx, fun z hz => h (.complex z) hz⟩
  · intro h u hu
    cases u with
    | number x => exact h.number x hu
    | complex z => exact h.complex z hu
    | _ => trivial

namespace Expression

/-- A unit that writes out finite numbers only and calls no function that hands numbers on without a check. -/
def UnitGuarded : Expression → Prop
  | .literal _ v _ => v.Finite
  | .array _ columns => (Value.array columns).Finite
  | .call _ name _ => ∀ f, Library.standard.find? name = some f → f.name ∉ Function.unchecked
  | _ => True

/-- An expression that writes out finite numbers only and calls no function that hands numbers on without a check. -/
def Guarded (e : Expression) : Prop := ∀ u ∈ e.units, u.UnitGuarded

variable {s : Scope} {e u : Expression} {model : Simulation.Model}

/-- Functions of the standard library leave the samples of a simulation alone. -/
theorem effectsMeet_standard {D : Demand} {name : String} {f : Function} (hf : Library.standard.find? name = some f)
    (site : CallSite) (vs : List Value) {e : Effects} (h : Evaluation.EffectsMeet D e) :
    Evaluation.EffectsMeet D ((f.apply site vs).run e).2 := by
  obtain ⟨generator, hmodel⟩ := Library.sparing_standard name f hf site vs e
  intro p xs hxs
  rw [hmodel] at hxs
  exact h p xs hxs

theorem UnitGuarded.unitMeets (h : u.UnitGuarded) (hlibrary : s.library = .standard) :
    Evaluation.UnitMeets .finiteNumbers s u := by
  cases u with
  | literal p v spelling => exact Value.meets_finite_iff.2 h
  | array p columns => exact Value.meets_finite_iff.2 h
  | call p name args =>
    intro f hf
    rw [hlibrary] at hf
    exact ⟨Library.meets_of_standard hf fun hmem => absurd hmem (h f hf), fun site vs _ => effectsMeet_standard hf site vs⟩
  | unary | binary | group => exact .inr trivial
  | _ => trivial

/-- The value of a guarded expression is finite, and so are the samples afterwards. -/
theorem Guarded.calculate (h : e.Guarded) (hlibrary : s.library = .standard) (hstore : s.store.Meets .finiteNumbers)
    (hclock : s.clock.Meets .finiteNumbers) (hmodel : model.Meets .finiteNumbers) :
    (e.calculate s model).value.Meets .finiteNumbers ∧ (e.calculate s model).model.Meets .finiteNumbers :=
  meets_calculate hstore hclock hmodel fun u hu => (h u hu).unitMeets hlibrary

end Expression

open Spreadsheet.Graph

/-! ### Cells -/

namespace Store

variable {s : Store} {p : Position} {P : Cell → Prop} {f : Cell → Cell}

/-- All cells have a property. -/
def Each (P : Cell → Prop) (s : Store) : Prop := ∀ p c, s.cell? p = some c → P c

theorem Each.update (h : s.Each P) (hblank : P {}) (hf : ∀ c, P c → P (f c)) (p : Position) : (s.update p f).Each P := by
  intro q c hc
  rw [cell?_update] at hc
  split at hc
  · cases hc
    refine hf _ ?_
    cases hp : s.cell? p with
    | none => exact hblank
    | some c => exact h p c hp
  · exact h q c hc

theorem Each.adjust (h : s.Each P) (hf : ∀ c, P c → P (f c)) (p : Position) : (s.adjust p f).Each P := by
  intro q c hc
  rw [cell?_adjust] at hc
  split at hc
  · obtain ⟨c', hc', rfl⟩ := Option.map_eq_some_iff.1 hc
    exact hf c' (h p c' hc')
  · exact h q c hc

end Store

/-- A cell whose numbers are finite and whose formula, if it has one, is guarded. -/
structure Environment.Guards (env : Environment) (c : Cell) : Prop where
  content : c.content.toValue.Finite
  calculated : c.calculated.Finite
  formula : ∀ text e, c.content = .formula text → env.parse text = .ok e → e.Guarded

namespace Environment.Guards

variable {env : Environment} {c : Cell} {v : Value} {text : String}

theorem reset (c : Cell) (area : Option Area) : env.Guards { c.reset with area } :=
  ⟨Value.meets_finite_iff.1 Value.meets_undefined, Value.meets_finite_iff.1 Value.meets_undefined, nofun⟩

theorem blank : env.Guards {} := reset {} none

theorem setValue (c : Cell) (hv : v.Finite) : env.Guards (c.setValue v) :=
  ⟨hv, Value.meets_finite_iff.1 Value.meets_undefined, nofun⟩

theorem setFormula (c : Cell) (h : ∀ e, env.parse text = .ok e → e.Guarded) : env.Guards (c.setFormula text) := by
  refine ⟨Value.meets_finite_iff.1 (Value.meets_text text), Value.meets_finite_iff.1 Value.meets_undefined, ?_⟩
  rintro _ e ⟨⟩ he
  exact h e he

theorem setResult (h : env.Guards c) (hv : v.Finite) : env.Guards (c.setResult v) := ⟨h.content, hv, h.formula⟩

theorem read (h : env.Guards c) : c.read.Finite := by
  unfold Cell.read
  split
  · exact h.calculated
  · exact h.content

end Environment.Guards

theorem Environment.meets_of_each {env : Environment} {store : Store} (h : store.Each env.Guards) :
    store.Meets .finiteNumbers := by
  intro p
  unfold Store.read
  cases hc : store.cell? p with
  | none => exact Value.meets_undefined
  | some c => exact Value.meets_finite_iff.2 (h p c hc).read

/-! ### Edits -/

namespace Sheet

variable {s s' : Sheet} {p q : Position} {a : Area} {v : Value} {text : String} {env : Environment}

theorem guards_eraseAll (h : s.store.Each env.Guards) (ps : List Position) : (ps.foldl erase s).store.Each env.Guards := by
  induction ps generalizing s with
  | nil => exact h
  | cons p ps ih => exact ih (h.adjust (fun c _ => .reset c none) p)

theorem guards_detach (h : s.store.Each env.Guards) (hs : s.detach p = .ok s') : s'.store.Each env.Guards := by
  unfold detach at hs
  split at hs
  · cases hs
    exact h
  · split at hs
    · cases hs
      exact guards_eraseAll h _
    · cases hs

theorem guards_setValue (h : s.store.Each env.Guards) (hv : v.Finite) (hs : s.setValue p v = .ok s') :
    s'.store.Each env.Guards := by
  unfold setValue at hs
  cases hd : s.detach p with
  | error err =>
    rw [hd] at hs
    cases hs
  | ok s₁ =>
    rw [hd] at hs
    cases hs
    exact (guards_detach h hd).update .blank (fun c _ => .setValue c hv) p

theorem guards_setFormula (h : s.store.Each env.Guards) (htext : ∀ e, env.parse text = .ok e → e.Guarded)
    (hs : s.setFormula p text = .ok s') : s'.store.Each env.Guards := by
  unfold setFormula at hs
  cases hparse : s.parse text with
  | error err =>
    rw [hparse] at hs
    cases hs
  | ok e =>
    cases hd : s.detach p with
    | error err =>
      rw [hparse, hd] at hs
      cases hs
    | ok s₁ =>
      rw [hparse, hd] at hs
      cases hs
      exact (guards_detach h hd).update .blank (fun c _ => .setFormula c htext) p

theorem guards_clear (h : s.store.Each env.Guards) (hs : s.clear p = .ok s') : s'.store.Each env.Guards := by
  unfold clear at hs
  split at hs
  · cases hs
    exact h.adjust (fun c _ => .reset c none) p
  · split at hs
    · cases hs
      exact guards_eraseAll h _
    · cases hs

theorem guards_enlistAll (h : s.store.Each env.Guards) (a : Area) (ps : List Position) :
    (ps.foldl (fun s p => s.enlist a p) s).store.Each env.Guards := by
  induction ps generalizing s with
  | nil => exact h
  | cons p ps ih => exact ih (h.update .blank (fun c _ => .reset c (some a)) p)

theorem guards_setArray (h : s.store.Each env.Guards) (htext : ∀ e, env.parse text = .ok e → e.Guarded)
    (hs : s.setArray a text = .ok s') : s'.store.Each env.Guards := by
  unfold setArray at hs
  split at hs
  · cases hparse : s.parse text with
    | error err =>
      rw [hparse] at hs
      cases hs
    | ok e =>
      rw [hparse] at hs
      simp only [bind, Except.bind] at hs
      split at hs
      · cases hs
      · cases hs
        refine (guards_enlistAll ?_ a a.members).update .blank (fun c _ => .setFormula c htext) _
        split
        · exact h
        · exact guards_eraseAll h a.members
  · cases hs

/-- The formulas of a faithful sheet of guarded cells are guarded. -/
theorem Faithful.guarded (h : s.Faithful) (hcells : s.store.Each s.Guards) {e : Expression}
    (he : (s.contentAt q).expression? = some e) : e.Guarded := by
  obtain ⟨c, body, hc, -, hbody, hparse⟩ := cell_of_expression he
  obtain ⟨text, htext⟩ := Environment.content_of_formula? hbody
  obtain ⟨e', hparse'⟩ := h.readable q c text hc htext
  cases (Environment.parse_formula? hparse' htext hbody).symm.trans hparse
  exact (hcells q c hc).formula text e htext hparse'

end Sheet

/-! ### Passes -/

theorem Value.Meets.elementFor {D : Demand} {v : Value} (h : v.Meets D) (head p : Position) :
    (v.elementFor head p).Meets D := by
  unfold Value.elementFor
  split
  · rename_i columns
    cases hcolumn : columns[p.column - head.column]? with
    | none => exact Value.meets_ofCode (by simp)
    | some column =>
      simp only [Option.bind_some]
      cases hv : column[p.row - head.row]? with
      | none => exact Value.meets_ofCode (by simp)
      | some v => exact Value.meets_array.1 h column (List.mem_of_getElem? hcolumn) v (List.mem_of_getElem? hv)
  · exact h

/-- What a pass works on: guarded cells, and samples that are finite. -/
structure Contents.Guarded (env : Environment) (c : Contents) : Prop where
  cells : c.store.Each env.Guards
  samples : c.model.Meets .finiteNumbers

namespace Contents.Guarded

variable {env : Environment} {c : Contents} {x : Value} {e : Expression}

theorem setResult (h : c.Guarded env) (hx : x.Finite) (p : Position) : (c.setResult p x).Guarded env :=
  ⟨h.cells.update .blank (fun _ hc => hc.setResult hx) p, h.samples⟩

theorem spread (h : c.Guarded env) (hx : x.Finite) (a : Area) : (c.spread a x).Guarded env := by
  unfold Contents.spread
  split
  · rename_i head _
    generalize a.members = ps
    induction ps generalizing c with
    | nil => exact h
    | cons p ps ih =>
      exact ih (h.setResult (Value.meets_finite_iff.1 ((Value.meets_finite_iff.2 hx).elementFor head p)) p)
  · exact h

theorem deliver (h : c.Guarded env) (hx : x.Finite) (v : Vertex) :
    (((Pass.deliver env.handler v x).run c).2).Guarded env := by
  unfold Pass.deliver
  cases v.content with
  | value => exact h
  | formula e => exact h.setResult hx v.position
  | array e a => exact h.spread hx a

end Contents.Guarded

/-- The functions are the usual ones, and the time is finite. -/
structure Environment.Usual (env : Environment) : Prop where
  library : env.library = .standard
  clock : env.clock.Meets .finiteNumbers

namespace Environment.Usual

variable {env : Environment} {c : Contents} {e : Expression} {v : Vertex} {p : Pass Contents} {i : Slot}

theorem calculate (h : env.Usual) (hc : c.Guarded env) (he : e.Guarded) (p : Position) :
    (e.calculate (env.scope c.store p) c.model).value.Finite ∧
      (e.calculate (env.scope c.store p) c.model).model.Meets .finiteNumbers :=
  have hvalue := he.calculate (s := env.scope c.store p) h.library (meets_of_each hc.cells) h.clock hc.samples
  ⟨Value.meets_finite_iff.1 hvalue.1, hvalue.2⟩

theorem guarded_calculate (h : env.Usual) (hc : c.Guarded env) (he : e.Guarded) {outcome : Outcome} {c' : Contents}
    (hrun : (env.handler.calculate v e).run c = (outcome, c')) : c'.Guarded env := by
  have hc' : c' = ((env.handler.calculate v e).run c).2 := by rw [hrun]
  subst hc'
  exact ⟨hc.cells, (h.calculate hc he v.position).2⟩

/-- A step of a pass that calculates a guarded formula, if it calculates one, keeps the cells guarded. -/
theorem looked {look : Pass.Look} {limit : Nat} {p' : Pass Contents} (h : env.Usual) (hc : p.state.Guarded env)
    (hvertex : ∀ v e, p.graph.refreshCycles.vertex? i = some v → v.expression? = some e → e.Guarded)
    (hl : Pass.Looked env.handler limit p i look p') : p'.state.Guarded env := by
  have hfailure : Pass.failure.Finite := Value.meets_finite_iff.1 (Value.meets_ofCode (by simp))
  cases hl with
  | idle => exact hc
  | waits => exact hc
  | @cycle v => exact hc.deliver hfailure v
  | @read v => exact hc.deliver (Value.meets_finite_iff.1 (meets_of_each hc.cells v.position)) v
  | @value v e x volatile state hready he hrun =>
    have hguarded := hvertex v e hready.vertex he
    have hx : x.Finite := by
      rw [(calculate_value hrun).2.1]
      exact (h.calculate hc hguarded v.position).1
    exact (h.guarded_calculate hc hguarded hrun).deliver hx v
  | @exhausted v e d state hready he hrun =>
    exact (h.guarded_calculate hc (hvertex v e hready.vertex he) hrun).deliver hfailure v
  | @rewired v e d state hready he hrun => exact h.guarded_calculate hc (hvertex v e hready.vertex he) hrun

/-- A pass keeps the cells guarded. -/
theorem run (h : env.Usual) (hfaithful : (env.sheetAt p).Faithful) (hu : p.Underway) (hc : p.state.Guarded env)
    (steps : Nat) : (p.run env.handler env.settings.limits.rebuilds steps).state.Guarded env := by
  induction steps generalizing p with
  | zero =>
    unfold Pass.run
    cases p.queue with
    | nil => exact hc
    | cons i rest => exact hc
  | succ steps ih =>
    unfold Pass.run
    cases hq : p.queue with
    | nil => exact hc
    | cons i rest =>
      have hl := Pass.looked_step (p := p.taken rest) hu.cycles env.handler env.settings.limits.rebuilds i
      refine ih (Sheet.Faithful.step (p := p.taken rest) hfaithful hu.cycles i).1 (hu.step hq _ _)
        (h.looked (p := p.taken rest) hc (fun v e hv he => ?_) hl)
      rw [Vertex.expression?_eq, (hfaithful.looking hv).content] at he
      exact hfaithful.guarded hc.cells he

end Environment.Usual

namespace Sheet

variable {s s' : Sheet} {p q : Position} {text : String} {uncut : Prop} {env : Environment}

/-- A sheet of guarded cells and finite samples, with the usual functions and a finite time. -/
structure Guarded (s : Sheet) : Prop where
  usual : s.Usual
  contents : s.toContents.Guarded s.toEnvironment

namespace Guarded

theorem empty (settings : Settings) {clock : Clock} (hclock : clock.Meets .finiteNumbers) :
    (Sheet.empty settings .standard clock).Guarded where
  usual := ⟨by dsimp only [Sheet.empty], hclock⟩
  contents := by
    refine ⟨fun p c hc => ?_, fun p xs hxs => ?_⟩
    · simp [Sheet.empty, Store.cell?] at hc
    · simp [Sheet.empty, Simulation.Model.ofSeed] at hxs

/-- An edit that leaves the cells guarded. -/
theorem edited (h : s.Guarded) (hcarried : Carried s s') (happaratus : s'.apparatus = s.apparatus)
    (hcells : s'.store.Each s.Guards) : s'.Guarded := by
  have hmodel : s'.model = s.model := congrArg Prod.snd happaratus
  constructor
  · rw [hcarried.environment]
    exact h.usual
  · rw [hcarried.environment]
    exact ⟨hcells, by rw [hmodel]; exact h.contents.samples⟩

theorem recalculate (h : s.Guarded) (hkept : s.Kept uncut) : s.recalculate.2.Guarded := by
  have hmark := hkept.markVolatile
  have hu := hmark.firm.toSound.underway s.toContents
  exact ⟨h.usual, h.usual.run (p := s.graph.markVolatile.beginPass s.toContents)
    (hmark.faithful.beginPass hu.wellFormed) hu h.contents s.settings.limits.steps⟩

theorem elapse (h : s.Guarded) {clock : Clock} (hclock : clock.Meets .finiteNumbers) :
    ({ s with clock } : Sheet).Guarded :=
  ⟨⟨h.usual.library, hclock⟩, ⟨fun p c hc =>
    have hguards := h.contents.cells p c hc
    ⟨hguards.content, hguards.calculated, hguards.formula⟩, h.contents.samples⟩⟩

end Guarded

/-! ### Sheets that are reached -/

/-- The text is read as a guarded expression, if it is read. -/
def Heeds (s : Sheet) (text : String) : Prop := ∀ e, s.parse text = .ok e → e.Guarded

/-- What is typed is a guarded formula, a finite number or neither of these. -/
def HeedsTyped (s : Sheet) (text : String) : Prop :=
  ∀ c cs, Text.trimChars text.toList = c :: cs →
    if c = '=' then s.Heeds (.ofList (c :: cs))
    else ∀ x, Number.ofText (.ofList (c :: cs)) = some x → x.isFinite = true

/-- The sheets that come about from empty ones while what is entered keeps to finite numbers and to functions that
check theirs. Passes may be cut short. -/
inductive Temperate : Sheet → Prop
  | empty (settings : Settings) {clock : Clock} (hclock : clock.Meets .finiteNumbers) :
    Temperate (.empty settings .standard clock)
  | setInput {s s' : Sheet} {p : Position} {text : String} (h : Temperate s) (htext : s.HeedsTyped text)
    (hs : s.setInput p text = .ok s') : Temperate s'
  | setFormula {s s' : Sheet} {p : Position} {text : String} (h : Temperate s) (htext : s.Heeds text)
    (hs : s.setFormula p text = .ok s') : Temperate s'
  | setArray {s s' : Sheet} {a b : Reference} {text : String} (h : Temperate s) (htext : s.Heeds text)
    (hs : s.setArray (.between a b) text = .ok s') : Temperate s'
  | clear {s s' : Sheet} {p : Position} (h : Temperate s) (hs : s.clear p = .ok s') : Temperate s'
  | recalculate {s : Sheet} (h : Temperate s) : Temperate s.recalculate.2
  | elapse {s : Sheet} {clock : Clock} (h : Temperate s) (hclock : clock.Meets .finiteNumbers) :
    Temperate { s with clock }

theorem Temperate.attained (h : s.Temperate) : s.Attained False := by
  induction h with
  | empty settings hclock => exact .empty settings _ _ False.elim
  | setInput _ _ hs ih => exact .setInput ih hs
  | setFormula _ _ hs ih => exact .setFormula ih hs
  | setArray _ _ hs ih => exact .setArray ih hs
  | clear _ hs ih => exact .clear ih hs
  | recalculate _ ih => exact .recalculate ih False.elim
  | @elapse s clock _ _ ih => exact .elapse clock s.model ih

theorem finite_typedValue {trimmed : String} (h : ∀ x, Number.ofText trimmed = some x → x.isFinite = true) :
    (typedValue text trimmed).Finite := by
  refine Value.meets_finite_iff.1 ?_
  unfold typedValue
  split
  · rename_i x hx
    exact Value.meets_number.2 (h x hx)
  · split
    · exact Value.meets_boolean _
    · split
      · exact Value.meets_boolean _
      · exact Value.meets_text _

theorem guards_setInput (h : s.store.Each s.Guards) (htext : s.HeedsTyped text) (hs : s.setInput p text = .ok s') :
    s'.store.Each s.Guards := by
  unfold setInput at hs
  split at hs
  · exact guards_clear h hs
  · rename_i c cs htrimmed
    have hheeds := htext c cs htrimmed
    simp only at hs
    split at hs
    · rename_i hequals
      rw [if_pos hequals] at hheeds
      exact guards_setFormula h hheeds hs
    · rename_i hequals
      rw [if_neg hequals] at hheeds
      exact guards_setValue h (finite_typedValue hheeds) hs

theorem Temperate.guarded (h : s.Temperate) : s.Guarded := by
  induction h with
  | empty settings hclock => exact .empty settings hclock
  | setInput h htext hs ih =>
    exact ih.edited (h.attained.kept.carried_setInput hs) (apparatus_setInput hs)
      (guards_setInput ih.contents.cells htext hs)
  | setFormula h htext hs ih =>
    exact ih.edited (h.attained.kept.carried_setFormula hs) (apparatus_setFormula hs)
      (guards_setFormula ih.contents.cells htext hs)
  | setArray h htext hs ih =>
    exact ih.edited (h.attained.kept.carried_setArray hs) (apparatus_setArray hs)
      (guards_setArray ih.contents.cells htext hs)
  | clear h hs ih =>
    exact ih.edited (Kept.carried_clear hs) (apparatus_clear hs) (guards_clear ih.contents.cells hs)
  | recalculate h ih => exact ih.recalculate h.attained.kept
  | elapse _ hclock ih => exact ih.elapse hclock

/-- As long as what is entered keeps to finite numbers and to functions that check theirs, all numbers in all cells are
finite. -/
theorem Temperate.finite (h : s.Temperate) {c : Cell} (hc : s.store.cell? p = some c) :
    c.content.toValue.Finite ∧ c.calculated.Finite :=
  have hguards := h.guarded.contents.cells p c hc
  ⟨hguards.content, hguards.calculated⟩

/-! ### A number that is read by a formula, and numbers that are too large -/

/-- The sheet with the formula `A2` in `B1` when that has been calculated and a number has been entered into `A2`. -/
def supplied (library : Library) (x : Float) : Sheet :=
  { (reading library).recalculate.2 with
    store := (reading library).recalculate.2.store.setValue ⟨1, 0⟩ (.number x)
    graph := ((reading library).recalculate.2.graph.demote ⟨1, 0⟩).setDirty ⟨1, 0⟩ }

/-- Infinity, as a number that is too large is read. -/
def infinity : Float := Float.ofBits 0x7FF0000000000000

/-- The expression `1e999`. -/
def huge : Expression := .literal 0 (.number infinity) "1e999"

/-- The place, the number and the spelling of a number that is written out. -/
def numeral? : Expression → Option (Nat × Float × Option String)
  | .literal p (.number x) spelling => some (p, x, spelling)
  | _ => none

/-- A sheet with the number `1e999` in `A1`. -/
def typed (library : Library) : Sheet :=
  { Sheet.empty {} library default with
    store := Store.setValue {} ⟨0, 0⟩ (.number infinity)
    graph := (Graph.demote {} ⟨0, 0⟩).setDirty ⟨0, 0⟩ }

/-- A sheet with the formula `=1e999` in `A1`. -/
def overflowing (library : Library) : Sheet :=
  { Sheet.empty {} library default with
    store := Store.setFormula {} ⟨0, 0⟩ "=1e999"
    graph := Graph.install {} ⟨0, 0⟩ (.formula huge) (.ofExpression ∅ "Sheet1" huge) }

section

variable (library : Library)

/-- Typing a number is entering it. -/
theorem setInput_number {x : Float} {c : Char} {cs : List Char} (htrimmed : Text.trimChars text.toList = c :: cs)
    (hc : c ≠ '=') (hx : Number.ofText (.ofList (c :: cs)) = some x) (p : Position) :
    s.setInput p text = s.setValue p (.number x) := by
  simp only [setInput, htrimmed, if_neg hc, typedValue, hx]

theorem ofText_oneHalf : Number.ofText (.ofList ['1', '.', '5']) = some 1.5 := by decide

theorem setInput_supplied : (reading library).recalculate.2.setInput ⟨1, 0⟩ "1.5" = .ok (supplied library 1.5) := by
  have hnone : (reading library).recalculate.2.arrayAt? ⟨1, 0⟩ = none := by cbv
  rw [setInput_number (by decide) (by decide) ofText_oneHalf]
  simp only [setValue, detach, hnone]
  rfl

theorem calculated_supplied (x : Float) :
    ((supplied library x).recalculate.2.store.cell? ⟨0, 1⟩).map Cell.calculated = some (.number x) := by
  cbv

theorem ofText_huge : Number.ofText (.ofList ['1', 'e', '9', '9', '9']) = some infinity := by decide

theorem setInput_typed : (Sheet.empty {} library default).setInput ⟨0, 0⟩ "1e999" = .ok (typed library) := by
  rw [setInput_number (by decide) (by decide) ofText_huge]
  rfl

theorem content_typed :
    ((typed library).store.cell? ⟨0, 0⟩).map (Cell.Content.toValue ·.content) = some (.number infinity) := by
  cbv

theorem parse_huge : (Formula.parse (.ofDecimal .period) "=1e999").toExcept = .ok huge := by
  have hnumeral : (Formula.parse (.ofDecimal .period) "=1e999").toExcept.toOption.bind numeral? =
      some (0, infinity, some "1e999") := by
    decide +kernel
  refine eq_ok_of_bind hnumeral fun e he => ?_
  cases e <;> simp [numeral?] at he
  split at he <;> simp_all [huge]

theorem setFormula_overflowing :
    (Sheet.empty {} library default).setFormula ⟨0, 0⟩ "=1e999" = .ok (overflowing library) := by
  simp only [setFormula, Environment.parse, Environment.locale, Sheet.empty, parse_huge]
  cbv

theorem pass_overflowing : (overflowing library).recalculate.1.truncated = false ∧
    ((overflowing library).recalculate.2.store.cell? ⟨0, 0⟩).map Cell.calculated = some (.number infinity) := by
  cbv

end

theorem guarded_below : below.Guarded := by
  intro u hu
  cases List.mem_singleton.1 hu
  trivial

theorem temperate_supplied : (supplied .standard 1.5).Temperate := by
  have hnow : (default : Clock).now.isFinite = true := by decide
  have hnoon : ((default : Clock).midnight + 0.5).isFinite = true := by decide
  have hreading : (reading .standard).Temperate := by
    refine .setFormula (.empty {} ⟨hnow, hnoon⟩) (fun e he => ?_) (setFormula_reading _)
    have hlocale : (Sheet.empty {} .standard default).locale = .ofDecimal .period := rfl
    simp only [Environment.parse, hlocale, parse_below] at he
    cases he
    exact guarded_below
  have htrimmed : Text.trimChars "1.5".toList = ['1', '.', '5'] := by decide
  refine .setInput (.recalculate hreading) (fun c cs hc => ?_) (setInput_supplied _)
  rw [htrimmed, List.cons.injEq] at hc
  obtain ⟨rfl, rfl⟩ := hc
  rw [if_neg (by decide), ofText_oneHalf]
  rintro x ⟨⟩
  decide

/-- Typed into one cell and read by another one, a number is finite in both. -/
theorem finite_supplied : (supplied .standard 1.5).Temperate ∧
    ∃ c, (supplied .standard 1.5).recalculate.2.store.cell? ⟨0, 1⟩ = some c ∧ c.calculated = .number 1.5 ∧
      c.content.toValue.Finite ∧ c.calculated.Finite := by
  obtain ⟨c, hc, hcalculated⟩ := Option.map_eq_some_iff.1 (calculated_supplied .standard 1.5)
  exact ⟨temperate_supplied, c, hc, hcalculated, (Temperate.recalculate temperate_supplied).finite hc⟩

theorem not_finite_infinity : ¬(Value.number infinity).Finite := fun h =>
  absurd (h.number infinity (List.mem_singleton_self _)) (by decide)

/-- Numbers that are too large are not checked: typed, or as a literal of a formula, `1e999` puts infinity into its
cell. -/
theorem not_finite_overflowing :
    (∃ s c, s.Attained True ∧ (Sheet.empty {} .standard default).setInput ⟨0, 0⟩ "1e999" = .ok s ∧
      s.store.cell? ⟨0, 0⟩ = some c ∧ ¬c.content.toValue.Finite) ∧
    ∃ s c, s.recalculate.2.Attained True ∧ (Sheet.empty {} .standard default).setFormula ⟨0, 0⟩ "=1e999" = .ok s ∧
      s.recalculate.2.store.cell? ⟨0, 0⟩ = some c ∧ ¬c.calculated.Finite := by
  have hempty : (Sheet.empty {} .standard default).Attained True := .empty {} _ _ fun _ => rfl
  constructor
  · obtain ⟨c, hc, hcontent⟩ := Option.map_eq_some_iff.1 (content_typed .standard)
    exact ⟨typed .standard, c, .setInput hempty (setInput_typed _), setInput_typed _, hc,
      hcontent ▸ not_finite_infinity⟩
  · obtain ⟨hcut, hcell⟩ := pass_overflowing .standard
    obtain ⟨c, hc, hcalculated⟩ := Option.map_eq_some_iff.1 hcell
    exact ⟨overflowing .standard, c, .recalculate (.setFormula hempty (setFormula_overflowing _)) fun _ => hcut,
      setFormula_overflowing _, hc, hcalculated ▸ not_finite_infinity⟩

end Sheet

end Spreadsheet
