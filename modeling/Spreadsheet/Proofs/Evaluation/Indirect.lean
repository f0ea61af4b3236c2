import Spreadsheet.Proofs.Evaluation.Mentions
import Spreadsheet.Proofs.Formula.Single
import Spreadsheet.Proofs.Function.Standard

/-!
References built from texts. A text that is read as one reference by a formula names the same area when it is the
argument of `INDIRECT`: the same cells are read, and the area that is reported is what the formula depends on.
-/

namespace Spreadsheet

open Formula (StandsFor)

variable {text : String} {e : Expression} {area : Area} {s : Scope}

/-- The area that an expression that is one reference names. -/
def Expression.area? : Expression → Option Area
  | .cell m => some (.between m.target m.target)
  | .range _ r => some r.area
  | _ => none

/-! ### The area that a text names -/

namespace Function

variable {a b : Reference} {ds es : List Char}

theorem areaOfText?_whole (h : StandsFor {} text.toList a) (hcolon : (':', true) ∉ Text.placed false text.toList) :
    areaOfText? text = some (.between a a) := by
  have hnone := h.colon hcolon
  have htake : text.toList.takeWhile (· != ':') = text.toList :=
    List.takeWhile_eq_self_iff.2 fun c hc => bne_iff_ne.2 fun heq => hnone (heq ▸ hc)
  have hcontains : text.toList.contains ':' = false := by simpa using hnone
  unfold areaOfText?
  simp only [htake, h.reads, hcontains]
  rfl

theorem areaOfText?_halves (htext : text.toList = ds ++ ':' :: es) (hds : StandsFor {} ds a) (hes : StandsFor {} es b)
    (hcolon : (':', true) ∉ Text.placed false text.toList) : areaOfText? text = some (.between a b) := by
  have hnone : ':' ∉ ds := by
    rw [htext, hds.quotes] at hcolon
    exact hds.colon fun hmem => hcolon (List.mem_append_left _ hmem)
  have hplain : ∀ c ∈ ds, (c != ':') = true := fun c hc => bne_iff_ne.2 fun heq => hnone (heq ▸ hc)
  have htake : text.toList.takeWhile (· != ':') = ds := by
    rw [htext, List.takeWhile_append_of_pos hplain, List.takeWhile_cons_of_neg (by simp), List.append_nil]
  have hdrop : (text.toList.dropWhile (· != ':')).drop 1 = es := by
    rw [htext, List.dropWhile_append_of_pos hplain, List.dropWhile_cons_of_neg (by simp), List.drop_one, List.tail_cons]
  have hcontains : text.toList.contains ':' = true := by simp [htext]
  unfold areaOfText?
  simp only [htake, hdrop, hds.reads, hes.reads, hcontains]
  rfl

/-- A text names the area of the formula that it is. -/
theorem areaOfText?_of_parse (herror : (Formula.parse {} text).error = none)
    (he : (Formula.parse {} text).expression = some e) (harea : e.area? = some area)
    (hequals : (Text.trimChars text.toList).head? ≠ some '=') (hcolon : (':', true) ∉ Text.placed false text.toList)
    (hempty : ('(', false) ∉ Text.placed false text.toList) : areaOfText? text = some area := by
  obtain ⟨hcell, hrange⟩ := Formula.standsFor_of_parse (.inl rfl) herror he hequals hempty
  unfold Expression.area? at harea
  split at harea
  · rename_i m
    obtain rfl := Option.some.inj harea
    exact areaOfText?_whole (hcell m rfl) hcolon
  · rename_i p r
    obtain rfl := Option.some.inj harea
    obtain ⟨ds, es, htext, hds, hes⟩ := hrange p r rfl
    exact areaOfText?_halves htext hds hes hcolon
  · cases harea

/-- What `INDIRECT` does with a text. -/
theorem apply_indirect {f : Function} (hf : f ∈ indirect) (site : CallSite) (text : String) :
    f.apply site [.text text] = readText site text := by
  rw [indirect, List.mem_singleton] at hf
  rw [hf]
  simp [elementwiseM, argument, Value.isArray, Value.toText, Value.scalar]

theorem run_readText (harea : areaOfText? text = some area) (site : CallSite) (effects : Effects) :
    (readText site text).run effects =
      (if area.first.isOnSheet site.sheet then (site.store.readArea? area).getD (.ofCode .ref) else .ofCode .ref,
      { effects with areas := effects.areas ++ if area.first.isOnSheet site.sheet then [area] else [] }) := by
  unfold readText
  simp only [harea]
  by_cases hsheet : area.first.isOnSheet site.sheet = true
  · simp only [hsheet, if_true]
    rfl
  · simp only [hsheet, Bool.false_eq_true, if_false, List.append_nil]
    rfl

end Function

/-- Among the standard functions `INDIRECT` has its name alone. -/
theorem Library.mem_indirect_of_find? {f : Function} (h : Library.standard.find? "INDIRECT" = some f) :
    f ∈ Function.indirect := by
  have hname : f.name = "INDIRECT" := by
    obtain ⟨-, hnamed⟩ := Library.name_find?_standard "INDIRECT" List.mem_cons_self
    rw [h] at hnamed
    exact Option.some.inj hnamed
  have hothers : ∀ fs ∈ [Function.statistics, Function.arithmetic, Function.logic, Function.tables, Function.calendar,
      Function.information, Function.texts, Function.widgets, Function.complexNumbers, Function.randomNumbers,
      Function.elementary], ∀ g ∈ fs, g.name ≠ "INDIRECT" := by decide
  obtain ⟨fs, hfs, hmem⟩ := Library.mem_of_find?_standard h
  by_cases hindirect : fs = Function.indirect
  · rwa [hindirect] at hmem
  · refine absurd hname (hothers fs ?_ f hmem)
    simpa [hindirect] using hfs

/-! ### The value of a reference -/

namespace Evaluation

theorem readArea?_between {a : Reference} (store : Store) {p : Position} (hp : a.position? = some p) :
    store.readArea? (.between a a) = some (store.read p) := by
  obtain ⟨row, column, fixedRow, fixedColumn, sheet⟩ := a
  cases row <;> cases column <;> cases hp
  simp [Store.readArea?, Area.between, Area.bounds, Area.resolve, Area.takesColumns, Area.takesRows,
    Reference.position?, Store.readBlock]

/-- The value of a reference is that of its area. -/
theorem evaluate_reference (hformed : e.WellFormed) (harea : e.area? = some area) (s : Scope) (g : Progress) :
    (evaluate s e).run g = (areaValue s area, g) := by
  unfold Expression.area? at harea
  split at harea
  · rename_i m
    obtain rfl := Option.some.inj harea
    cases hformed with
    | cell _ hcell =>
      obtain ⟨r, c, hrow, hcolumn, -⟩ := hcell
      have hp : m.target.position? = some ⟨r, c⟩ := by simp [Reference.position?, hrow, hcolumn]
      have hvalue : cellValue s m.target = areaValue s (.between m.target m.target) := by
        unfold cellValue areaValue
        rw [readArea?_between s.store hp]
        simp only [hp, Option.getD_some]
        rfl
      rw [evaluate, ← hvalue]
      rfl
  · rename_i p r
    obtain rfl := Option.some.inj harea
    rw [evaluate]
    rfl
  · cases harea

/-- The call of `INDIRECT` with a text. -/
theorem run_indirect {name : String} {f : Function} (hf : s.library.find? name = some f)
    (hindirect : f ∈ Function.indirect) (harea : Function.areaOfText? text = some area) (p q : Nat)
    (spelling : Option String) (g : Progress) :
    ((evaluate s (.call p name [.literal q (.text text) spelling])).run g).1 = areaValue s area ∧
    ((evaluate s (.call p name [.literal q (.text text) spelling])).run g).2.effects.areas =
      g.effects.areas ++ if area.first.isOnSheet s.sheet then [area] else [] := by
  have happly (site : CallSite) : f.apply site [.text text] = Function.readText site text :=
    Function.apply_indirect hindirect site text
  have hpassing : f.passing 0 = .value := by
    rw [Function.indirect, List.mem_singleton] at hindirect
    rw [hindirect]
    rfl
  have hfill : Function.fillDefaults f.parameters [.text text] = [.text text] := by
    rw [Function.indirect, List.mem_singleton] at hindirect
    rw [hindirect]
    rfl
  have hrefuses : f.refuses [.text text] = false := by simp [Function.refuses, Value.isError]
  have hrun (index : Nat) (g : Progress) : (applyFunction s f index (some [.text text])).run g =
      (areaValue s area,
      { g with effects.areas := g.effects.areas ++ if area.first.isOnSheet s.sheet then [area] else [] }) := by
    simp only [applyFunction, hfill, hrefuses, Bool.false_eq_true, if_false, happly, act]
    have hread := Function.run_readText harea ⟨s.position, index, s.store, s.sheet, s.clock⟩ g.effects
    rw [StateT.run] at hread ⊢
    simp only [modifyGet, MonadStateOf.modifyGet, StateT.modifyGet, StateT.run, hread]
    rfl
  have harguments (g : Progress) : (evaluateArguments s f 0 [.literal q (.text text) spelling]).run g =
      (some [.text text], g) := by
    simp only [evaluateArguments, hpassing, passArgument, evaluate]
    rfl
  have hbind {α β : Type} (x : Id α) (k : α → Id β) : x >>= k = k x := rfl
  rw [evaluate]
  simp only [hf, StateT.run_bind, harguments, hbind, hrun]
  exact ⟨trivial, rfl⟩

end Evaluation

namespace Dependencies

theorem ofExpression_reference (harea : e.area? = some area) (hformed : e.WellFormed) (names : Std.TreeMap String Area)
    (sheet : String) :
    ofExpression names sheet e = if area.first.isOnSheet sheet then addArea {} area else {} := by
  unfold Expression.area? at harea
  split at harea
  · rename_i m
    obtain rfl := Option.some.inj harea
    cases hformed with
    | cell _ hcell =>
      obtain ⟨r, c, hrow, hcolumn, -⟩ := hcell
      have hp : m.target.position? = some ⟨r, c⟩ := by simp [Reference.position?, hrow, hcolumn]
      have hcell? : (Area.between m.target m.target).cell? = some ⟨r, c⟩ := by
        simp [Area.cell?, Area.size?, Area.topLeft?, Area.between, Area.bounds, Reference.position?, hrow, hcolumn]
      have hfirst : (Area.between m.target m.target).first.isOnSheet sheet = m.target.isOnSheet sheet := rfl
      simp [ofExpression, Expression.walk, addUnit, addArea, hp, hcell?, hfirst]
  · rename_i p r
    obtain rfl := Option.some.inj harea
    have hfirst : r.area.first.isOnSheet sheet = r.first.target.isOnSheet sheet := rfl
    simp [ofExpression, Expression.walk, entersUnit, addUnit, hfirst]
  · cases harea

/-- The cells of an area that is all that is read. -/
theorem mentions_addArea_empty (hordered : area.Ordered) (p : Position) :
    (addArea {} area).Mentions p ↔ area.contains p = true := by
  refine ⟨fun h => ?_, fun h => mentions_addArea {} h⟩
  unfold addArea at h
  split at h
  · rename_i q hq
    obtain rfl : p = q := by simpa [Mentions, addCell] using h
    obtain ⟨⟨top, left, _, _, _⟩, ⟨bottom, right, _, _, _⟩⟩ := area
    unfold Area.cell? at hq
    split at hq
    · cases top <;> cases left <;> cases hq
      obtain ⟨hrows, hcolumns⟩ := hordered
      cases bottom <;> cases right <;> simp_all [Area.AxisOrdered, Area.contains, Area.axisContains]
    · cases hq
  · simpa [Mentions] using h

end Dependencies

/-! ### Reading a reference either way -/

namespace Expression

/-- `INDIRECT` of a text reads what the formula of the text reads, and reports the area that the formula depends on; it
reports nothing of another sheet. The text is one reference as a formula, the names of sheets in it have no colons, and
parentheses are open in these names only: a formula may have empty parentheses next to a reference, but a text may
not. -/
theorem calculate_indirect (herror : (Formula.parse {} text).error = none)
    (he : (Formula.parse {} text).expression = some e) (harea : e.area? = some area)
    (hequals : (Text.trimChars text.toList).head? ≠ some '=') (hcolon : (':', true) ∉ Text.placed false text.toList)
    (hempty : ('(', false) ∉ Text.placed false text.toList) (hlibrary : s.library = Library.standard)
    (model : Simulation.Model) (p q : Nat) (spelling : Option String) :
    let named := (call p "INDIRECT" [.literal q (.text text) spelling]).calculate s model
    named.value = (e.calculate s model).value ∧
    (∀ c, (∃ a ∈ named.areas, a.contains c = true) ↔ (Dependencies.ofExpression s.names s.sheet e).Mentions c) ∧
    named.areas = if area.first.isOnSheet s.sheet then [area] else [] := by
  have hformed : e.WellFormed := Formula.wellFormed_of_parse herror he
  have hordered : area.Ordered := by
    unfold area? at harea
    split at harea
    · obtain rfl := Option.some.inj harea
      exact Area.ordered_between _ _
    · obtain rfl := Option.some.inj harea
      exact Area.ordered_between _ _
    · cases harea
  have hnamed := Function.areaOfText?_of_parse herror he harea hequals hcolon hempty
  obtain ⟨f, hf, -⟩ := Option.map_eq_some_iff.1 (Library.name_find?_standard "INDIRECT" List.mem_cons_self).2
  obtain ⟨hvalue, hareas⟩ := Evaluation.run_indirect (hlibrary ▸ hf) (Library.mem_indirect_of_find? hf) hnamed p q
    spelling { effects := { model } }
  have hreference : (e.calculate s model).value = Evaluation.areaValue s area :=
    congrArg Prod.fst (Evaluation.evaluate_reference hformed harea s { effects := { model } })
  have hareas : ((call p "INDIRECT" [.literal q (.text text) spelling]).calculate s model).areas =
      if area.first.isOnSheet s.sheet then [area] else [] := hareas
  refine ⟨Eq.trans hvalue hreference.symm, fun c => ?_, hareas⟩
  rw [hareas, Dependencies.ofExpression_reference harea hformed]
  split
  · rw [Dependencies.mentions_addArea_empty hordered]
    simp
  · simp [Dependencies.not_mentions_empty]

theorem calculate_indirect_block : ∃ e area, (Formula.parse {} " 'Sheet1'!a1 : B2").expression = some e ∧
    e.area? = some area ∧ ∀ (store : Store) (clock : Clock) (model : Simulation.Model),
      let s : Scope := { store, library := .standard, clock, position := ⟨5, 5⟩ }
      let named := (call 0 "INDIRECT" [.literal 9 (.text " 'Sheet1'!a1 : B2") none]).calculate s model
      named.value = (e.calculate s model).value ∧ named.areas = [area] := by
  obtain ⟨e, he⟩ := Option.isSome_iff_exists.1
    (show (Formula.parse {} " 'Sheet1'!a1 : B2").expression.isSome = true by decide +kernel)
  have hchecked : ∀ e ∈ (Formula.parse {} " 'Sheet1'!a1 : B2").expression,
      e.area? = some (.between { Reference.ofPosition ⟨0, 0⟩ with sheet := some "Sheet1" } (.ofPosition ⟨1, 1⟩)) := by
    decide +kernel
  refine ⟨e, _, he, hchecked e he, fun store clock model => ?_⟩
  have hlibrary : ({ store, library := .standard, clock, position := ⟨5, 5⟩ } : Scope).library = Library.standard := by
    dsimp only
  obtain ⟨hvalue, -, hareas⟩ := calculate_indirect (by decide +kernel) he (hchecked e he) (by decide +kernel)
    (by decide +kernel) (by decide +kernel) hlibrary model 0 9 none
  have hsheet : ({ Reference.ofPosition ⟨0, 0⟩ with sheet := some "Sheet1" } : Reference).isOnSheet "Sheet1" = true :=
    by decide
  exact ⟨hvalue, hareas.trans (if_pos hsheet)⟩

/-- Empty parentheses are passed over in a formula, but are not part of a reference. -/
theorem indirect_of_parentheses : ∃ e ∈ (Formula.parse {} "()A1").expression,
    (Formula.parse {} "()A1").error = none ∧ e.area? = some (.single ⟨0, 0⟩) ∧
    (Text.trimChars "()A1".toList).head? ≠ some '=' ∧ (':', true) ∉ Text.placed false "()A1".toList ∧
    let s : Scope := { store := {}, library := .standard, clock := ⟨0, 0⟩, position := ⟨5, 5⟩ }
    ((call 0 "INDIRECT" [.literal 9 (.text "()A1") none]).calculate s (.ofSeed 1)).value.isError = true ∧
      (e.calculate s (.ofSeed 1)).value.isError = false := by
  decide +kernel

end Expression

end Spreadsheet
