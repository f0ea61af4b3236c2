import Spreadsheet.Evaluation
import Spreadsheet.Function.Standard
import Spreadsheet.Proofs.Function.Standard
import Spreadsheet.Proofs.Value.Broadcast

/-!
Functions that do what operators do. `MOD` and `POWER` combine their arguments by another rule than the operators `%` and
`^`, coerce them on their own and look at no errors; on operands without errors they give the same, as values and in
formulas, `POWER` as long as no operand is properly complex.
-/

namespace Spreadsheet

namespace Value

variable {v a b : Value} {f g : Value → Value → Value}

/-- What stands in the columns of a value, column by column; a scalar is its own element. -/
def elements (v : Value) : List Value := v.columns.flatten

/-- A value none of whose elements is an error, also not one that is the only cell of an array. What is deeper inside an
element is never looked at. -/
def Faultless (v : Value) : Prop := ∀ u ∈ v.elements, u.scalar.isError = false

/-- A value none of whose elements is a complex number that is not real, also not the only cell of an array. -/
def RealValued (v : Value) : Prop := ∀ u ∈ v.elements, Operator.isProperlyComplex u = false

theorem elements_scalar (h : v.Regular) (hscalar : v.isArray = false) : v.elements = [v] := by
  cases v with
  | array cs => cases hscalar
  | metadata p u format => exact absurd rfl (h.plain p u format)
  | _ => rfl

theorem mem_elements {u : Value} : u ∈ v.elements ↔ ∃ column ∈ v.columns, u ∈ column :=
  List.mem_flatten

theorem Faultless.isError (h : v.Faultless) : v.isError = false := by
  cases v with
  | error e => exact h _ (List.mem_singleton_self _)
  | _ => rfl

/-- What stands at a place in a list is a member of it, and beyond its end there is the default. -/
theorem getD_mem_or {α : Type} (xs : List α) (i : Nat) (d : α) : xs.getD i d = d ∨ xs.getD i d ∈ xs := by
  rw [List.getD_eq_getElem?_getD]
  cases hi : xs[i]? with
  | none => exact .inl rfl
  | some x => exact .inr (List.mem_of_getElem? hi)

/-- A place reads an element, or nothing where there are no elements. -/
theorem readAt_cases (h : v.Regular) (c r : Nat) : v.readAt c r = .undefined ∨ v.readAt c r ∈ v.elements := by
  rw [readAt_columns h.plain, wrappedAt, mem_elements]
  rcases getD_mem_or v.columns (c % v.columns.length) [] with hcolumn | hcolumn
  · rw [hcolumn]
    exact .inl rfl
  · refine (getD_mem_or _ _ _).imp_right fun hu => ⟨_, hcolumn, hu⟩

/-- Combining operands depends only on what the function gives for their elements and for nothing. -/
theorem zip_congr (ha : a.Regular) (hb : b.Regular)
    (h : ∀ u, u = .undefined ∨ u ∈ a.elements → ∀ w, w = .undefined ∨ w ∈ b.elements → f u w = g u w) :
    Value.zip f a b = Value.zip g a b := by
  by_cases harray : a.isArray = true ∨ b.isArray = true
  · rw [zip_eq ha hb harray, zip_eq ha hb harray]
    congr 1
    refine List.map_congr_left fun c _ => List.map_congr_left fun r _ => ?_
    exact h _ (readAt_cases ha c r) _ (readAt_cases hb c r)
  · obtain ⟨hleft, hright⟩ := not_or.1 harray
    have hsame : f a b = g a b := by
      refine h a (.inr ?_) b (.inr ?_)
      · rw [elements_scalar ha (by simpa using hleft)]
        exact List.mem_singleton_self a
      · rw [elements_scalar hb (by simpa using hright)]
        exact List.mem_singleton_self b
    simp only [Value.zip, hleft, hright, Bool.not_false, Bool.and_self, if_true, hsame]

end Value

/-! ### Two scalars -/

namespace Operator

variable {symbol : String} {op : Arithmetic} {u w : Value}

/-- On scalars that are no errors an operator of arithmetic works on their numbers, unless one of them is properly
complex and it has a meaning for complex numbers. -/
theorem applyScalars_arithmetic (hsymbol : meaning? symbol = some (.arithmetic op)) (hu : u.scalar.isError = false)
    (hw : w.scalar.isError = false)
    (hreal : op = .remainder ∨ isProperlyComplex u = false ∧ isProperlyComplex w = false) :
    applyScalars symbol u w = Value.ofExcept (fun p => onNumbers op p.1 p.2) (Function.twoNumbers u w) := by
  have hnumbers : (op != .remainder && (isProperlyComplex u || isProperlyComplex w)) = false := by
    rcases hreal with rfl | ⟨hu, hw⟩
    · rfl
    · rw [hu, hw]
      exact Bool.and_false _
  have hmeaning : applyScalars symbol u w = arithmetic op u w := by
    unfold applyScalars
    split
    · rename_i hscalar
      rw [hscalar] at hu
      cases hu
    · rename_i hscalar _
      rw [hscalar] at hw
      cases hw
    · rw [hsymbol]
      rfl
  rw [hmeaning, arithmetic, hnumbers]
  rfl

end Operator

namespace Function

open Value

variable {op : Operator.Arithmetic} {symbol : String} {a b : Value}

/-! ### Two values -/

/-- A function of two numbers combines its arguments place by place. -/
theorem ofTwoNumbers_pair (f : Float → Float → Value) (ha : a.Regular) (hb : b.Regular) :
    ofTwoNumbers f [a, b] = Value.zip (fun u w => Value.ofExcept (fun p => f p.1 p.2) (twoNumbers u w)) a b := by
  rw [← elementwise_of_elementwise? (elementwise?_pair ha hb)]
  unfold ofTwoNumbers ofTwoNumbersM elementwise ofPair
  congr 2
  funext xs
  simp only
  cases twoNumbers (argument xs 0) (argument xs 1) with
  | error e => rfl
  | ok p => rfl

/-- The function that works on numbers as an operator does gives what the operator gives. -/
theorem ofTwoNumbers_onNumbers (ha : a.Regular) (hb : b.Regular) (hfa : a.Faultless) (hfb : b.Faultless)
    (hsymbol : Operator.meaning? symbol = some (.arithmetic op)) (hreal : op = .remainder ∨ a.RealValued ∧ b.RealValued) :
    ofTwoNumbers (Operator.onNumbers op) [a, b] = Operator.applyBinary symbol a b := by
  rw [ofTwoNumbers_pair _ ha hb, Operator.applyBinary]
  refine zip_congr ha hb fun u hu w hw => ?_
  have herror {v x : Value} (hv : v.Faultless) (hx : x = .undefined ∨ x ∈ v.elements) : x.scalar.isError = false := by
    rcases hx with rfl | hx
    · rfl
    · exact hv x hx
  have hcomplex {v x : Value} (hv : v.RealValued) (hx : x = .undefined ∨ x ∈ v.elements) :
      Operator.isProperlyComplex x = false := by
    rcases hx with rfl | hx
    · rfl
    · exact hv x hx
  exact (Operator.applyScalars_arithmetic hsymbol (herror hfa hu) (herror hfb hw)
    (hreal.imp_right fun h => ⟨hcomplex h.1 hu, hcomplex h.2 hw⟩)).symm

/-! ### Formulas -/

/-- A function of two values that takes them as they are and has no effects. -/
structure TakesPair (f : Function) (k : Value → Value → Value) : Prop where
  passing : ∀ i, f.passing i = .value
  volatile : ∀ simulating, f.isVolatile simulating = false
  fill : ∀ a b, fillDefaults f.parameters [a, b] = [a, b]
  apply : ∀ site a b, f.apply site [a, b] = pure (k a b)

theorem takesPair_plain (name first second description : String) (k : List Value → Value) :
    (plain name [{ name := first }, { name := second }] k description).TakesPair fun a b => k [a, b] where
  passing i := by
    match i with
    | 0 | 1 | _ + 2 => rfl
  volatile _ := rfl
  fill a b := by simp [plain, fillDefaults]
  apply _ _ _ := rfl

end Function

namespace Evaluation

variable {s : Scope} {f : Function} {k : Value → Value → Value} {x y : Expression} {a b : Value} {g g₁ g₂ : Progress}

theorem run_arguments_pair (hpassing : ∀ i, f.passing i = .value) (hx : (evaluate s x).run g = (a, g₁))
    (hy : (evaluate s y).run g₁ = (b, g₂)) : (evaluateArguments s f 0 [x, y]).run g = (some [a, b], g₂) := by
  have hbind {α β : Type} (x : Id α) (k : α → Id β) : x >>= k = k x := rfl
  have hmap {α β : Type} (f : α → β) (x : Id α) : f <$> x = f x := rfl
  simp only [evaluateArguments, hpassing, passArgument, StateT.run_bind, StateT.run_map, hx, hy, hbind, hmap]
  rfl

/-- A call of a function of two values, neither of which is an error, evaluates the arguments one after the other and
gives what the function gives. -/
theorem evaluate_call_pair {name : String} (hf : s.library.find? name = some f) (hpair : f.TakesPair k)
    (hx : (evaluate s x).run { g with calls := g.calls + 1 } = (a, g₁)) (hy : (evaluate s y).run g₁ = (b, g₂))
    (ha : a.isError = false) (hb : b.isError = false) (n : Nat) :
    (evaluate s (.call n name [x, y])).run g = (k a b, g₂) := by
  have hrefuses : f.refuses [a, b] = false := by simp [Function.refuses, ha, hb]
  have hnote (g : Progress) : (noteVolatile f).run g = ((), g) := by
    have hsame : { g with volatile := g.volatile || f.isVolatile g.effects.model.isActive } = g := by
      rw [hpair.volatile, Bool.or_false]
    exact congrArg (Prod.mk ()) hsame
  have happly (index : Nat) : (applyFunction s f index (some [a, b])).run g₂ = (k a b, g₂) := by
    simp only [applyFunction, hpair.fill, hrefuses, Bool.false_eq_true, if_false, hpair.apply]
    rfl
  have hbind {α β : Type} (x : Id α) (k : α → Id β) : x >>= k = k x := rfl
  have hcount : countCall.run g = (g.calls + 1, { g with calls := g.calls + 1 }) := rfl
  rw [evaluate]
  simp only [hf, StateT.run_bind, hbind, hcount, hnote, run_arguments_pair hpair.passing hx hy, happly]

/-- An operator evaluates its operands one after the other. -/
theorem evaluate_binary {symbol : String} (hx : (evaluate s x).run g = (a, g₁)) (hy : (evaluate s y).run g₁ = (b, g₂))
    (n : Nat) : (evaluate s (.binary n symbol x y)).run g = (Operator.applyBinary symbol a b, g₂) := by
  have hbind {α β : Type} (x : Id α) (k : α → Id β) : x >>= k = k x := rfl
  rw [evaluate]
  simp only [StateT.run_bind, hbind, hx, hy]
  rfl

end Evaluation

/-! ### The two functions -/

namespace Function

variable {f : Function}

/-- What the function of a name does with two values, among the functions of arithmetic. -/
theorem takesPair_arithmetic (hf : f ∈ arithmetic) :
    (f.name = "MOD" → f.TakesPair fun a b => ofTwoNumbers (Operator.onNumbers .remainder) [a, b]) ∧
      (f.name = "POWER" → f.TakesPair fun a b => ofTwoNumbers (Operator.onNumbers .power) [a, b]) := by
  have hothers : ∀ g ∈ arithmetic.drop 2, g.name ≠ "MOD" ∧ g.name ≠ "POWER" := by decide
  rw [← List.take_append_drop 2 arithmetic, List.mem_append] at hf
  rcases hf with hf | hf
  · simp only [arithmetic, List.take_succ_cons, List.take_zero, List.mem_cons, List.not_mem_nil, or_false] at hf
    rcases hf with rfl | rfl
    · exact ⟨fun h => absurd h (by decide), fun _ => takesPair_plain ..⟩
    · exact ⟨fun _ => takesPair_plain .., fun h => absurd h (by decide)⟩
  · obtain ⟨hmodulo, hpower⟩ := hothers f hf
    exact ⟨fun h => absurd h hmodulo, fun h => absurd h hpower⟩

end Function

namespace Library

theorem find?_of_upper {l : Library} {name key : String} (h : Text.upper name = Text.upper key) :
    l.find? name = l.find? key := by
  unfold find?
  rw [h]

/-- The names of the two functions are found among the functions of arithmetic. -/
theorem find?_standard_arithmetic {name key : String} (hkey : key = "MOD" ∨ key = "POWER")
    (hname : Text.upper name = key) :
    ∃ f, standard.find? name = some f ∧ f.name = key ∧ f ∈ Function.arithmetic := by
  obtain ⟨hupper, hnamed⟩ := name_find?_standard key (by rcases hkey with rfl | rfl <;> simp)
  obtain ⟨f, hf, hfname⟩ := Option.map_eq_some_iff.1 hnamed
  have hothers : ∀ fs ∈ [Function.statistics, Function.logic, Function.tables, Function.calendar, Function.information,
      Function.texts, Function.widgets, Function.complexNumbers, Function.randomNumbers, Function.indirect,
      Function.elementary], ∀ g ∈ fs, g.name ≠ "MOD" ∧ g.name ≠ "POWER" := by decide
  refine ⟨f, (find?_of_upper (hname.trans hupper.symm)).trans hf, hfname, ?_⟩
  obtain ⟨fs, hfs, hmem⟩ := mem_of_find?_standard hf
  by_cases harithmetic : fs = Function.arithmetic
  · rwa [harithmetic] at hmem
  · obtain ⟨hmodulo, hpower⟩ := hothers fs (by simpa [harithmetic] using hfs) f hmem
    rcases hkey with rfl | rfl
    · exact absurd hfname hmodulo
    · exact absurd hfname hpower

end Library

/-- A standard function and an operator give the same for two values, called with them and in formulas whose operands
have these values. -/
structure Counterpart (name symbol : String) (a b : Value) : Prop where
  /-- Wherever it is called, the function gives what the operator gives, and does nothing else. -/
  applied : ∃ f, Library.standard.find? name = some f ∧
    ∀ site, f.apply site [a, b] = pure (Operator.applyBinary symbol a b)
  /-- Once the call has been counted, the two formulas have the same value and leave the same behind. -/
  evaluated : ∀ (s : Scope) (x y : Expression) (g g₁ g₂ : Evaluation.Progress), s.library = .standard →
    (Evaluation.evaluate s x).run { g with calls := g.calls + 1 } = (a, g₁) →
    (Evaluation.evaluate s y).run g₁ = (b, g₂) → ∀ m n,
      (Evaluation.evaluate s (.call m name [x, y])).run g = (Operator.applyBinary symbol a b, g₂) ∧
      (Evaluation.evaluate s (.binary n symbol x y)).run { g with calls := g.calls + 1 } =
        (Operator.applyBinary symbol a b, g₂)

namespace Counterpart

variable {name symbol : String} {f : Function} {k : Value → Value → Value} {a b : Value}

theorem of_takesPair (hf : Library.standard.find? name = some f) (hpair : f.TakesPair k)
    (hsame : k a b = Operator.applyBinary symbol a b) (ha : a.isError = false) (hb : b.isError = false) :
    Counterpart name symbol a b where
  applied := ⟨f, hf, fun site => by rw [hpair.apply, hsame]⟩
  evaluated s x y g g₁ g₂ hlibrary hx hy m n := by
    refine ⟨?_, Evaluation.evaluate_binary hx hy n⟩
    rw [← hsame]
    exact Evaluation.evaluate_call_pair (hlibrary ▸ hf) hpair hx hy ha hb m

end Counterpart

/-- For any two values without wrappers and errors, each with columns of one height, `MOD` in any spelling gives what `%`
gives, and so does `POWER` what `^` gives if all their elements that are complex are real. -/
theorem counterparts_of_faultless {a b : Value} (ha : a.Regular) (hb : b.Regular) (hfa : a.Faultless) (hfb : b.Faultless) :
    (∀ name, Text.upper name = "MOD" → Counterpart name "%" a b) ∧
      (a.RealValued → b.RealValued → ∀ name, Text.upper name = "POWER" → Counterpart name "^" a b) := by
  have hna : a.isError = false := hfa.isError
  have hnb : b.isError = false := hfb.isError
  refine ⟨fun name hname => ?_, fun hra hrb name hname => ?_⟩
  · obtain ⟨f, hf, hfname, hmem⟩ := Library.find?_standard_arithmetic (.inl rfl) hname
    exact .of_takesPair hf ((Function.takesPair_arithmetic hmem).1 hfname)
      (Function.ofTwoNumbers_onNumbers ha hb hfa hfb rfl (.inl rfl)) hna hnb
  · obtain ⟨f, hf, hfname, hmem⟩ := Library.find?_standard_arithmetic (.inr rfl) hname
    exact .of_takesPair hf ((Function.takesPair_arithmetic hmem).2 hfname)
      (Function.ofTwoNumbers_onNumbers ha hb hfa hfb rfl (.inr ⟨hra, hrb⟩)) hna hnb

/-- A row of a text, a text that spells a number and an array in an array, against a column of a real complex number and
nothing: errors stand where a coercion fails and where the divisor is zero. -/
theorem counterparts_uneven :
    let row : Value := .array [[.text "x"], [.text " 7 "], [.array [[.number 1, .number 2]]]]
    let column : Value := .array [[.complex ⟨4, 0⟩, .undefined]]
    Counterpart "mod" "%" row column ∧ Counterpart "POWER" "^" row column ∧
      (Operator.applyBinary "%" row column == .array [[.ofCode .value, .ofCode .value], [.number 3, .ofCode .div0],
        [.ofCode .value, .ofCode .value]]) = true := by
  intro row column
  have hrow : row.Regular := ⟨by simp [row, Value.Level, Value.columns, Value.height], by simp [row]⟩
  have hcolumn : column.Regular := ⟨by simp [column, Value.Level, Value.columns, Value.height], by simp [column]⟩
  have hfaultless : row.Faultless ∧ column.Faultless := by
    simp [Value.Faultless, Value.elements, row, column, Value.columns, Value.scalar, Value.isError]
  have hreal : row.RealValued ∧ column.RealValued := by
    simp [Value.RealValued, Value.elements, row, column, Value.columns, Operator.isProperlyComplex, Value.scalar]
    decide
  obtain ⟨hmodulo, hpower⟩ := counterparts_of_faultless hrow hcolumn hfaultless.1 hfaultless.2
  exact ⟨hmodulo "mod" (by decide), hpower hreal.1 hreal.2 "POWER" (by decide), by decide⟩

end Spreadsheet
