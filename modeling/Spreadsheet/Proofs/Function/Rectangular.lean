import Spreadsheet.Proofs.Function.Demand
import Spreadsheet.Proofs.Value.Rectangular

/-!
Functions that give rectangular values for rectangular arguments in rectangular stores. All functions of the standard
library do: most give scalars, and those that build arrays give all columns the same number of rows.
-/

namespace Spreadsheet

/-- A loop that always runs to its end gives one result for each round, with the property of the rounds. -/
theorem Yields.mapM_length {σ α β : Type} {P : α → Prop} {f : β → StateM σ α} {bs : List β}
    (hf : ∀ b ∈ bs, Yields P (f b)) : Yields (fun as => as.length = bs.length ∧ ∀ a ∈ as, P a) (bs.mapM f) := by
  induction bs with
  | nil => exact .pure ⟨rfl, fun _ h => absurd h List.not_mem_nil⟩
  | cons b bs ih =>
    rw [List.forall_mem_cons] at hf
    rw [List.mapM_cons]
    exact hf.1.bind fun a ha => (ih hf.2).bind fun as has =>
      .pure ⟨congrArg (· + 1) has.1, List.forall_mem_cons.2 ⟨ha, has.2⟩⟩

namespace Function

open Value (AllRectangular rectangular_array rectangular_of_columns rectangular_ofExcept)

variable {σ : Type} {f : List Value → Value} {vs : List Value} {v : Value}

/-- A function that gives rectangular values for rectangular arguments in rectangular stores, and whose defaults are
rectangular. -/
structure Rectangular (f : Function) : Prop where
  defaults : ∀ p ∈ f.parameters, ∀ v ∈ p.default, v.Rectangular
  apply : ∀ site vs, site.store.Rectangular → AllRectangular vs → Yields Value.Rectangular (f.apply site vs)

/-- What is done with arguments gives rectangular values for rectangular ones. -/
def KeepsRectangular (f : List Value → Value) : Prop := ∀ vs, AllRectangular vs → (f vs).Rectangular

/-! ### Arguments -/

theorem rectangular_argument (h : AllRectangular vs) (i : Nat) : (argument vs i).Rectangular :=
  h.getD Value.rectangular_undefined i

theorem allRectangular_scalars (vs : List Value) : AllRectangular (scalars vs) := by
  intro v hv
  obtain ⟨w, -, hv⟩ := List.mem_flatMap.1 hv
  exact Value.allRectangular_flatten w v hv

/-- Applied element by element, an action gives an array of the common shape, which is rectangular if its elements
are. -/
theorem yields_rectangular_elementwiseM {f : List Value → StateM σ Value}
    (hf : ∀ xs, Yields Value.Rectangular (f xs)) (vs : List Value) :
    Yields Value.Rectangular (elementwiseM f vs) := by
  unfold elementwiseM
  split
  · simp only
    exact (Yields.mapM fun c _ => .mapM_length fun r _ => hf _).bind fun columns hcolumns =>
      .pure (rectangular_of_columns hcolumns)
  · exact hf vs

theorem rectangular_elementwise (hf : ∀ xs, (f xs).Rectangular) (vs : List Value) : (elementwise f vs).Rectangular := by
  rw [elementwise_eq]
  exact yields_rectangular_elementwiseM (fun xs => .pure (hf xs)) vs ()

theorem rectangular_ofOneNumber {f : Float → Value} (hf : ∀ x, (f x).Rectangular) (vs : List Value) :
    (ofOneNumber f vs).Rectangular :=
  rectangular_elementwise (fun _ => rectangular_ofExcept hf) _

theorem yields_rectangular_ofTwoNumbersM {f : Float → Float → StateM σ Value}
    (hf : ∀ x y, Yields Value.Rectangular (f x y)) (vs : List Value) :
    Yields Value.Rectangular (ofTwoNumbersM f vs) := by
  refine yields_rectangular_elementwiseM (fun xs => ?_) _
  split
  · exact hf _ _
  · exact .pure (Value.rectangular_error _)

theorem rectangular_ofTwoNumbers {f : Float → Float → Value} (hf : ∀ x y, (f x y).Rectangular) (vs : List Value) :
    (ofTwoNumbers f vs).Rectangular := by
  rw [ofTwoNumbers_eq]
  exact rectangular_elementwise (fun _ => rectangular_ofExcept fun (p : Float × Float) => hf p.1 p.2) _

theorem rectangular_plain {name description : String} {parameters : List Parameter}
    (hdefaults : ∀ p ∈ parameters, ∀ v ∈ p.default, v.Rectangular) (hf : KeepsRectangular f) :
    (plain name parameters f description).Rectangular :=
  ⟨hdefaults, fun _ vs _ h => .pure (hf vs h)⟩

/-- A function without effects whose results are rectangular for any arguments. -/
theorem rectangular_plain_of_any {name description : String} {parameters : List Parameter}
    (hdefaults : ∀ p ∈ parameters, ∀ v ∈ p.default, v.Rectangular) (hf : ∀ vs, (f vs).Rectangular) :
    (plain name parameters f description).Rectangular :=
  rectangular_plain hdefaults fun vs _ => hf vs

/-! ### Sums, means and counts -/

theorem rectangular_addAll (t : Total) (vs : List Value) : (addAll t vs).Rectangular := by
  fun_induction addAll t vs <;> simp_all

theorem rectangular_multiplyAll (product : Float) (vs : List Value) : (multiplyAll product vs).Rectangular := by
  fun_induction multiplyAll product vs <;> simp_all

theorem rectangular_mean (vs : List Value) : (mean vs).Rectangular := by
  unfold mean
  split <;> simp

theorem rectangular_extreme (choose : Float → Float → Float) (vs : List Value) :
    (extreme choose vs).Rectangular := by
  unfold extreme
  split <;> simp

theorem rectangular_sumOfProducts (sum : Float) (rows : List (List Value)) :
    (sumOfProducts sum rows).Rectangular := by
  fun_induction sumOfProducts sum rows <;> simp_all

theorem rectangular_sumProduct (vs : List Value) : (sumProduct vs).Rectangular := by
  unfold sumProduct
  simp only
  split
  · simp
  · split
    · simp
    · exact rectangular_sumOfProducts 0 _

theorem rectangular_statistics : ∀ f ∈ statistics, f.Rectangular := by
  simp only [statistics, List.forall_mem_cons]
  exact ⟨rectangular_plain_of_any (by simp) fun vs => rectangular_addAll {} (scalars vs),
    rectangular_plain_of_any (by simp) fun vs => rectangular_multiplyAll 1 (scalars vs),
    rectangular_plain_of_any (by simp) rectangular_mean,
    rectangular_plain_of_any (by simp) (rectangular_extreme _),
    rectangular_plain_of_any (by simp) (rectangular_extreme _),
    rectangular_plain_of_any (by simp) fun _ => Value.rectangular_number _,
    rectangular_plain_of_any (by simp) fun _ => Value.rectangular_number _,
    rectangular_plain_of_any (by simp) rectangular_sumProduct, by simp⟩

/-! ### Powers, logarithms and rounding -/

theorem rectangular_significant (x digits : Float) : (significant x digits).Rectangular := by
  unfold significant
  simp only
  split <;> simp

theorem rectangular_modulo (x y : Float) : (modulo x y).Rectangular := by
  unfold modulo
  split <;> simp

theorem rectangular_absolute (v : Value) : (absolute v).Rectangular := by
  unfold absolute
  split
  · simp
  · exact rectangular_ofExcept fun x => Value.rectangular_number _

theorem rectangular_normal (xs : List Value) : (normal xs).Rectangular := by
  unfold normal
  split
  · split <;> simp
  · simp

theorem rectangular_arithmetic : ∀ f ∈ arithmetic, f.Rectangular := by
  simp only [arithmetic, List.forall_mem_cons]
  exact ⟨rectangular_plain_of_any (by simp) (rectangular_ofTwoNumbers fun _ _ => Value.rectangular_ofNumber _),
    rectangular_plain_of_any (by simp) (rectangular_ofTwoNumbers rectangular_modulo),
    rectangular_plain_of_any (by simp) (rectangular_ofTwoNumbers fun _ _ => Value.rectangular_ofNumber _),
    rectangular_plain_of_any (by simp) (rectangular_ofOneNumber fun _ => Value.rectangular_ofNumber _),
    rectangular_plain_of_any (by simp) (rectangular_ofOneNumber fun _ => Value.rectangular_ofNumber _),
    rectangular_plain_of_any (by simp) (rectangular_ofTwoNumbers fun _ _ => Value.rectangular_ofNumber _),
    rectangular_plain_of_any (by simp) (rectangular_ofTwoNumbers fun _ _ => Value.rectangular_ofNumber _),
    rectangular_plain_of_any (by simp) (rectangular_ofTwoNumbers rectangular_significant),
    rectangular_plain_of_any (by simp) fun _ => rectangular_elementwise (fun _ => rectangular_absolute _) _,
    rectangular_plain_of_any (by simp) (rectangular_ofOneNumber fun _ => Value.rectangular_ofNumber _),
    rectangular_plain_of_any (by simp) fun _ => rectangular_elementwise rectangular_normal _,
    rectangular_plain_of_any (by simp) (rectangular_ofOneNumber fun _ => Value.rectangular_number _),
    rectangular_plain_of_any (by simp) (rectangular_ofOneNumber fun _ => Value.rectangular_number _), by simp⟩

/-! ### Conditions -/

theorem keepsRectangular_negation : KeepsRectangular negation := by
  intro vs h
  unfold negation
  split
  · simp
  · exact (h _ List.mem_cons_self).map fun u _ => Value.rectangular_boolean _
  · simp

theorem rectangular_branchAt (h : v.Rectangular) (c r : Nat) : (branchAt v c r).Rectangular := by
  unfold branchAt
  split
  · exact (Value.allRectangular_getD (rectangular_array.1 h).2 c).getD Value.rectangular_undefined r
  · exact h

/-- A choice for each element has the shape of the condition, whatever the branches look like. -/
theorem keepsRectangular_choice : KeepsRectangular choice := by
  intro vs h
  have hbranch (b : Prop) [Decidable b] : (if b then argument vs 1 else argument vs 2).Rectangular := by
    split
    · exact rectangular_argument h 1
    · exact rectangular_argument h 2
  unfold choice
  simp only
  split
  · rename_i columns hcondition
    have hlevel := (rectangular_array.1 (hcondition ▸ rectangular_argument h 0)).1
    refine rectangular_of_columns (n := Value.height columns) (List.forall_mem_map.2 fun p hp => ⟨?_, ?_⟩)
    · rw [List.length_map, List.length_zipIdx, hlevel p.1 (List.fst_mem_of_mem_zipIdx hp)]
    · exact List.forall_mem_map.2 fun q _ => rectangular_branchAt (hbranch _) _ _
  · exact hbranch _

theorem keepsRectangular_withoutError : KeepsRectangular withoutError := by
  intro vs h
  unfold withoutError
  split
  · exact rectangular_argument h 1
  · exact rectangular_argument h 0

theorem rectangular_logic : ∀ f ∈ logic, f.Rectangular := by
  simp only [logic, List.forall_mem_cons]
  exact ⟨rectangular_plain_of_any (by simp) fun _ => Value.rectangular_boolean _,
    rectangular_plain_of_any (by simp) fun _ => Value.rectangular_boolean _,
    rectangular_plain (by simp) keepsRectangular_negation,
    rectangular_plain (by simp) keepsRectangular_choice,
    rectangular_plain (by simp) keepsRectangular_withoutError,
    rectangular_plain_of_any (by simp) fun _ => Value.rectangular_boolean _, by simp⟩

/-! ### Tables -/

theorem keepsRectangular_lookUp : KeepsRectangular lookUp := by
  intro vs h
  have htable := (rectangular_array.1 (rectangular_argument h 1).columns).2
  unfold lookUp
  simp only
  split
  · simp
  · split
    · rename_i keys results _ hresults
      have hmembers : AllRectangular results := htable results (List.mem_of_getElem? hresults)
      split
      · unfold lookUpNearest
        split
        · simp
        · split
          · exact hmembers.getD Value.rectangular_undefined _
          · simp
      · unfold lookUpEqual
        split
        · exact hmembers.getD (by simp) _
        · simp
    · simp

theorem allRectangular_sorted (vs : List Value) : AllRectangular (sorted vs) := by
  unfold sorted
  simp only
  split <;> exact fun v hv => allRectangular_scalars vs v (List.mem_mergeSort.1 hv)

/-- Turning takes one element of each column into a row, so the columns of the result have one height for any array. -/
theorem rectangular_transpose (h : v.Rectangular) : (transpose v).Rectangular := by
  unfold transpose
  split
  · rename_i columns
    refine rectangular_of_columns (List.forall_mem_map.2 fun r _ => ⟨List.length_map _, ?_⟩)
    exact List.forall_mem_map.2 fun c hc =>
      AllRectangular.getD ((rectangular_array.1 h).2 c hc) Value.rectangular_undefined r
  · exact h

theorem rectangular_reverse (h : v.Rectangular) : (reverse v).Rectangular := by
  unfold reverse
  split
  · rename_i column
    have hcolumn := (rectangular_array.1 h).2 column List.mem_cons_self
    exact rectangular_of_columns (List.forall_mem_singleton.2
      ⟨rfl, fun u hu => hcolumn u (List.mem_reverse.1 hu)⟩)
  · rename_i columns _
    obtain ⟨hlevel, hmembers⟩ := rectangular_array.1 h
    exact rectangular_of_columns fun c hc =>
      ⟨hlevel c (List.mem_reverse.1 hc), hmembers c (List.mem_reverse.1 hc)⟩
  · simp

theorem rectangular_tables : ∀ f ∈ tables, f.Rectangular := by
  have hsorted (vs : List Value) : (Value.array [sorted vs]).Rectangular :=
    rectangular_of_columns (List.forall_mem_singleton.2 ⟨rfl, allRectangular_sorted vs⟩)
  simp only [tables, List.forall_mem_cons]
  exact ⟨rectangular_plain (by simp) keepsRectangular_lookUp,
    rectangular_plain_of_any (by simp) hsorted,
    rectangular_plain (by simp) fun vs h => rectangular_transpose (rectangular_argument h 0),
    rectangular_plain (by simp) fun vs h => rectangular_reverse (rectangular_argument h 0), by simp⟩

/-! ### Dates, texts and facts about cells -/

theorem rectangular_datePart (part : Date → Int) (x : Float) : (datePart part x).Rectangular := by
  unfold datePart
  split <;> simp

theorem rectangular_calendar : ∀ f ∈ calendar, f.Rectangular := by
  have hdate (name : String) (part : Date → Int) (description : String) :
      (dateFunction name part description).Rectangular :=
    rectangular_plain_of_any (by simp) (rectangular_ofOneNumber (rectangular_datePart part))
  simp only [calendar, List.forall_mem_cons]
  exact ⟨⟨by simp, fun _ _ _ _ => .pure (Value.rectangular_number _)⟩,
    ⟨by simp, fun _ _ _ _ => .pure (Value.rectangular_number _)⟩, hdate _ _ _, hdate _ _ _, hdate _ _ _, by simp⟩

theorem rectangular_ofHex (v : Value) : (ofHex v).Rectangular := by
  unfold ofHex
  simp only
  split <;> simp

theorem rectangular_toHex (v : Value) : (toHex v).Rectangular := by
  refine rectangular_ofExcept fun x => ?_
  unfold hexText
  split <;> simp

theorem rectangular_texts : ∀ f ∈ texts, f.Rectangular := by
  simp only [texts, List.forall_mem_cons]
  exact ⟨rectangular_plain_of_any (by simp) fun _ => Value.rectangular_text _,
    rectangular_plain_of_any (by simp) fun _ => rectangular_elementwise (fun _ => rectangular_ofHex _) _,
    rectangular_plain_of_any (by simp) fun _ => rectangular_elementwise (fun _ => rectangular_toHex _) _, by simp⟩

theorem rectangular_cellInfo (vs : List Value) : (cellInfo vs).Rectangular := by
  unfold cellInfo
  split
  · simp only
    split
    · simp
    · split
      · split <;> simp
      · simp
  · simp

theorem rectangular_information : ∀ f ∈ information, f.Rectangular := by
  simp only [information, List.forall_mem_singleton]
  exact rectangular_plain_of_any (by simp) rectangular_cellInfo

theorem rectangular_widgets : ∀ f ∈ widgets, f.Rectangular := by
  simp only [widgets, List.forall_mem_cons]
  exact ⟨⟨by simp [plain], fun _ _ _ _ => .pure (Value.rectangular_text _)⟩,
    ⟨by simp [plain], fun _ _ _ _ => .pure (Value.rectangular_boolean _)⟩,
    ⟨by simp [plot], fun _ _ _ _ => .pure Value.rectangular_undefined⟩,
    ⟨by simp [plot], fun _ _ _ _ => .pure Value.rectangular_undefined⟩, by simp⟩

/-! ### Complex numbers and elementary functions -/

theorem rectangular_ofOneComplex {f : Complex → Value} (hf : ∀ z, (f z).Rectangular) (vs : List Value) :
    (ofOneComplex f vs).Rectangular := by
  refine rectangular_elementwise (fun xs => ?_) _
  split
  · exact hf _
  · simp

theorem rectangular_complexLogarithm (z : Complex) : (complexLogarithm z).Rectangular := by
  unfold complexLogarithm
  split <;> simp

theorem rectangular_complexNumbers : ∀ f ∈ complexNumbers, f.Rectangular := by
  simp only [complexNumbers, List.forall_mem_cons]
  exact ⟨rectangular_plain_of_any (by simp) fun _ => Value.rectangular_boolean _,
    rectangular_plain_of_any (by simp) (rectangular_ofOneComplex fun _ => Value.rectangular_number _),
    rectangular_plain_of_any (by simp) (rectangular_ofOneComplex fun _ => Value.rectangular_number _),
    rectangular_plain_of_any (by simp) (rectangular_ofOneComplex fun _ => Value.rectangular_ofComplex _),
    rectangular_plain_of_any (by simp) (rectangular_ofOneComplex fun _ => Value.rectangular_ofNumber _),
    rectangular_plain_of_any (by simp) (rectangular_ofTwoNumbers fun _ _ => Value.rectangular_ofComplex _),
    rectangular_plain_of_any (by simp) (rectangular_ofOneComplex Value.rectangular_complex),
    rectangular_plain_of_any (by simp) (rectangular_ofOneComplex rectangular_complexLogarithm), by simp⟩

theorem rectangular_hypotenuse (total : Float) (vs : List Value) : (hypotenuse total vs).Rectangular := by
  fun_induction hypotenuse total vs <;> simp_all

theorem rectangular_constant (name : String) (bits : UInt64) : (constant name bits).Rectangular :=
  rectangular_plain_of_any (by simp) fun _ => Value.rectangular_number _

theorem rectangular_unaryFunction (name : String) (f : Float → Float) : (unaryFunction name f).Rectangular :=
  rectangular_plain_of_any (by simp) (rectangular_ofOneNumber fun _ => Value.rectangular_ofNumber _)

theorem rectangular_binaryFunction (name : String) (f : Float → Float → Float) :
    (binaryFunction name f).Rectangular :=
  rectangular_plain_of_any (by simp) (rectangular_ofTwoNumbers fun _ _ => Value.rectangular_ofNumber _)

theorem rectangular_elementary : ∀ f ∈ elementary, f.Rectangular := by
  have hhypot : (plain "HYPOT" [] fun vs => hypotenuse 0 (scalars vs)).Rectangular :=
    rectangular_plain_of_any (by simp) fun vs => rectangular_hypotenuse 0 (scalars vs)
  simp [elementary, rectangular_constant, rectangular_unaryFunction, rectangular_binaryFunction, hhypot]

/-! ### Functions with effects -/

theorem rectangular_randomNumbers : ∀ f ∈ randomNumbers, f.Rectangular := by
  have hbetween (x y : Float) : Yields Value.Rectangular (between x y) :=
    (Yields.any Action.random).bind fun _ _ => .pure (Value.rectangular_number _)
  have hrandom : Yields Value.Rectangular (do return .number (← Action.random) : Action Value) :=
    (Yields.any Action.random).bind fun _ _ => .pure (Value.rectangular_number _)
  have hbounds : ∀ p ∈ boundParameters, ∀ v ∈ p.default, v.Rectangular := by simp [boundParameters]
  simp only [randomNumbers, List.forall_mem_cons]
  exact ⟨⟨by simp, fun _ _ _ _ => hrandom⟩,
    ⟨hbounds, fun _ vs _ _ => yields_rectangular_ofTwoNumbersM hbetween vs⟩,
    ⟨hbounds, fun _ vs _ _ => yields_rectangular_ofTwoNumbersM hbetween vs⟩,
    rectangular_plain (by simp) fun vs h => rectangular_argument h 0, by simp⟩

theorem yields_rectangular_readText {site : CallSite} (h : site.store.Rectangular) (s : String) :
    Yields Value.Rectangular (readText site s) := by
  unfold readText
  split
  · exact .pure (by simp)
  · split
    · exact (Yields.any _).bind fun _ _ => .pure (h.readArea? _)
    · exact .pure (by simp)

theorem rectangular_indirect : ∀ f ∈ indirect, f.Rectangular := by
  have happly (site : CallSite) (vs : List Value) (hstore : site.store.Rectangular) :
      Yields Value.Rectangular (elementwiseM (fun xs => readText site (argument xs 0).toText) (vs.take 1)) :=
    yields_rectangular_elementwiseM (fun xs => yields_rectangular_readText hstore _) _
  simp only [indirect, List.forall_mem_singleton]
  exact ⟨by simp, fun site vs hstore _ => happly site vs hstore⟩

end Function

/-! ### The standard library -/

/-- All standard functions give rectangular values for rectangular arguments in rectangular stores. -/
theorem Library.rectangular_of_standard {name : String} {f : Function} (h : standard.find? name = some f) :
    f.Rectangular := by
  obtain ⟨fs, hfs, hf⟩ := mem_of_find?_standard h
  simp only [List.mem_cons, List.not_mem_nil, or_false] at hfs
  rcases hfs with rfl | rfl | rfl | rfl | rfl | rfl | rfl | rfl | rfl | rfl | rfl | rfl
  · exact Function.rectangular_statistics f hf
  · exact Function.rectangular_arithmetic f hf
  · exact Function.rectangular_logic f hf
  · exact Function.rectangular_tables f hf
  · exact Function.rectangular_calendar f hf
  · exact Function.rectangular_information f hf
  · exact Function.rectangular_texts f hf
  · exact Function.rectangular_widgets f hf
  · exact Function.rectangular_complexNumbers f hf
  · exact Function.rectangular_randomNumbers f hf
  · exact Function.rectangular_indirect f hf
  · exact Function.rectangular_elementary f hf

end Spreadsheet
