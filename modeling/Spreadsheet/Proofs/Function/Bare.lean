import Spreadsheet.Proofs.Function.Standard
import Spreadsheet.Proofs.Value.Bare

/-!
Functions that do not see how errors are explained. All functions of the standard library are of this kind: with other
explanations in their arguments they do the same, and what they give differs in explanations at most.
-/

namespace Spreadsheet

namespace Function

open Value (bare Alike bare_bare scalar_bare alike_toNumber_bare)

variable {σ : Type} {f g : List Value → Value} {vs : List Value} {v : Value}

/-- What is made of arguments is the same, but for explanations, if they are explained in another way. -/
def Heedless (f : List Value → Value) : Prop := ∀ vs, (f (vs.map bare)).bare = (f vs).bare

/-- What is done with arguments is the same, but for explanations, if they are explained in another way. -/
def HeedlessM {m : Type → Type} [Monad m] (f : List Value → m Value) : Prop :=
  ∀ vs, bare <$> f (vs.map bare) = bare <$> f vs

/-! ### Arguments -/

@[simp] theorem argument_map_bare (vs : List Value) (i : Nat) : argument (vs.map bare) i = (argument vs i).bare :=
  Value.getD_map_bare vs i

@[simp] theorem scalars_map_bare (vs : List Value) : scalars (vs.map bare) = (scalars vs).map bare := by
  rw [scalars, scalars, List.flatMap_map, List.map_flatMap]
  simp only [Value.flatten_bare]

theorem operandsAt_map_bare (recycled : List (List (List Value))) (c r : Nat) :
    operandsAt (recycled.map (List.map (List.map bare))) c r = (operandsAt recycled c r).map bare := by
  rw [operandsAt, operandsAt, List.map_map, List.map_map]
  refine List.map_congr_left fun columns _ => ?_
  simp only [Function.comp_apply, Value.getD_map_map_bare, Value.getD_map_bare]

theorem map_mapM {m : Type → Type} [Monad m] [LawfulMonad m] {α β γ : Type} (g : β → γ) (f : α → m β) (l : List α) :
    List.map g <$> l.mapM f = l.mapM fun x => g <$> f x := by
  induction l with
  | nil => simp
  | cons x l ih => simp [← ih]

theorem HeedlessM.elementwiseM {m : Type → Type} [Monad m] [LawfulMonad m] {f : List Value → m Value}
    (hf : HeedlessM f) : HeedlessM (elementwiseM f) := by
  intro vs
  have hany : (vs.map bare).any Value.isArray = vs.any Value.isArray := by
    rw [List.any_map]
    exact congrArg vs.any (funext Value.isArray_bare)
  unfold Function.elementwiseM
  rw [hany, Value.commonShape_map_bare]
  split
  · generalize Value.commonShape vs = shape
    obtain ⟨width, rows⟩ := shape
    have hrecycled : (vs.map bare).map (fun v => Value.recycle v.columns width rows) =
        (vs.map fun v => Value.recycle v.columns width rows).map (List.map (List.map bare)) := by
      rw [List.map_map, List.map_map]
      refine List.map_congr_left fun v _ => ?_
      simp only [Function.comp_apply, Value.columns_bare, Value.recycle_map_bare]
    have hstrip (recycled : List (List (List Value))) : bare <$> (do
        let columns ← (List.range width).mapM fun c => (List.range rows).mapM fun r => f (operandsAt recycled c r)
        return .array columns) = Value.array <$> (List.range width).mapM fun c =>
          (List.range rows).mapM fun r => bare <$> f (operandsAt recycled c r) := by
      simp only [← map_mapM, bind_pure_comp, Functor.map_map, Value.bare_array]
    have hplace (xs : List Value) : bare <$> f (xs.map bare) = bare <$> f xs := hf xs
    simp only [hrecycled, hstrip]
    simp only [operandsAt_map_bare, hplace]
  · exact hf vs

theorem Heedless.elementwise (hf : Heedless f) : Heedless (elementwise f) := by
  intro vs
  have h : HeedlessM (m := Id) fun xs => pure (f xs) := hf
  exact h.elementwiseM vs

theorem Heedless.take (hf : Heedless f) (n : Nat) : Heedless fun vs => f (vs.take n) := by
  intro vs
  simp only [← List.map_take]
  exact hf _

theorem heedless_ofOneNumber (f : Float → Value) : Heedless (ofOneNumber f) := by
  refine Heedless.take (Heedless.elementwise fun xs => ?_) 1
  rw [argument_map_bare]
  exact (alike_toNumber_bare _).ofExcept fun _ => rfl

theorem alike_twoNumbers_bare (v w : Value) : Alike (twoNumbers v.bare w.bare) (twoNumbers v w) :=
  (alike_toNumber_bare v).bind fun _ => (alike_toNumber_bare w).bind fun _ => .refl _

theorem heedlessM_ofTwoNumbersM {m : Type → Type} [Monad m] [LawfulMonad m] (f : Float → Float → m Value) :
    HeedlessM (ofTwoNumbersM f) := by
  intro vs
  unfold ofTwoNumbersM
  rw [← List.map_take]
  refine HeedlessM.elementwiseM (fun xs => ?_) (vs.take 2)
  have h := alike_twoNumbers_bare (argument xs 0) (argument xs 1)
  rw [argument_map_bare, argument_map_bare]
  generalize twoNumbers (argument xs 0).bare (argument xs 1).bare = r at h
  generalize twoNumbers (argument xs 0) (argument xs 1) = r' at h
  cases h with
  | ok p => rfl
  | error h => simp [h]

theorem heedless_ofTwoNumbers (f : Float → Float → Value) : Heedless (ofTwoNumbers f) :=
  heedlessM_ofTwoNumbersM (m := Id) fun x y => pure (f x y)

/-- A function of the scalars of its arguments. -/
theorem heedless_of_scalars (hf : ∀ us : List Value, (f (us.map bare)).bare = (f us).bare) :
    Heedless fun vs => f (scalars vs) := by
  intro vs
  simp only [scalars_map_bare]
  exact hf _

/-! ### Sums and counts -/

theorem heedless_addAll (t : Total) : Heedless (addAll t) := by
  intro vs
  induction vs generalizing t with
  | nil => rfl
  | cons v vs ih =>
    cases v with
    | error e => rfl
    | array cs =>
      rw [List.map_cons, Value.bare_array]
      exact ih t
    | _ => exact ih _

theorem heedless_multiplyAll (product : Float) : Heedless (multiplyAll product) := by
  intro vs
  induction vs generalizing product with
  | nil => rfl
  | cons v vs ih =>
    have h := alike_toNumber_bare v
    rw [List.map_cons, multiplyAll, multiplyAll, Value.isUndefined_bare]
    generalize v.bare.toNumber = r at h
    generalize v.toNumber = r' at h
    split
    · exact ih product
    · cases h with
      | ok x => exact ih _
      | error h => exact congrArg Value.ofCode h

theorem alike_numbersOf_bare (vs : List Value) : Alike (numbersOf (vs.map bare)) (numbersOf vs) := by
  induction vs with
  | nil => exact .refl _
  | cons v vs ih =>
    cases v with
    | number x => exact ih.map _
    | error e => exact .error rfl
    | array cs =>
      rw [List.map_cons, Value.bare_array]
      exact ih
    | _ => exact ih

theorem alike_numbers_bare (vs : List Value) : Alike (numbers (vs.map bare)) (numbers vs) := by
  rw [numbers, numbers, scalars_map_bare]
  exact alike_numbersOf_bare _

theorem heedless_mean : Heedless mean := by
  intro vs
  have h := alike_numbers_bare vs
  unfold mean
  generalize numbers (vs.map bare) = r at h
  generalize numbers vs = r' at h
  cases h with
  | ok xs => rfl
  | error h => exact congrArg Value.ofCode h

theorem heedless_extreme (choose : Float → Float → Float) : Heedless (extreme choose) := by
  intro vs
  have h := alike_numbers_bare vs
  unfold extreme
  generalize numbers (vs.map bare) = r at h
  generalize numbers vs = r' at h
  cases h with
  | ok xs => rfl
  | error h => exact congrArg Value.ofCode h

theorem heedless_countOf {test : Value → Bool} (htest : ∀ v, test v.bare = test v) : Heedless (countOf test) := by
  intro vs
  have hcount : (test ∘ bare) = test := funext htest
  rw [countOf, countOf, scalars_map_bare, List.countP_map, hcount]

@[simp] theorem isNumber_bare (v : Value) : isNumber v.bare = isNumber v := by
  cases v <;> simp [isNumber, Value.ofCode]

theorem alike_factorOf_bare (v : Value) : Alike (factorOf v.bare) (factorOf v) := by
  cases v with
  | error e => exact .error rfl
  | array cs =>
    rw [Value.bare_array]
    exact .refl _
  | _ => exact .refl _

theorem alike_rowProduct_bare (product : Float) (vs : List Value) :
    Alike (rowProduct product (vs.map bare)) (rowProduct product vs) := by
  induction vs generalizing product with
  | nil => exact .refl _
  | cons v vs ih =>
    have h := alike_factorOf_bare v
    rw [List.map_cons, rowProduct, rowProduct]
    generalize factorOf v.bare = r at h
    generalize factorOf v = r' at h
    cases h with
    | ok x => exact ih _
    | error h => exact .error h

theorem bare_sumOfProducts_bare (sum : Float) (rows : List (List Value)) :
    (sumOfProducts sum (rows.map (List.map bare))).bare = (sumOfProducts sum rows).bare := by
  induction rows generalizing sum with
  | nil => rfl
  | cons row rows ih =>
    have h := alike_rowProduct_bare 1 row
    rw [List.map_cons, sumOfProducts, sumOfProducts]
    generalize rowProduct 1 (row.map bare) = r at h
    generalize rowProduct 1 row = r' at h
    cases h with
    | ok x => exact ih _
    | error h => exact congrArg Value.ofCode h

theorem heedless_sumProduct : Heedless sumProduct := by
  intro vs
  have hranges : (vs.map bare).map Value.flatten = (vs.map Value.flatten).map (List.map bare) := by
    rw [List.map_map, List.map_map]
    exact List.map_congr_left fun v _ => Value.flatten_bare v
  unfold sumProduct
  simp only [hranges]
  generalize vs.map Value.flatten = ranges
  cases ranges with
  | nil => rfl
  | cons first ranges =>
    simp only [List.map_cons, List.head?_cons, List.isEmpty_map, List.length_map]
    have hany : ((first.map bare) :: ranges.map (List.map bare)).any (fun r => r.length != first.length) =
        (first :: ranges).any fun r => r.length != first.length := by
      rw [← List.map_cons (f := List.map bare), List.any_map]
      simp only [Function.comp_def, List.length_map]
    rw [hany]
    split
    · rfl
    · have hrows : ((List.range first.length).map fun i =>
          ((first.map bare) :: ranges.map (List.map bare)).map fun r => r.getD i .undefined) =
          ((List.range first.length).map fun i =>
            (first :: ranges).map fun r => r.getD i .undefined).map (List.map bare) := by
        rw [List.map_map]
        refine List.map_congr_left fun i _ => ?_
        simp only [← List.map_cons (f := List.map bare), List.map_map, Function.comp_def, Value.getD_map_bare]
      simp only [List.map_cons] at hrows
      rw [hrows]
      exact bare_sumOfProducts_bare 0 _

/-! ### Numbers -/

theorem bare_absolute_bare (v : Value) : (absolute v.bare).bare = (absolute v).bare := by
  have h := alike_toNumber_bare v.scalar
  unfold absolute
  rw [scalar_bare]
  cases hv : v.scalar with
  | complex z => rfl
  | array cs =>
    rw [hv] at h
    rw [Value.bare_array] at h ⊢
    exact h.ofExcept fun _ => rfl
  | _ =>
    rw [hv] at h
    exact h.ofExcept fun _ => rfl

theorem heedless_normal : Heedless normal := by
  intro xs
  have h : Alike (threeNumbers (xs.map bare)) (threeNumbers xs) := by
    unfold threeNumbers
    simp only [argument_map_bare]
    exact (alike_toNumber_bare _).bind fun _ => (alike_toNumber_bare _).bind fun _ =>
      (alike_toNumber_bare _).bind fun _ => .refl _
  unfold normal
  generalize threeNumbers (xs.map bare) = r at h
  generalize threeNumbers xs = r' at h
  cases h with
  | ok p => rfl
  | error h => exact congrArg Value.ofCode h

theorem heedless_hypotenuse (total : Float) : Heedless (hypotenuse total) := by
  intro vs
  induction vs generalizing total with
  | nil => rfl
  | cons v vs ih =>
    have h := alike_toNumber_bare v
    rw [List.map_cons, hypotenuse, hypotenuse]
    generalize v.bare.toNumber = r at h
    generalize v.toNumber = r' at h
    cases h with
    | ok x => exact ih _
    | error h => exact congrArg Value.ofCode h

@[simp] theorem complexOf?_bare (v : Value) : complexOf? v.bare = complexOf? v := by
  unfold complexOf?
  rw [scalar_bare]
  cases v.scalar with
  | array cs => rw [Value.bare_array]
  | _ => rfl

theorem heedless_ofOneComplex (f : Complex → Value) : Heedless (ofOneComplex f) := by
  refine Heedless.take (Heedless.elementwise fun xs => ?_) 1
  rw [argument_map_bare, complexOf?_bare]

theorem holdsComplex_bare (v : Value) : holdsComplex v.bare = holdsComplex v := by
  cases v with
  | metadata p v format =>
    cases v with
    | array cs => rw [Value.bare_metadata, Value.bare_array]; rfl
    | _ => rfl
  | array cs => rw [Value.bare_array]; rfl
  | _ => rfl

/-! ### Conditions -/

@[simp] theorem isCondition_bare (v : Value) : isCondition v.bare = isCondition v := by
  have h := Value.isTrue_bare v.scalar
  unfold isCondition
  rw [scalar_bare]
  cases hv : v.scalar with
  | text s => rfl
  | array cs =>
    rw [hv] at h
    rw [Value.bare_array] at h ⊢
    exact h
  | _ =>
    rw [hv] at h
    exact h

theorem heedless_negation : Heedless negation := by
  intro vs
  cases vs with
  | nil => rfl
  | cons v vs =>
    cases vs with
    | nil =>
      refine Value.map_bare (fun v => ?_) v
      rw [Value.isTrue_bare]
    | cons w vs => rfl

theorem branchAt_bare (branch : Value) (c r : Nat) : branchAt branch.bare c r = (branchAt branch c r).bare := by
  cases branch with
  | array cs =>
    rw [Value.bare_array, branchAt, branchAt, Value.getD_map_map_bare, Value.getD_map_bare]
  | _ => rfl

theorem heedless_choice : Heedless choice := by
  intro vs
  unfold choice
  simp only [argument_map_bare]
  generalize argument vs 0 = condition
  generalize argument vs 1 = whenTrue
  generalize argument vs 2 = whenFalse
  have hscalar : (if isCondition condition.bare then whenTrue.bare else whenFalse.bare).bare =
      (if isCondition condition then whenTrue else whenFalse).bare := by
    rw [isCondition_bare]
    split
    · exact bare_bare _
    · exact bare_bare _
  cases condition with
  | array cs =>
    rw [Value.bare_array]
    simp only [Value.bare_array]
    refine congrArg Value.array ?_
    rw [List.zipIdx_map, List.map_map, List.map_map, List.map_map]
    refine List.map_congr_left fun ⟨column, c⟩ _ => ?_
    simp only [Function.comp_apply, Prod.map_apply, id]
    rw [List.zipIdx_map, List.map_map, List.map_map, List.map_map]
    refine List.map_congr_left fun ⟨v, r⟩ _ => ?_
    simp only [Function.comp_apply, Prod.map_apply, id, isCondition_bare]
    split
    · rw [branchAt_bare, bare_bare]
    · rw [branchAt_bare, bare_bare]
  | _ => exact hscalar

theorem heedless_withoutError : Heedless withoutError := by
  intro vs
  rw [withoutError, withoutError, argument_map_bare, argument_map_bare, Value.isError_bare]
  split
  · exact bare_bare _
  · exact bare_bare _

/-! ### Tables -/

theorem nearestRow_map_bare (target : Float) (best : Option (Float × Nat)) (row : Nat) (keys : List Value) :
    nearestRow target best row (keys.map bare) = nearestRow target best row keys := by
  induction keys generalizing best row with
  | nil => rfl
  | cons key keys ih =>
    rw [List.map_cons, nearestRow, nearestRow, scalar_bare]
    cases key.scalar with
    | number k => exact ih _ _
    | array cs =>
      rw [Value.bare_array]
      exact ih _ _
    | _ => exact ih _ _

theorem bare_lookUpNearest_bare (value : Value) (keys results : List Value) :
    (lookUpNearest value.bare (keys.map bare) (results.map bare)).bare = (lookUpNearest value keys results).bare := by
  have h := alike_toNumber_bare value
  unfold lookUpNearest
  generalize value.bare.toNumber = r at h
  generalize value.toNumber = r' at h
  cases h with
  | ok target =>
    simp only [nearestRow_map_bare]
    cases nearestRow target none 0 keys with
    | none => rfl
    | some b => simp only [Value.getD_map_bare, bare_bare]
  | error h => rfl

theorem bare_lookUpEqual_bare (value : Value) (keys results : List Value) :
    (lookUpEqual value.bare (keys.map bare) (results.map bare)).bare = (lookUpEqual value keys results).bare := by
  unfold lookUpEqual
  rw [List.findIdx?_map]
  have htest : (fun key : Value => key.looselyEqual value.bare) ∘ bare = fun key => key.looselyEqual value :=
    funext fun key => Value.looselyEqual_bare key value
  rw [htest]
  cases keys.findIdx? fun key => key.looselyEqual value with
  | none => rfl
  | some row =>
    simp only [List.getD_eq_getElem?_getD, List.getElem?_map]
    cases results[row]? with
    | none => rfl
    | some v => exact bare_bare v

theorem heedless_lookUp : Heedless lookUp := by
  intro vs
  have h := alike_toNumber_bare (argument vs 2)
  unfold lookUp
  simp only [argument_map_bare, Value.columns_bare, Value.isTrue_bare]
  generalize (argument vs 2).bare.toNumber = r at h
  generalize (argument vs 2).toNumber = r' at h
  cases h with
  | ok n =>
    simp only [List.head?_map, List.getElem?_map]
    cases (argument vs 1).columns.head? with
    | none => rfl
    | some keys =>
      cases (argument vs 1).columns[(Number.clampWord n - 1).toNat]? with
      | none => rfl
      | some results =>
        simp only [Option.map_some]
        split
        · exact bare_lookUpNearest_bare _ _ _
        · exact bare_lookUpEqual_bare _ _ _
  | error h => exact congrArg Value.ofCode h

theorem isPlainNumber_bare (v : Value) : isPlainNumber v.bare = isPlainNumber v := by
  cases v <;> simp [isPlainNumber, Value.ofCode]

theorem numberAtMost_bare (v w : Value) : numberAtMost v.bare w.bare = numberAtMost v w := by
  cases v with
  | number x =>
    cases w with
    | number y => rfl
    | array cs => rw [Value.bare_array]; rfl
    | _ => rfl
  | array cs => rw [Value.bare_array]; rfl
  | _ => rfl

theorem sorted_map_bare (vs : List Value) : sorted (vs.map bare) = (sorted vs).map bare := by
  have hall (us : List Value) : (us.map bare).all isPlainNumber = us.all isPlainNumber := by
    rw [List.all_map]
    exact congrArg us.all (funext isPlainNumber_bare)
  unfold sorted
  simp only [scalars_map_bare, hall]
  split
  · exact (List.map_mergeSort fun v _ w _ => (numberAtMost_bare v w).symm).symm
  · exact (List.map_mergeSort fun v _ w _ => by rw [Value.toText_bare, Value.toText_bare]).symm

theorem transpose_bare (v : Value) : transpose v.bare = (transpose v).bare := by
  cases v with
  | array cs =>
    simp only [Value.bare_array, transpose, Value.height_map_bare, List.map_map]
    refine congrArg Value.array (List.map_congr_left fun r _ => ?_)
    exact Value.rowAt_map_bare cs r
  | _ => rfl

theorem reverse_bare (v : Value) : reverse v.bare = (reverse v).bare := by
  cases v with
  | array cs =>
    rw [Value.bare_array]
    cases cs with
    | nil => rfl
    | cons c cs =>
      cases cs with
      | nil => simp [reverse]
      | cons d cs => simp [reverse]
  | _ => exact congrArg (fun s => Value.text (String.ofList s.toList.reverse)) (Value.toText_bare _)

/-! ### Texts and cells -/

@[simp] theorem ofHex_bare (v : Value) : ofHex v.bare = ofHex v := by
  rw [ofHex, ofHex, Value.toText_bare]

theorem bare_toHex_bare (v : Value) : (toHex v.bare).bare = (toHex v).bare :=
  (alike_toNumber_bare v).ofExcept fun _ => rfl

theorem heedless_cellInfo : Heedless cellInfo := by
  intro vs
  unfold cellInfo
  simp only [argument_map_bare, Value.toText_bare]
  cases argument vs 1 with
  | array cs => rw [Value.bare_array]
  | _ => rfl

/-! ### The lists of functions -/

/-- A function that does not see how errors are explained. -/
def IsHeedless (f : Function) : Prop := ∀ site, HeedlessM (f.apply site)

@[simp] theorem isHeedless_plain {name : String} {parameters : List Parameter} {description : String} :
    (plain name parameters f description).IsHeedless ↔ Heedless f := by
  constructor
  · intro h vs
    have hany := h ⟨⟨0, 0⟩, 0, {}, "", ⟨0, 0⟩⟩ vs
    exact congrArg (fun x : Action Value => (x.run { model := .ofSeed 0 }).1) hany
  · intro h site vs
    exact congrArg (fun v => (pure v : Action Value)) (h vs)

theorem heedless_of_argument {f : Value → Value} (hf : ∀ v : Value, (f v.bare).bare = (f v).bare) (i : Nat) :
    Heedless fun vs => f (argument vs i) := by
  intro vs
  simp only [argument_map_bare]
  exact hf _

attribute [local simp] heedless_ofOneNumber heedless_ofTwoNumbers heedless_ofOneComplex

theorem isHeedless_statistics : ∀ f ∈ statistics, f.IsHeedless := by
  simp only [statistics, List.forall_mem_cons, isHeedless_plain]
  refine ⟨?_, ?_, ?_, ?_, ?_, ?_, ?_, ?_, by simp⟩
  · exact heedless_of_scalars (heedless_addAll {})
  · exact heedless_of_scalars (heedless_multiplyAll 1)
  · exact heedless_mean
  · exact heedless_extreme Number.greater
  · exact heedless_extreme Number.lesser
  · exact heedless_countOf isNumber_bare
  · exact heedless_countOf fun v => congrArg not v.isUndefined_bare
  · exact heedless_sumProduct

theorem isHeedless_arithmetic : ∀ f ∈ arithmetic, f.IsHeedless := by
  have habsolute : Heedless fun vs => elementwise (fun xs => absolute (argument xs 0)) (vs.take 1) :=
    (heedless_of_argument bare_absolute_bare 0).elementwise.take 1
  have hnormal : Heedless fun vs => elementwise normal (vs.take 3) := heedless_normal.elementwise.take 3
  simp [arithmetic, habsolute, hnormal]

theorem isHeedless_logic : ∀ f ∈ logic, f.IsHeedless := by
  simp only [logic, List.forall_mem_cons, isHeedless_plain]
  refine ⟨?_, ?_, ?_, ?_, ?_, ?_, by simp⟩
  · refine heedless_of_scalars (f := fun us => .boolean (us.all isTrue)) fun us => ?_
    simp only [List.all_map, Function.comp_def, Value.isTrue_bare]
  · refine heedless_of_scalars (f := fun us => .boolean (us.any isTrue)) fun us => ?_
    simp only [List.any_map, Function.comp_def, Value.isTrue_bare]
  · exact heedless_negation
  · exact heedless_choice
  · exact heedless_withoutError
  · refine heedless_of_argument (f := fun v => .boolean (v.flatten.any Value.isError)) (fun v => ?_) 0
    simp only [Value.flatten_bare, List.any_map, Function.comp_def, Value.isError_bare]

theorem isHeedless_tables : ∀ f ∈ tables, f.IsHeedless := by
  simp only [tables, List.forall_mem_cons, isHeedless_plain]
  refine ⟨heedless_lookUp, fun vs => ?_, heedless_of_argument (fun v => ?_) 0, heedless_of_argument (fun v => ?_) 0,
    by simp⟩
  · simp only [sorted_map_bare, Value.bare_array, List.map_cons, List.map_map, List.map_nil, Function.comp_def,
      bare_bare]
  · rw [transpose_bare, bare_bare]
  · rw [reverse_bare, bare_bare]

theorem isHeedless_calendar : ∀ f ∈ calendar, f.IsHeedless := by
  simp only [calendar, dateFunction, List.forall_mem_cons, isHeedless_plain]
  exact ⟨fun _ _ => rfl, fun _ _ => rfl, by simp⟩

theorem isHeedless_information : ∀ f ∈ information, f.IsHeedless := by
  simp [information, heedless_cellInfo]

theorem isHeedless_texts : ∀ f ∈ texts, f.IsHeedless := by
  simp only [texts, List.forall_mem_cons, isHeedless_plain]
  refine ⟨?_, ?_, ?_, by simp⟩
  · refine heedless_of_scalars (f := fun us => .text (String.join (us.map Value.toText))) fun us => ?_
    simp only [List.map_map, Function.comp_def, Value.toText_bare]
  · exact (heedless_of_argument (fun v => congrArg bare (ofHex_bare v)) 0).elementwise.take 1
  · exact (heedless_of_argument bare_toHex_bare 0).elementwise.take 1

theorem isHeedless_widgets : ∀ f ∈ widgets, f.IsHeedless := by
  simp only [widgets, List.forall_mem_cons]
  refine ⟨fun site vs => ?_, fun site vs => ?_, fun _ _ => rfl, fun _ _ => rfl, by simp⟩
  · simp only [plain, argument_map_bare, Value.toText_bare]
  · simp only [plain, argument_map_bare, Value.isTrue_bare]

theorem isHeedless_complexNumbers : ∀ f ∈ complexNumbers, f.IsHeedless := by
  have hholds : Heedless fun vs => .boolean (holdsComplex (argument vs 0)) :=
    heedless_of_argument (f := fun v => .boolean (holdsComplex v)) (fun v => by rw [holdsComplex_bare]) 0
  simp [complexNumbers, complexFunction, hholds]

theorem isHeedless_randomNumbers : ∀ f ∈ randomNumbers, f.IsHeedless := by
  simp only [randomNumbers, List.forall_mem_cons, isHeedless_plain]
  refine ⟨fun _ _ => rfl, fun _ => ?_, fun _ => ?_, heedless_of_argument (f := id) bare_bare 0, by simp⟩
  · exact heedlessM_ofTwoNumbersM between
  · exact heedlessM_ofTwoNumbersM between

theorem isHeedless_indirect : ∀ f ∈ indirect, f.IsHeedless := by
  simp only [indirect, List.forall_mem_cons]
  refine ⟨fun site vs => ?_, by simp⟩
  simp only [← List.map_take]
  refine HeedlessM.elementwiseM (fun xs => ?_) (vs.take 1)
  rw [argument_map_bare, Value.toText_bare]

theorem isHeedless_elementary : ∀ f ∈ elementary, f.IsHeedless := by
  have hconstant (x : Float) : Heedless fun _ => .number x := fun _ => rfl
  have hhypotenuse : Heedless fun vs => hypotenuse 0 (scalars vs) := heedless_of_scalars (heedless_hypotenuse 0)
  simp [elementary, constant, unaryFunction, binaryFunction, hconstant, hhypotenuse]

end Function

/-- No function of the standard library sees how errors are explained. -/
theorem Library.isHeedless_standard {name : String} {f : Function} (h : standard.find? name = some f) :
    f.IsHeedless := by
  obtain ⟨fs, hfs, hf⟩ := mem_of_find?_standard h
  simp only [List.mem_cons, List.not_mem_nil, or_false] at hfs
  rcases hfs with rfl | rfl | rfl | rfl | rfl | rfl | rfl | rfl | rfl | rfl | rfl | rfl
  · exact Function.isHeedless_statistics f hf
  · exact Function.isHeedless_arithmetic f hf
  · exact Function.isHeedless_logic f hf
  · exact Function.isHeedless_tables f hf
  · exact Function.isHeedless_calendar f hf
  · exact Function.isHeedless_information f hf
  · exact Function.isHeedless_texts f hf
  · exact Function.isHeedless_widgets f hf
  · exact Function.isHeedless_complexNumbers f hf
  · exact Function.isHeedless_randomNumbers f hf
  · exact Function.isHeedless_indirect f hf
  · exact Function.isHeedless_elementary f hf

end Spreadsheet
