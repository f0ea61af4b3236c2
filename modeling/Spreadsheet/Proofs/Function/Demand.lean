import Spreadsheet.Proofs.Function.Standard
import Spreadsheet.Proofs.Number.Finite
import Spreadsheet.Proofs.Value.Demand

/-!
Functions whose values are as demanded if their arguments and the cells of the sheet are. Nearly all functions of the
standard library check that the numbers that they make are finite; the others keep demands that any number meets.
-/

namespace Spreadsheet

variable {D : Demand}

/-- Whatever state it starts in, the action gives something with the property. -/
def Yields {σ α : Type} (P : α → Prop) (x : StateM σ α) : Prop := ∀ s, P (x.run s).1

namespace Yields

variable {σ α β : Type} {P : α → Prop} {Q : β → Prop}

theorem pure {a : α} (h : P a) : Yields P (Pure.pure a : StateM σ α) := fun _ => h

theorem bind {x : StateM σ α} {f : α → StateM σ β} (hx : Yields P x) (hf : ∀ a, P a → Yields Q (f a)) :
    Yields Q (x >>= f) := fun s => hf _ (hx s) _

theorem any (x : StateM σ α) : Yields (fun _ => True) x := fun _ => trivial

theorem mapM {f : β → StateM σ α} {bs : List β} (hf : ∀ b ∈ bs, Yields P (f b)) :
    Yields (fun as => ∀ a ∈ as, P a) (bs.mapM f) := by
  induction bs with
  | nil => exact .pure fun _ h => absurd h List.not_mem_nil
  | cons b bs ih =>
    rw [List.forall_mem_cons] at hf
    rw [List.mapM_cons]
    exact hf.1.bind fun a ha => (ih hf.2).bind fun as has => .pure (List.forall_mem_cons.2 ⟨ha, has⟩)

end Yields

/-- The time that a clock shows is as demanded, and so is the middle of its day. -/
structure Clock.Meets (D : Demand) (c : Clock) : Prop where
  now : D.number c.now
  noon : D.number (c.midnight + 0.5)

namespace Function

open Value (AllMeet meets_number meets_complex errorIn_ok errorIn_error errorIn_bind errorIn_map meets_ofExcept)

variable {σ : Type} {f : List Value → Value} {vs : List Value} {v : Value}

/-- A function whose value is as demanded if its arguments, the cells of the sheet and the time are, and whose defaults
are as demanded. -/
structure Meets (D : Demand) (f : Function) : Prop where
  defaults : ∀ p ∈ f.parameters, ∀ v ∈ p.default, v.Meets D
  apply : ∀ site vs, site.store.Meets D → site.clock.Meets D → AllMeet D vs → Yields (Value.Meets D) (f.apply site vs)

/-- The functions that hand numbers on without a check. -/
def unchecked : List String := ["ABS", "RADIANS", "DEGREES", "RANDBETWEEN", "UNIFORM"]

/-- A function that checks its numbers as far as this is demanded. -/
def Checks (D : Demand) (f : Function) : Prop := f.name ∈ unchecked → ∀ x, D.number x

/-- What is done with arguments gives values as demanded for arguments as demanded. -/
def KeepsMeets (D : Demand) (f : List Value → Value) : Prop := ∀ vs, AllMeet D vs → (f vs).Meets D

/-! ### Arguments -/

theorem meets_argument (h : AllMeet D vs) (i : Nat) : (argument vs i).Meets D := h.getD Value.meets_undefined i

theorem allMeet_scalars (h : AllMeet D vs) : AllMeet D (scalars vs) := by
  intro v hv
  obtain ⟨w, hw, hv⟩ := List.mem_flatMap.1 hv
  exact (h w hw).flatten v hv

theorem allMeet_operandsAt {recycled : List (List (List Value))} (h : ∀ columns ∈ recycled, ∀ c ∈ columns, AllMeet D c)
    (c r : Nat) : AllMeet D (operandsAt recycled c r) :=
  List.forall_mem_map.2 fun columns hcolumns => (Value.allMeet_getD (h columns hcolumns) c).getD Value.meets_undefined r

/-- Applied element by element, an action gives values as demanded if it does so for elements as demanded. -/
theorem yields_meets_elementwiseM {f : List Value → StateM σ Value} (hf : ∀ xs, AllMeet D xs → Yields (Value.Meets D) (f xs))
    (h : AllMeet D vs) : Yields (Value.Meets D) (elementwiseM f vs) := by
  unfold elementwiseM
  split
  · simp only
    refine (Yields.mapM (P := AllMeet D) fun c _ => .mapM fun r _ => hf _ (allMeet_operandsAt ?_ c r)).bind
      fun columns hcolumns => .pure (Value.meets_array.2 hcolumns)
    exact List.forall_mem_map.2 fun v hv => Value.allMeet_recycle (h v hv).columns _ _
  · exact hf vs h

theorem elementwise_eq (f : List Value → Value) (vs : List Value) :
    elementwise f vs = ((elementwiseM (fun xs => (pure (f xs) : StateM Unit Value)) vs).run ()).1 := by
  unfold elementwise elementwiseM
  split
  · simp only [List.mapM_pure, pure_bind]
    rfl
  · rfl

theorem keepsMeets_elementwise (hf : KeepsMeets D f) : KeepsMeets D (elementwise f) := by
  intro vs h
  rw [elementwise_eq]
  exact yields_meets_elementwiseM (fun xs hxs => .pure (hf xs hxs)) h ()

theorem keepsMeets_ofOneNumber {f : Float → Value} (hf : ∀ x, (f x).Meets D) : KeepsMeets D (ofOneNumber f) :=
  fun _ h => keepsMeets_elementwise (fun _ hxs => meets_ofExcept (meets_argument hxs 0).toNumber hf) _ (h.take 1)

theorem errorIn_twoNumbers {v w : Value} (hv : v.Meets D) (hw : w.Meets D) : D.ErrorIn (twoNumbers v w) :=
  errorIn_bind hv.toNumber fun _ => errorIn_bind hw.toNumber fun _ => errorIn_ok _

theorem yields_meets_ofTwoNumbersM {f : Float → Float → StateM σ Value} (hf : ∀ x y, Yields (Value.Meets D) (f x y))
    (h : AllMeet D vs) : Yields (Value.Meets D) (ofTwoNumbersM f vs) := by
  refine yields_meets_elementwiseM (fun xs hxs => ?_) (h.take 2)
  split
  · exact hf _ _
  · rename_i e he
    exact .pure (Value.meets_error.2 (errorIn_twoNumbers (meets_argument hxs 0) (meets_argument hxs 1) e he))

theorem ofTwoNumbers_eq (f : Float → Float → Value) (vs : List Value) :
    ofTwoNumbers f vs = elementwise (fun xs => Value.ofExcept (fun p => f p.1 p.2)
      (twoNumbers (argument xs 0) (argument xs 1))) (vs.take 2) := by
  unfold ofTwoNumbers ofTwoNumbersM elementwise
  congr 2
  funext xs
  dsimp only
  cases twoNumbers (argument xs 0) (argument xs 1) <;> rfl

theorem keepsMeets_ofTwoNumbers {f : Float → Float → Value} (hf : ∀ x y, (f x y).Meets D) :
    KeepsMeets D (ofTwoNumbers f) := by
  intro vs h
  rw [ofTwoNumbers_eq]
  exact keepsMeets_elementwise (fun _ hxs => meets_ofExcept
    (errorIn_twoNumbers (meets_argument hxs 0) (meets_argument hxs 1)) fun p => hf p.1 p.2) _ (h.take 2)

theorem errorIn_numbersOf (h : AllMeet D vs) : D.ErrorIn (numbersOf vs) := by
  fun_induction numbersOf vs with
  | case1 => exact errorIn_ok _
  | case2 x vs ih => exact errorIn_map (ih (Value.allMeet_cons.1 h).2) _
  | case3 e vs => exact errorIn_error (Value.meets_error.1 (Value.allMeet_cons.1 h).1)
  | case4 v vs _ _ ih => exact ih (Value.allMeet_cons.1 h).2

theorem meets_plain {name description : String} {parameters : List Parameter}
    (hdefaults : ∀ p ∈ parameters, ∀ v ∈ p.default, v.Meets D) (hf : KeepsMeets D f) :
    (plain name parameters f description).Meets D :=
  ⟨hdefaults, fun _ vs _ _ h => .pure (hf vs h)⟩

/-! ### Sums, means and counts -/

theorem meets_addAll (t : Total) (h : AllMeet D vs) : (addAll t vs).Meets D := by
  fun_induction addAll t vs with
  | case1 t => exact Value.meets_ofComplex _
  | case2 t => exact Value.meets_ofNumber _
  | case3 t x vs ih => exact ih (Value.allMeet_cons.1 h).2
  | case4 t b vs ih => exact ih (Value.allMeet_cons.1 h).2
  | case5 t z vs ih => exact ih (Value.allMeet_cons.1 h).2
  | case6 t e vs => exact (Value.allMeet_cons.1 h).1
  | case7 t v vs _ _ _ _ ih => exact ih (Value.allMeet_cons.1 h).2

theorem meets_multiplyAll (product : Float) (h : AllMeet D vs) : (multiplyAll product vs).Meets D := by
  fun_induction multiplyAll product vs with
  | case1 product => exact Value.meets_ofNumber _
  | case2 product v vs _ ih => exact ih (Value.allMeet_cons.1 h).2
  | case3 product v vs _ x _ ih => exact ih (Value.allMeet_cons.1 h).2
  | case4 product v vs _ e he => exact Value.meets_error.2 ((Value.allMeet_cons.1 h).1.toNumber e he)

theorem keepsMeets_mean : KeepsMeets D mean := by
  intro vs h
  have hnumbers := errorIn_numbersOf (allMeet_scalars h)
  unfold mean numbers
  split
  · simp
  · simp
  · rename_i e he
    exact Value.meets_error.2 (hnumbers e he)

theorem keepsMeets_extreme (choose : Float → Float → Float) : KeepsMeets D (extreme choose) := by
  intro vs h
  have hnumbers := errorIn_numbersOf (allMeet_scalars h)
  unfold extreme numbers
  split
  · simp
  · simp
  · rename_i e he
    exact Value.meets_error.2 (hnumbers e he)

theorem errorIn_rowProduct (product : Float) (h : AllMeet D vs) : D.ErrorIn (rowProduct product vs) := by
  fun_induction rowProduct product vs with
  | case1 => exact errorIn_ok _
  | case2 product v vs x _ ih => exact ih (Value.allMeet_cons.1 h).2
  | case3 product v vs e he =>
    unfold factorOf at he
    split at he <;> cases he
    exact errorIn_error (Value.meets_error.1 (Value.allMeet_cons.1 h).1)

theorem meets_sumOfProducts (sum : Float) {rows : List (List Value)} (h : ∀ row ∈ rows, AllMeet D row) :
    (sumOfProducts sum rows).Meets D := by
  fun_induction sumOfProducts sum rows with
  | case1 sum => exact Value.meets_ofNumber _
  | case2 sum row rows x _ ih => exact ih (List.forall_mem_cons.1 h).2
  | case3 sum row rows e he => exact Value.meets_error.2 (errorIn_rowProduct 1 (List.forall_mem_cons.1 h).1 e he)

theorem keepsMeets_sumProduct : KeepsMeets D sumProduct := by
  intro vs h
  unfold sumProduct
  simp only
  split
  · simp
  · split
    · simp
    · refine meets_sumOfProducts 0 (List.forall_mem_map.2 fun i _ => List.forall_mem_map.2 ?_)
      exact List.forall_mem_map.2 fun v hv => (h v hv).flatten.getD Value.meets_undefined i

/-- A count is a word. -/
theorem meets_countOf (test : Value → Bool) (vs : List Value) : (countOf test vs).Meets D :=
  meets_number.2 (D.finite _ (Number.isFinite_ofNat (UInt64.toNat_lt _)))

theorem meets_statistics : ∀ f ∈ statistics, f.Meets D := by
  simp only [statistics, List.forall_mem_cons]
  exact ⟨meets_plain (by simp) fun vs h => meets_addAll {} (allMeet_scalars h),
    meets_plain (by simp) fun vs h => meets_multiplyAll 1 (allMeet_scalars h),
    meets_plain (by simp) keepsMeets_mean,
    meets_plain (by simp) (keepsMeets_extreme _),
    meets_plain (by simp) (keepsMeets_extreme _),
    meets_plain (by simp) fun vs _ => meets_countOf _ vs,
    meets_plain (by simp) fun vs _ => meets_countOf _ vs,
    meets_plain (by simp) keepsMeets_sumProduct, by simp⟩

/-! ### Powers, logarithms and rounding -/

theorem meets_significant (x digits : Float) : (significant x digits).Meets D := by
  unfold significant
  simp only
  split <;> simp [D.number_default]

theorem meets_modulo (x y : Float) : (modulo x y).Meets D := by
  unfold modulo
  split <;> simp

theorem meets_absolute (hall : ∀ x, D.number x) (h : v.Meets D) : (absolute v).Meets D := by
  have hscalar := h.scalar
  unfold absolute
  split
  · simp
  · exact meets_ofExcept hscalar.toNumber fun x => meets_number.2 (hall _)

theorem keepsMeets_normal : KeepsMeets D normal := by
  intro xs h
  have hthree : D.ErrorIn (threeNumbers xs) :=
    errorIn_bind (meets_argument h 0).toNumber fun _ => errorIn_bind (meets_argument h 1).toNumber fun _ =>
      errorIn_bind (meets_argument h 2).toNumber fun _ => errorIn_ok _
  unfold normal
  split
  · split <;> simp
  · rename_i e he
    exact Value.meets_error.2 (hthree e he)

theorem meets_arithmetic : ∀ f ∈ arithmetic, f.Checks D → f.Meets D := by
  have hdefault := D.number_default
  simp only [arithmetic, List.forall_mem_cons]
  refine ⟨fun _ => meets_plain (by simp) (keepsMeets_ofTwoNumbers fun _ _ => Value.meets_ofNumber _),
    fun _ => meets_plain (by simp) (keepsMeets_ofTwoNumbers meets_modulo),
    fun _ => meets_plain (by simp [hdefault]) (keepsMeets_ofTwoNumbers fun _ _ => Value.meets_ofNumber _),
    fun _ => meets_plain (by simp) (keepsMeets_ofOneNumber fun _ => Value.meets_ofNumber _),
    fun _ => meets_plain (by simp) (keepsMeets_ofOneNumber fun _ => Value.meets_ofNumber _),
    fun _ => meets_plain (by simp [hdefault]) (keepsMeets_ofTwoNumbers fun _ _ => Value.meets_ofNumber _),
    fun _ => meets_plain (by simp [hdefault]) (keepsMeets_ofTwoNumbers fun _ _ => Value.meets_ofNumber _),
    fun _ => meets_plain (by simp [hdefault]) (keepsMeets_ofTwoNumbers meets_significant),
    fun hall => meets_plain (by simp) fun _ h =>
      keepsMeets_elementwise (fun _ hxs => meets_absolute (hall (by decide)) (meets_argument hxs 0)) _ (h.take 1),
    fun _ => meets_plain (by simp) (keepsMeets_ofOneNumber fun _ => Value.meets_ofNumber _),
    fun _ => meets_plain (by simp [hdefault]) fun vs h => keepsMeets_elementwise keepsMeets_normal _ (h.take 3),
    fun hall => meets_plain (by simp) (keepsMeets_ofOneNumber fun _ => meets_number.2 (hall (by decide) _)),
    fun hall => meets_plain (by simp) (keepsMeets_ofOneNumber fun _ => meets_number.2 (hall (by decide) _)), by simp⟩

/-! ### Conditions -/

theorem keepsMeets_negation : KeepsMeets D negation := by
  intro vs h
  unfold negation
  split
  · simp
  · exact (h _ List.mem_cons_self).map fun u _ => Value.meets_boolean _
  · simp

theorem meets_branchAt (h : v.Meets D) (c r : Nat) : (branchAt v c r).Meets D := by
  unfold branchAt
  split
  · exact (Value.allMeet_getD (Value.meets_array.1 h) c).getD Value.meets_undefined r
  · exact h

theorem keepsMeets_choice : KeepsMeets D choice := by
  intro vs h
  unfold choice
  simp only
  split
  · rw [Value.meets_array]
    refine List.forall_mem_map.2 fun p _ => List.forall_mem_map.2 fun q _ => meets_branchAt ?_ _ _
    split
    · exact meets_argument h 1
    · exact meets_argument h 2
  · split
    · exact meets_argument h 1
    · exact meets_argument h 2

theorem keepsMeets_withoutError : KeepsMeets D withoutError := by
  intro vs h
  unfold withoutError
  split
  · exact meets_argument h 1
  · exact meets_argument h 0

theorem meets_logic : ∀ f ∈ logic, f.Meets D := by
  simp only [logic, List.forall_mem_cons]
  exact ⟨meets_plain (by simp) fun _ _ => Value.meets_boolean _,
    meets_plain (by simp) fun _ _ => Value.meets_boolean _,
    meets_plain (by simp) keepsMeets_negation,
    meets_plain (by simp) keepsMeets_choice,
    meets_plain (by simp [D.number_default]) keepsMeets_withoutError,
    meets_plain (by simp) fun _ _ => Value.meets_boolean _, by simp⟩

/-! ### Tables -/

theorem keepsMeets_lookUp : KeepsMeets D lookUp := by
  intro vs h
  have htable := (meets_argument h 1).columns
  have hcolumn := (meets_argument h 2).toNumber
  unfold lookUp
  simp only
  split
  · rename_i e he
    exact Value.meets_error.2 (hcolumn e he)
  · split
    · rename_i keys results _ hresults
      have hresults' : AllMeet D results := htable results (List.mem_of_getElem? hresults)
      split
      · unfold lookUpNearest
        split
        · simp
        · split
          · exact hresults'.getD Value.meets_undefined _
          · simp
      · unfold lookUpEqual
        split
        · exact hresults'.getD (by simp) _
        · simp
    · simp

theorem allMeet_sorted (h : AllMeet D vs) : AllMeet D (sorted vs) := by
  have hscalars := allMeet_scalars h
  unfold sorted
  simp only
  split <;> exact fun v hv => hscalars v (List.mem_mergeSort.1 hv)

theorem meets_transpose (h : v.Meets D) : (transpose v).Meets D := by
  unfold transpose
  split
  · rename_i columns
    rw [Value.meets_array] at h ⊢
    refine List.forall_mem_map.2 fun r _ => List.forall_mem_map.2 fun c hc => ?_
    exact (h c hc).getD Value.meets_undefined r
  · exact h

theorem meets_reverse (h : v.Meets D) : (reverse v).Meets D := by
  unfold reverse
  split
  · simp only [Value.meets_array, List.forall_mem_singleton] at h ⊢
    exact fun u hu => h u (List.mem_reverse.1 hu)
  · simp only [Value.meets_array] at h ⊢
    exact fun c hc => h c (List.mem_reverse.1 hc)
  · simp

theorem meets_tables : ∀ f ∈ tables, f.Meets D := by
  simp only [tables, List.forall_mem_cons]
  exact ⟨meets_plain (by simp) keepsMeets_lookUp,
    meets_plain (by simp) fun vs h => by simpa using allMeet_sorted h,
    meets_plain (by simp) fun vs h => meets_transpose (meets_argument h 0),
    meets_plain (by simp) fun vs h => meets_reverse (meets_argument h 0), by simp⟩

/-! ### Dates, texts and facts about cells -/

theorem meets_datePart {part : Date → Int}
    (hpart : ∀ n, Date.firstSerial ≤ n → n ≤ Date.lastSerial → (part (.ofSerial n)).natAbs < 2 ^ 64) (x : Float) :
    (datePart part x).Meets D := by
  unfold datePart
  split
  · rename_i i hi
    obtain ⟨hfirst, hlast⟩ := Instant.bounds_of_serial hi
    exact meets_number.2 (D.finite _ (Number.isFinite_ofInt (hpart i.day hfirst hlast)))
  · simp

theorem meets_calendar : ∀ f ∈ calendar, f.Meets D := by
  simp only [calendar, List.forall_mem_cons]
  refine ⟨⟨by simp, fun _ _ _ hclock _ => .pure (meets_number.2 hclock.now)⟩,
    ⟨by simp, fun _ _ _ hclock _ => .pure (meets_number.2 hclock.noon)⟩,
    meets_plain (by simp) (keepsMeets_ofOneNumber (meets_datePart fun n hfirst hlast => ?_)),
    meets_plain (by simp) (keepsMeets_ofOneNumber (meets_datePart fun n hfirst hlast => ?_)),
    meets_plain (by simp) (keepsMeets_ofOneNumber (meets_datePart fun n hfirst hlast => ?_)), by simp⟩
  · exact (Date.ofSerial_bounds hfirst hlast).1
  · exact (Date.ofSerial_bounds hfirst hlast).2.1
  · exact (Date.ofSerial_bounds hfirst hlast).2.2

theorem natAbs_of_hexInteger? {cs : List Char} {i : Int} (h : hexInteger? cs = some i) : i.natAbs < 2 ^ 64 := by
  simp only [hexInteger?] at h
  split at h
  · split at h
    · rename_i hword
      cases h
      simp only [Bool.and_eq_true, decide_eq_true_eq] at hword
      omega
    · cases h
  · cases h

theorem meets_ofHex (v : Value) : (ofHex v).Meets D := by
  unfold ofHex
  simp only
  split
  · rename_i i hi
    exact meets_number.2 (D.finite _ (Number.isFinite_ofInt (natAbs_of_hexInteger? hi)))
  · simp

theorem meets_toHex (h : v.Meets D) : (toHex v).Meets D := by
  refine meets_ofExcept h.toNumber fun x => ?_
  unfold hexText
  split <;> simp

theorem meets_texts : ∀ f ∈ texts, f.Meets D := by
  simp only [texts, List.forall_mem_cons]
  exact ⟨meets_plain (by simp) fun _ _ => Value.meets_text _,
    meets_plain (by simp) fun _ h => keepsMeets_elementwise (fun _ _ => meets_ofHex _) _ (h.take 1),
    meets_plain (by simp) fun _ h =>
      keepsMeets_elementwise (fun _ hxs => meets_toHex (meets_argument hxs 0)) _ (h.take 1), by simp⟩

theorem keepsMeets_cellInfo : KeepsMeets D cellInfo := by
  intro vs _
  unfold cellInfo
  split
  · simp only
    split
    · simp
    · split
      · split <;> simp
      · simp
  · simp

theorem meets_information : ∀ f ∈ information, f.Meets D := by
  simp only [information, List.forall_mem_singleton]
  exact meets_plain (by simp) keepsMeets_cellInfo

theorem meets_widgets : ∀ f ∈ widgets, f.Meets D := by
  simp only [widgets, List.forall_mem_cons]
  exact ⟨⟨by simp [plain], fun _ _ _ _ _ => .pure (Value.meets_text _)⟩,
    ⟨by simp [plain], fun _ _ _ _ _ => .pure (Value.meets_boolean _)⟩,
    ⟨by simp [plot], fun _ _ _ _ _ => .pure Value.meets_undefined⟩,
    ⟨by simp [plot], fun _ _ _ _ _ => .pure Value.meets_undefined⟩, by simp⟩

/-! ### Complex numbers and elementary functions -/

/-- The parts of an argument that is taken as a complex number. -/
theorem number_of_complexOf? (h : v.Meets D) {z : Complex} (hz : complexOf? v = some z) :
    D.number z.real ∧ D.number z.imaginary := by
  have hzero := D.number_default.1
  have hscalar := h.scalar
  unfold complexOf? at hz
  split at hz
  · rename_i heq
    cases hz
    exact meets_complex.1 (heq ▸ hscalar)
  · rename_i heq
    cases hz
    exact ⟨meets_number.1 (heq ▸ hscalar), hzero⟩
  · cases hz
    exact ⟨hzero, hzero⟩
  · split at hz
    · cases hz
      exact ⟨hzero, hzero⟩
    · cases hz
  · cases hz

theorem keepsMeets_ofOneComplex {f : Complex → Value}
    (hf : ∀ z, D.number z.real → D.number z.imaginary → (f z).Meets D) : KeepsMeets D (ofOneComplex f) := by
  refine fun _ h => keepsMeets_elementwise (fun _ hxs => ?_) _ (h.take 1)
  split
  · rename_i z hz
    obtain ⟨hreal, himaginary⟩ := number_of_complexOf? (meets_argument hxs 0) hz
    exact hf z hreal himaginary
  · simp

theorem meets_complexLogarithm (z : Complex) : (complexLogarithm z).Meets D := by
  unfold complexLogarithm
  split <;> simp

theorem meets_complexNumbers : ∀ f ∈ complexNumbers, f.Meets D := by
  simp only [complexNumbers, List.forall_mem_cons]
  exact ⟨meets_plain (by simp) fun _ _ => Value.meets_boolean _,
    meets_plain (by simp) (keepsMeets_ofOneComplex fun _ hreal _ => meets_number.2 hreal),
    meets_plain (by simp) (keepsMeets_ofOneComplex fun _ _ himaginary => meets_number.2 himaginary),
    meets_plain (by simp) (keepsMeets_ofOneComplex fun _ _ _ => Value.meets_ofComplex _),
    meets_plain (by simp) (keepsMeets_ofOneComplex fun _ _ _ => Value.meets_ofNumber _),
    meets_plain (by simp [D.number_default]) (keepsMeets_ofTwoNumbers fun _ _ => Value.meets_ofComplex _),
    meets_plain (by simp) (keepsMeets_ofOneComplex fun _ hreal himaginary => meets_complex.2 ⟨hreal, himaginary⟩),
    meets_plain (by simp) (keepsMeets_ofOneComplex fun z _ _ => meets_complexLogarithm z), by simp⟩

theorem meets_hypotenuse (total : Float) (h : AllMeet D vs) : (hypotenuse total vs).Meets D := by
  fun_induction hypotenuse total vs with
  | case1 total => exact Value.meets_ofNumber _
  | case2 total v vs x _ ih => exact ih (Value.allMeet_cons.1 h).2
  | case3 total v vs e he => exact Value.meets_error.2 ((Value.allMeet_cons.1 h).1.toNumber e he)

theorem meets_constant {name : String} {bits : UInt64} (h : (Float.ofBits bits).isFinite = true) :
    (constant name bits).Meets D :=
  meets_plain (by simp) fun _ _ => meets_number.2 (D.finite _ h)

theorem meets_unaryFunction (name : String) (f : Float → Float) : (unaryFunction name f).Meets D :=
  meets_plain (by simp) (keepsMeets_ofOneNumber fun _ => Value.meets_ofNumber _)

theorem meets_binaryFunction (name : String) (f : Float → Float → Float) : (binaryFunction name f).Meets D :=
  meets_plain (by simp) (keepsMeets_ofTwoNumbers fun _ _ => Value.meets_ofNumber _)

theorem meets_elementary : ∀ f ∈ elementary, f.Meets D := by
  have hhypot : (plain "HYPOT" [] fun vs => hypotenuse 0 (scalars vs)).Meets D :=
    meets_plain (by simp) fun vs h => meets_hypotenuse 0 (allMeet_scalars h)
  simp only [elementary, List.forall_mem_cons, meets_unaryFunction, meets_binaryFunction, hhypot, true_and]
  exact ⟨meets_constant (by decide), meets_constant (by decide), meets_constant (by decide), meets_constant (by decide),
    meets_constant (by decide), meets_constant (by decide), meets_constant (by decide), meets_constant (by decide),
    by simp⟩

/-! ### Functions with effects -/

/-- A number that is drawn is finite. -/
theorem yields_random : Yields (fun x => x.isFinite = true) Action.random :=
  fun e => Number.isFinite_uniform e.model.generator

theorem meets_randomNumbers : ∀ f ∈ randomNumbers, f.Checks D → f.Meets D := by
  have hbetween (hall : ∀ x, D.number x) (x y : Float) : Yields (Value.Meets D) (between x y) :=
    yields_random.bind fun _ _ => .pure (meets_number.2 (hall _))
  have hrandom : Yields (Value.Meets D) (do return .number (← Action.random) : Action Value) :=
    yields_random.bind fun x hx => .pure (meets_number.2 (D.finite x hx))
  have hbounds : ∀ p ∈ boundParameters, ∀ v ∈ p.default, v.Meets D := by simp [boundParameters, D.number_default]
  simp only [randomNumbers, List.forall_mem_cons]
  exact ⟨fun _ => ⟨by simp, fun _ _ _ _ _ => hrandom⟩,
    fun hall => ⟨hbounds, fun _ _ _ _ h => yields_meets_ofTwoNumbersM (hbetween (hall (by decide))) h⟩,
    fun hall => ⟨hbounds, fun _ _ _ _ h => yields_meets_ofTwoNumbersM (hbetween (hall (by decide))) h⟩,
    fun _ => meets_plain (by simp) fun vs h => meets_argument h 0, by simp⟩

theorem yields_meets_readText {site : CallSite} (h : site.store.Meets D) (s : String) :
    Yields (Value.Meets D) (readText site s) := by
  unfold readText
  split
  · exact .pure (by simp)
  · split
    · exact (Yields.any _).bind fun _ _ => .pure (h.readArea? _)
    · exact .pure (by simp)

theorem meets_indirect : ∀ f ∈ indirect, f.Meets D := by
  have happly (site : CallSite) (vs : List Value) (hstore : site.store.Meets D) (h : AllMeet D vs) :
      Yields (Value.Meets D) (elementwiseM (fun xs => readText site (argument xs 0).toText) (vs.take 1)) :=
    yields_meets_elementwiseM (fun xs _ => yields_meets_readText hstore _) (h.take 1)
  simp only [indirect, List.forall_mem_singleton]
  exact ⟨by simp, fun site vs hstore _ h => happly site vs hstore h⟩

end Function

/-! ### The standard library -/

/-- The functions of the standard library that check their numbers, if this is demanded, keep the demand. -/
theorem Library.meets_of_standard {name : String} {f : Function} (h : standard.find? name = some f)
    (hchecks : f.Checks D) : f.Meets D := by
  obtain ⟨fs, hfs, hf⟩ := mem_of_find?_standard h
  simp only [List.mem_cons, List.not_mem_nil, or_false] at hfs
  rcases hfs with rfl | rfl | rfl | rfl | rfl | rfl | rfl | rfl | rfl | rfl | rfl | rfl
  · exact Function.meets_statistics f hf
  · exact Function.meets_arithmetic f hf hchecks
  · exact Function.meets_logic f hf
  · exact Function.meets_tables f hf
  · exact Function.meets_calendar f hf
  · exact Function.meets_information f hf
  · exact Function.meets_texts f hf
  · exact Function.meets_widgets f hf
  · exact Function.meets_complexNumbers f hf
  · exact Function.meets_randomNumbers f hf hchecks
  · exact Function.meets_indirect f hf
  · exact Function.meets_elementary f hf

end Spreadsheet
