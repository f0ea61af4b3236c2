import Mathlib.Data.List.Basic
import Spreadsheet.Evaluation.Operator
import Spreadsheet.Function.Arguments

/-!
Values without the explanations of their errors. Coercions, comparisons, broadcasting and operators see the codes of
errors and nothing else of them: what they make of two values that differ in explanations differs in explanations.
-/

namespace Spreadsheet

/-- The error without its explanation. -/
def CellError.bare (e : CellError) : CellError := ⟨e.code, none⟩

namespace Value

mutual

/-- The value with no error in it explained. -/
def bare : Value → Value
  | .error e => .error e.bare
  | .array cs => .array (bareColumns cs)
  | .metadata p v format => .metadata p (bare v) format
  | v => v

/-- The columns with no error in them explained. -/
def bareColumns : List (List Value) → List (List Value)
  | [] => []
  | c :: cs => bareColumn c :: bareColumns cs

/-- The column with no error in it explained. -/
def bareColumn : List Value → List Value
  | [] => []
  | v :: vs => bare v :: bareColumn vs

end

variable {α β : Type} {v w a b : Value} {vs ws : List Value} {cs : List (List Value)}

theorem bareColumn_eq (vs : List Value) : bareColumn vs = vs.map bare := by
  induction vs with
  | nil => rfl
  | cons v vs ih => rw [bareColumn, ih, List.map_cons]

theorem bareColumns_eq (cs : List (List Value)) : bareColumns cs = cs.map (List.map bare) := by
  induction cs with
  | nil => rfl
  | cons c cs ih => rw [bareColumns, ih, bareColumn_eq, List.map_cons]

/-! ### Values by their form -/

@[simp] theorem bare_undefined : undefined.bare = undefined := rfl

@[simp] theorem bare_number (x : Float) : (number x).bare = number x := rfl

@[simp] theorem bare_text (s : String) : (text s).bare = text s := rfl

@[simp] theorem bare_boolean (b : Bool) : (boolean b).bare = boolean b := rfl

@[simp] theorem bare_complex (z : Complex) : (complex z).bare = complex z := rfl

@[simp] theorem bare_array (cs : List (List Value)) : (array cs).bare = array (cs.map (List.map bare)) := by
  rw [bare, bareColumns_eq]

@[simp] theorem bare_metadata (p : Position) (v : Value) (format : Option String) :
    (metadata p v format).bare = metadata p v.bare format := rfl

@[simp] theorem bare_error (e : CellError) : (error e).bare = ofCode e.code := rfl

@[simp] theorem bare_ofCode (code : ErrorCode) : (ofCode code).bare = ofCode code := rfl

@[simp] theorem bare_explained (code : ErrorCode) (message : String) :
    (explained code message).bare = ofCode code := rfl

mutual

@[simp] theorem bare_bare (v : Value) : v.bare.bare = v.bare := by
  cases v with
  | array cs => rw [bare, bare, bareColumns_bareColumns cs]
  | metadata p v format => rw [bare_metadata, bare_metadata, bare_bare v]
  | _ => rfl

theorem bareColumns_bareColumns (cs : List (List Value)) : bareColumns (bareColumns cs) = bareColumns cs := by
  cases cs with
  | nil => rfl
  | cons c cs => rw [bareColumns, bareColumns, bareColumn_bareColumn c, bareColumns_bareColumns cs]

theorem bareColumn_bareColumn (vs : List Value) : bareColumn (bareColumn vs) = bareColumn vs := by
  cases vs with
  | nil => rfl
  | cons v vs => rw [bareColumn, bareColumn, bare_bare v, bareColumn_bareColumn vs]

end

@[simp] theorem isError_bare (v : Value) : v.bare.isError = v.isError := by cases v <;> simp [isError, ofCode]

@[simp] theorem error?_bare (v : Value) : v.bare.error? = v.error?.map CellError.bare := by
  cases v <;> simp [error?, ofCode, CellError.bare]

@[simp] theorem isUndefined_bare (v : Value) : v.bare.isUndefined = v.isUndefined := by
  cases v <;> simp [isUndefined, ofCode]

@[simp] theorem isArray_bare (v : Value) : v.bare.isArray = v.isArray := by cases v <;> simp [isArray, ofCode]

@[simp] theorem height_map_bare (cs : List (List Value)) : height (cs.map (List.map bare)) = height cs := by
  cases cs <;> simp [height]

@[simp] theorem shape_bare (v : Value) : v.bare.shape = v.shape := by cases v <;> simp [shape, ofCode]

/-- An array is unpacked when it has one cell, and erasure keeps the number of cells. -/
@[simp] theorem scalar_bare : ∀ v : Value, v.bare.scalar = v.scalar.bare
  | .metadata _ v _ => scalar_bare v
  | .array [[v]] => scalar_bare v
  | .array [] | .array [[]] | .array ([] :: _ :: _) => rfl
  | .array ([_] :: _ :: _) | .array ((_ :: _ :: _) :: _) => rfl
  | .undefined | .number _ | .text _ | .boolean _ | .complex _ | .error _ => rfl

mutual

@[simp] theorem flatten_bare (v : Value) : v.bare.flatten = v.flatten.map bare := by
  cases v with
  | array cs => rw [bare, flatten, flatten, flattenColumns_bare cs]
  | metadata p v format => rw [bare_metadata, flatten, flatten, flatten_bare v]
  | _ => rfl

theorem flattenColumns_bare (cs : List (List Value)) :
    flattenColumns (bareColumns cs) = (flattenColumns cs).map bare := by
  cases cs with
  | nil => rfl
  | cons c cs =>
    rw [bareColumns, flattenColumns, flattenColumns, flattenColumn_bare c, flattenColumns_bare cs, List.map_append]

theorem flattenColumn_bare (vs : List Value) : flattenColumn (bareColumn vs) = (flattenColumn vs).map bare := by
  cases vs with
  | nil => rfl
  | cons v vs => rw [bareColumn, flattenColumn, flattenColumn, flatten_bare v, flattenColumn_bare vs, List.map_append]

end

@[simp] theorem columns_bare : ∀ v : Value, v.bare.columns = v.columns.map (List.map bare)
  | .array cs => bareColumns_eq cs
  | .metadata _ v _ => columns_bare v
  | .undefined | .number _ | .text _ | .boolean _ | .complex _ | .error _ => rfl

/-! ### Texts -/

theorem displayColumn_cons_of_ne (hv : ∀ s, v ≠ .text s) (vs : List Value) :
    displayColumn (v :: vs) = v.display :: displayColumn vs := by
  cases v with
  | text s => exact absurd rfl (hv s)
  | _ => rfl

mutual

@[simp] theorem display_bare (v : Value) : v.bare.display = v.display := by
  cases v with
  | array cs => rw [bare, display, display, displayColumns_bare cs]
  | metadata p v format => rw [bare_metadata, display, display, display_bare v]
  | _ => rfl

theorem displayColumns_bare (cs : List (List Value)) : displayColumns (bareColumns cs) = displayColumns cs := by
  cases cs with
  | nil => rfl
  | cons c cs => rw [bareColumns, displayColumns, displayColumns, displayColumn_bare c, displayColumns_bare cs]

theorem displayColumn_bare (vs : List Value) : displayColumn (bareColumn vs) = displayColumn vs := by
  cases vs with
  | nil => rfl
  | cons v vs =>
    have hv := display_bare v
    have hvs := displayColumn_bare vs
    rw [bareColumn]
    by_cases htext : ∃ s, v = .text s
    · obtain ⟨s, rfl⟩ := htext
      rw [bare_text, displayColumn, displayColumn, hvs]
    · have hne (s : String) : v ≠ .text s := fun h => htext ⟨s, h⟩
      have hbare (s : String) : v.bare ≠ .text s := by
        cases v with
        | text t => exact absurd rfl (hne t)
        | array cs => simp
        | _ => exact Value.noConfusion
      rw [displayColumn_cons_of_ne hne, displayColumn_cons_of_ne hbare, hv, hvs]

end

@[simp] theorem toText_bare (v : Value) : v.bare.toText = v.toText := by
  rw [toText, toText, scalar_bare]
  cases v.scalar with
  | array cs => exact display_bare (.array cs)
  | metadata p v format => exact display_bare (.metadata p v format)
  | _ => rfl

/-! ### Coercions -/

/-- Results that are the same but for the explanation of an error. -/
inductive Alike : Except CellError α → Except CellError α → Prop where
  | ok (a : α) : Alike (.ok a) (.ok a)
  | error {e e' : CellError} (h : e.code = e'.code) : Alike (.error e) (.error e')

theorem Alike.refl (r : Except CellError α) : Alike r r := by
  cases r with
  | ok a => exact .ok a
  | error e => exact .error rfl

theorem Alike.bind {r r' : Except CellError α} {f f' : α → Except CellError β} (h : Alike r r')
    (hf : ∀ a, Alike (f a) (f' a)) : Alike (r >>= f) (r' >>= f') := by
  cases h with
  | ok a => exact hf a
  | error h => exact .error h

theorem Alike.map {r r' : Except CellError α} (h : Alike r r') (f : α → β) : Alike (r.map f) (r'.map f) := by
  cases h with
  | ok a => exact .ok _
  | error h => exact .error h

theorem Alike.ofExcept {r r' : Except CellError α} {f f' : α → Value} (h : Alike r r')
    (hf : ∀ a, (f a).bare = (f' a).bare) : (ofExcept f r).bare = (ofExcept f' r').bare := by
  cases h with
  | ok a => exact hf a
  | error h => exact congrArg ofCode h

theorem alike_toNumber_bare (v : Value) : Alike v.bare.toNumber v.toNumber := by
  unfold toNumber
  rw [scalar_bare]
  cases v.scalar with
  | array cs =>
    rw [bare_array]
    exact .refl _
  | error e => exact .error rfl
  | _ => exact .refl _

theorem alike_toComplex_bare (v : Value) : Alike v.bare.toComplex v.toComplex := by
  have h := alike_toNumber_bare v.scalar
  unfold toComplex
  rw [scalar_bare]
  cases hv : v.scalar with
  | complex z => exact .ok z
  | array cs =>
    rw [hv] at h
    rw [bare_array] at h ⊢
    exact h.map _
  | _ =>
    rw [hv] at h
    exact h.map _

@[simp] theorem isTrue_bare (v : Value) : Function.isTrue v.bare = Function.isTrue v := by
  unfold Function.isTrue
  rw [scalar_bare]
  cases v.scalar with
  | array cs => rw [bare_array]
  | _ => rfl

/-! ### Comparisons -/

@[simp] theorem comparand_bare (v : Value) : v.bare.comparand = v.comparand := by
  unfold comparand
  rw [scalar_bare]
  cases v.scalar with
  | array cs => rw [bare_array]
  | _ => rfl

@[simp] theorem looselyEqual_bare (v w : Value) : v.bare.looselyEqual w.bare = v.looselyEqual w := by
  rw [looselyEqual, looselyEqual, comparand_bare, comparand_bare]

@[simp] theorem order_bare (v w : Value) : v.bare.order w.bare = v.order w := by
  rw [order, order, comparand_bare, comparand_bare]

/-! ### Operations element by element -/

theorem getD_map_bare (vs : List Value) (i : Nat) : (vs.map bare).getD i .undefined = (vs.getD i .undefined).bare := by
  rw [List.getD_eq_getElem?_getD, List.getD_eq_getElem?_getD, List.getElem?_map]
  cases vs[i]? <;> rfl

theorem getD_map_map_bare (cs : List (List Value)) (i : Nat) :
    (cs.map (List.map bare)).getD i [] = (cs.getD i []).map bare := by
  rw [List.getD_eq_getElem?_getD, List.getD_eq_getElem?_getD, List.getElem?_map]
  cases cs[i]? <;> rfl

theorem rowAt_map_bare (cs : List (List Value)) (r : Nat) :
    rowAt (cs.map (List.map bare)) r = (rowAt cs r).map bare := by
  rw [rowAt, rowAt, List.map_map, List.map_map]
  exact List.map_congr_left fun c _ => getD_map_bare c r

theorem repeatDown_map_bare (height rows : Nat) (vs : List Value) :
    repeatDown height rows (vs.map bare) = (repeatDown height rows vs).map bare := by
  rw [repeatDown, repeatDown, List.map_append, List.map_map]
  refine congrArg _ (List.map_congr_left fun r _ => ?_)
  exact getD_map_bare vs (r % height)

theorem recycle_map_bare (cs : List (List Value)) (width rows : Nat) :
    recycle (cs.map (List.map bare)) width rows = (recycle cs width rows).map (List.map bare) := by
  have htall : (cs.map (List.map bare)).map (repeatDown (height cs) rows) =
      (cs.map (repeatDown (height cs) rows)).map (List.map bare) := by
    rw [List.map_map, List.map_map]
    exact List.map_congr_left fun c _ => repeatDown_map_bare _ _ c
  unfold recycle
  simp only [height_map_bare, htall]
  split
  · simp
  · generalize cs.map (repeatDown (height cs) rows) = tall
    rw [List.map_append, List.length_map, List.map_map]
    refine congrArg _ (List.map_congr_left fun c _ => ?_)
    exact getD_map_map_bare tall _

theorem commonShape_map_bare (vs : List Value) : commonShape (vs.map bare) = commonShape vs := by
  rw [commonShape, commonShape, List.foldl_map]
  simp only [shape_bare]

theorem map_bare {f : Value → Value} (hf : ∀ v : Value, (f v.bare).bare = (f v).bare) (v : Value) :
    (v.bare.map f).bare = (v.map f).bare := by
  cases v with
  | array cs =>
    rw [bare_array, map, map, bare_array, bare_array, List.map_map, List.map_map, List.map_map]
    refine congrArg _ (List.map_congr_left fun c _ => ?_)
    simp only [Function.comp_apply, List.map_map]
    exact List.map_congr_left fun v _ => hf v
  | _ => exact hf _

theorem zip_bare {f : Value → Value → Value} (hf : ∀ a b : Value, (f a.bare b.bare).bare = (f a b).bare) (a b : Value) :
    (zip f a.bare b.bare).bare = (zip f a b).bare := by
  have hshape : commonShape [a.bare, b.bare] = commonShape [a, b] := commonShape_map_bare [a, b]
  unfold zip
  simp only [isArray_bare, hshape, columns_bare, recycle_map_bare]
  split
  · exact hf a b
  · rw [bare_array, bare_array, List.map_zipWith, List.map_zipWith, List.zipWith_map]
    refine congrArg array (congrArg₂ (fun g => List.zipWith g _) ?_ rfl)
    funext c d
    rw [List.map_zipWith, List.map_zipWith, List.zipWith_map]
    exact congrArg (fun g => List.zipWith g c d) (funext₂ hf)

end Value

/-! ### Operators -/

namespace Operator

open Value (Alike bare_bare scalar_bare alike_toNumber_bare alike_toComplex_bare)

@[simp] theorem isProperlyComplex_bare (v : Value) : isProperlyComplex v.bare = isProperlyComplex v := by
  unfold isProperlyComplex
  rw [scalar_bare]
  cases v.scalar with
  | array cs => rw [Value.bare_array]
  | _ => rfl

theorem alike_both_bare {α : Type} {r r' t t' : Except CellError α} (h : Alike r r') (h' : Alike t t') :
    Alike (both r t) (both r' t') :=
  h.bind fun _ => h'.bind fun _ => .refl _

theorem bare_negate_bare (v : Value) : (negate v.bare).bare = (negate v).bare := by
  have h := alike_toNumber_bare v.scalar
  unfold negate
  rw [scalar_bare]
  cases hv : v.scalar with
  | array cs =>
    rw [hv] at h
    rw [Value.bare_array] at h ⊢
    exact h.ofExcept fun _ => rfl
  | error e => rfl
  | complex z => rfl
  | _ =>
    rw [hv] at h
    exact h.ofExcept fun _ => rfl

theorem bare_applySign_bare (symbol : String) (v : Value) :
    (applySign symbol v.bare).bare = (applySign symbol v).bare := by
  unfold applySign
  split
  · exact bare_bare v
  · split
    · exact Value.map_bare bare_negate_bare v
    · rfl

theorem bare_arithmetic_bare (op : Arithmetic) (a b : Value) :
    (arithmetic op a.bare b.bare).bare = (arithmetic op a b).bare := by
  unfold arithmetic
  rw [isProperlyComplex_bare, isProperlyComplex_bare]
  split
  · exact (alike_both_bare (alike_toComplex_bare a) (alike_toComplex_bare b)).ofExcept fun _ => rfl
  · exact (alike_both_bare (alike_toNumber_bare a) (alike_toNumber_bare b)).ofExcept fun _ => rfl

theorem bare_onScalars_bare (m : Meaning) (a b : Value) :
    (m.onScalars a.bare b.bare).bare = (m.onScalars a b).bare := by
  cases m with
  | arithmetic op => exact bare_arithmetic_bare op a b
  | _ => simp [Meaning.onScalars]

/-- Errors go first, the left one before the right one. -/
theorem applyScalars_eq (symbol : String) (a b : Value) : applyScalars symbol a b =
    match a.scalar.error?, b.scalar.error? with
    | some e, _ => .error e
    | none, some e => .error e
    | none, none =>
      match meaning? symbol with
      | some m => m.onScalars a b
      | none => .ofCode .expr := by
  unfold applyScalars
  cases a.scalar <;> cases b.scalar <;> rfl

theorem bare_applyScalars_bare (symbol : String) (a b : Value) :
    (applyScalars symbol a.bare b.bare).bare = (applyScalars symbol a b).bare := by
  rw [applyScalars_eq, applyScalars_eq, scalar_bare, scalar_bare, Value.error?_bare, Value.error?_bare]
  cases a.scalar.error? with
  | some e => rfl
  | none =>
    cases b.scalar.error? with
    | some e => rfl
    | none =>
      cases meaning? symbol with
      | some m => exact bare_onScalars_bare m a b
      | none => rfl

theorem bare_applyBinary_bare (symbol : String) (a b : Value) :
    (applyBinary symbol a.bare b.bare).bare = (applyBinary symbol a b).bare :=
  Value.zip_bare (bare_applyScalars_bare symbol) a b

end Operator

end Spreadsheet
