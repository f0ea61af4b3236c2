import Spreadsheet.Evaluation.Operator
import Spreadsheet.Formula.Operator
import Spreadsheet.Store

/-!
Demands on the scalars of values. A demand says which numbers and which errors may stand in a value, at any depth. What
coercions, broadcasting and operators make meets every demand: they check that their results are finite, hand errors on,
and make errors that all demands admit.
-/

namespace Spreadsheet

/-- What is demanded of the numbers and of the errors among the scalars of a value. Finite numbers are always good
enough, and so are all errors but that of an expression that cannot be evaluated. -/
structure Demand where
  number : Float → Prop
  error : CellError → Prop
  finite : ∀ x, x.isFinite = true → number x
  sound : ∀ e, e.code ≠ .expr → error e

variable {D : Demand}

namespace Demand

/-- Whether a scalar is as demanded. -/
def Admits (D : Demand) : Value → Prop
  | .number x => D.number x
  | .complex z => D.number z.real ∧ D.number z.imaginary
  | .error e => D.error e
  | _ => True

/-- A result that is no error which is not admitted. -/
def ErrorIn {α : Type} (D : Demand) (r : Except CellError α) : Prop := ∀ e, r = .error e → D.error e

/-- Numbers that functions have as defaults. -/
theorem number_default (D : Demand) : D.number 0 ∧ D.number 1 ∧ D.number 2 ∧ D.number 10 :=
  ⟨D.finite 0 (by decide), D.finite 1 (by decide), D.finite 2 (by decide), D.finite 10 (by decide)⟩

end Demand

/-- A value all of whose scalars are as demanded. -/
def Value.Meets (D : Demand) (v : Value) : Prop := ∀ u ∈ v.flatten, D.Admits u

/-- Values all of which are as demanded. -/
def Value.AllMeet (D : Demand) (vs : List Value) : Prop := ∀ v ∈ vs, v.Meets D

namespace Value

variable {α β : Type} {v w a b : Value} {vs ws : List Value} {cs : List (List Value)}

/-! ### Values by their form -/

section

attribute [local simp] flatten flattenColumn flattenColumns Demand.Admits

@[simp] theorem meets_undefined : undefined.Meets D := by simp [Meets]

@[simp] theorem meets_number {x : Float} : (number x).Meets D ↔ D.number x := by simp [Meets]

@[simp] theorem meets_text (s : String) : (text s).Meets D := by simp [Meets]

@[simp] theorem meets_boolean (b : Bool) : (boolean b).Meets D := by simp [Meets]

@[simp] theorem meets_complex {z : Complex} : (complex z).Meets D ↔ D.number z.real ∧ D.number z.imaginary := by
  simp [Meets]

@[simp] theorem meets_error {e : CellError} : (error e).Meets D ↔ D.error e := by simp [Meets]

@[simp] theorem meets_metadata {p : Position} {format : Option String} : (metadata p v format).Meets D ↔ v.Meets D := by
  simp [Meets]

theorem mem_flattenColumn {u : Value} : u ∈ flattenColumn vs ↔ ∃ v ∈ vs, u ∈ v.flatten := by
  induction vs with
  | nil => simp
  | cons v vs ih => simp [ih]

theorem mem_flattenColumns {u : Value} : u ∈ flattenColumns cs ↔ ∃ c ∈ cs, ∃ v ∈ c, u ∈ v.flatten := by
  induction cs with
  | nil => simp
  | cons c cs ih => simp [ih, mem_flattenColumn]

end

@[simp] theorem meets_ofCode {code : ErrorCode} (h : code ≠ .expr) : (ofCode code).Meets D :=
  meets_error.2 (D.sound _ h)

@[simp] theorem meets_explained {code : ErrorCode} {message : String} (h : code ≠ .expr) :
    (explained code message).Meets D :=
  meets_error.2 (D.sound _ h)

/-- An array is as demanded if its members are. -/
@[simp] theorem meets_array : (array cs).Meets D ↔ ∀ c ∈ cs, AllMeet D c := by
  simp only [Meets, flatten, mem_flattenColumns]
  constructor
  · exact fun h c hc v hv u hu => h u ⟨c, hc, v, hv, hu⟩
  · rintro h u ⟨c, hc, v, hv, hu⟩
    exact h c hc v hv u hu

@[simp] theorem allMeet_nil : AllMeet D [] := fun _ h => absurd h List.not_mem_nil

@[simp] theorem allMeet_cons : AllMeet D (v :: vs) ↔ v.Meets D ∧ AllMeet D vs := List.forall_mem_cons

theorem AllMeet.of_subset (h : AllMeet D vs) (hsub : ws ⊆ vs) : AllMeet D ws := fun v hv => h v (hsub hv)

theorem AllMeet.take (h : AllMeet D vs) (n : Nat) : AllMeet D (vs.take n) := h.of_subset (List.take_subset n vs)

/-- What stands at a place in a list, or a default, is as demanded. -/
theorem AllMeet.getD (h : AllMeet D vs) {d : Value} (hd : d.Meets D) (i : Nat) : (vs.getD i d).Meets D := by
  rw [List.getD_eq_getElem?_getD]
  cases hi : vs[i]? with
  | none => exact hd
  | some v => exact h v (List.mem_of_getElem? hi)

theorem allMeet_getD (h : ∀ c ∈ cs, AllMeet D c) (i : Nat) : AllMeet D (cs.getD i []) := by
  rw [List.getD_eq_getElem?_getD]
  cases hi : cs[i]? with
  | none => exact allMeet_nil
  | some c => exact h c (List.mem_of_getElem? hi)

mutual

/-- The scalars of a value have no parts. -/
theorem flatten_of_mem (v : Value) : ∀ u ∈ v.flatten, u.flatten = [u] := by
  cases v with
  | array cs => exact flatten_of_mem_columns cs
  | metadata p v format => exact flatten_of_mem v
  | _ => simp [flatten]

theorem flatten_of_mem_columns (cs : List (List Value)) : ∀ u ∈ flattenColumns cs, u.flatten = [u] := by
  cases cs with
  | nil => exact fun _ h => absurd h List.not_mem_nil
  | cons c cs => exact List.forall_mem_append.2 ⟨flatten_of_mem_column c, flatten_of_mem_columns cs⟩

theorem flatten_of_mem_column (vs : List Value) : ∀ u ∈ flattenColumn vs, u.flatten = [u] := by
  cases vs with
  | nil => exact fun _ h => absurd h List.not_mem_nil
  | cons v vs => exact List.forall_mem_append.2 ⟨flatten_of_mem v, flatten_of_mem_column vs⟩

end

/-- The scalars of a value that is as demanded are so, too. -/
theorem Meets.flatten (h : v.Meets D) : AllMeet D v.flatten := by
  intro u hu w hw
  rw [flatten_of_mem v u hu, List.mem_singleton] at hw
  exact h w (hw ▸ hu)

theorem Meets.scalar (h : v.Meets D) : v.scalar.Meets D := by
  fun_induction Value.scalar v with
  | case1 p v format ih => exact ih (meets_metadata.1 h)
  | case2 v ih => exact ih (meets_array.1 h [v] List.mem_cons_self v List.mem_cons_self)
  | case3 => exact h

/-! ### Coercions -/

theorem errorIn_ok (x : α) : D.ErrorIn (.ok x) := fun _ h => nomatch h

theorem errorIn_error {e : CellError} (h : D.error e) : D.ErrorIn (.error e : Except CellError α) := by
  rintro _ ⟨⟩
  exact h

theorem errorIn_map {r : Except CellError α} (h : D.ErrorIn r) (f : α → β) : D.ErrorIn (r.map f) := by
  cases r with
  | error e => exact errorIn_error (h e rfl)
  | ok x => exact errorIn_ok _

theorem errorIn_bind {r : Except CellError α} {f : α → Except CellError β} (h : D.ErrorIn r)
    (hf : ∀ x, D.ErrorIn (f x)) : D.ErrorIn (r >>= f) := by
  cases r with
  | error e => exact errorIn_error (h e rfl)
  | ok x => exact hf x

theorem meets_ofExcept {r : Except CellError α} {f : α → Value} (h : D.ErrorIn r) (hf : ∀ x, (f x).Meets D) :
    (ofExcept f r).Meets D := by
  cases r with
  | error e => exact meets_error.2 (h e rfl)
  | ok x => exact hf x

theorem errorIn_value (message : Option String) : D.ErrorIn (.error ⟨.value, message⟩ : Except CellError α) :=
  errorIn_error (D.sound _ (by simp))

theorem Meets.toNumber (h : v.Meets D) : D.ErrorIn v.toNumber := by
  have hscalar := h.scalar
  unfold Value.toNumber
  split
  · exact errorIn_ok _
  · exact errorIn_ok _
  · exact errorIn_ok _
  · split
    · exact errorIn_ok _
    · exact errorIn_value _
  · split
    · exact errorIn_ok _
    · exact errorIn_value _
  · rename_i e he
    rw [he] at hscalar
    exact errorIn_error (meets_error.1 hscalar)
  · exact errorIn_value _
  · exact errorIn_value _

theorem Meets.toComplex (h : v.Meets D) : D.ErrorIn v.toComplex := by
  unfold Value.toComplex
  split
  · exact errorIn_ok _
  · exact errorIn_map h.scalar.toNumber _

/-- A number that is made as a result is finite. -/
@[simp] theorem meets_ofNumber (x : Float) : (ofNumber x).Meets D := by
  unfold ofNumber finite
  split
  · rename_i hx
    exact meets_number.2 (D.finite x hx)
  · exact meets_explained (by simp)

@[simp] theorem meets_ofComplex (z : Complex) : (ofComplex z).Meets D := by
  unfold ofComplex
  split
  · simp
  · rename_i hfinite
    have hz : z.real.isFinite = true ∧ z.imaginary.isFinite = true := by simpa using hfinite
    split
    · exact meets_number.2 (D.finite _ hz.1)
    · exact meets_complex.2 ⟨D.finite _ hz.1, D.finite _ hz.2⟩

/-! ### Broadcasting -/

theorem Meets.columns (h : v.Meets D) : ∀ c ∈ v.columns, AllMeet D c := by
  fun_induction Value.columns v with
  | case1 cs => exact meets_array.1 h
  | case2 p v format ih => exact ih (meets_metadata.1 h)
  | case3 v => simpa using h

theorem allMeet_recycle (h : ∀ c ∈ cs, AllMeet D c) (width rows : Nat) :
    ∀ c ∈ recycle cs width rows, AllMeet D c := by
  have hdown (k : Nat) (c : List Value) (hc : AllMeet D c) : AllMeet D (repeatDown k rows c) := by
    intro v hv
    rcases List.mem_append.1 hv with hv | hv
    · exact hc v hv
    · obtain ⟨r, -, rfl⟩ := List.mem_map.1 hv
      exact hc.getD meets_undefined _
  have htall (k : Nat) : ∀ c ∈ cs.map (repeatDown k rows), AllMeet D c :=
    List.forall_mem_map.2 fun c hc => hdown k c (h c hc)
  unfold recycle
  simp only
  split
  · intro c hc v hv
    rw [List.eq_of_mem_replicate hc] at hv
    rw [List.eq_of_mem_replicate hv]
    exact meets_undefined
  · intro c hc
    rcases List.mem_append.1 hc with hc | hc
    · exact htall _ c hc
    · obtain ⟨i, -, rfl⟩ := List.mem_map.1 hc
      exact allMeet_getD (htall _) _

theorem Meets.map {f : Value → Value} (h : v.Meets D) (hf : ∀ u : Value, u.Meets D → (f u).Meets D) :
    (v.map f).Meets D := by
  cases v with
  | array cs =>
    rw [Value.map, meets_array]
    exact List.forall_mem_map.2 fun c hc => List.forall_mem_map.2 fun u hu => hf u (meets_array.1 h c hc u hu)
  | _ => exact hf _ h

theorem mem_zipWith {γ : Type} {f : α → β → γ} {xs : List α} {ys : List β} {z : γ} (h : z ∈ List.zipWith f xs ys) :
    ∃ x ∈ xs, ∃ y ∈ ys, f x y = z := by
  rw [← List.map_uncurry_zip_eq_zipWith] at h
  obtain ⟨⟨x, y⟩, hxy, rfl⟩ := List.mem_map.1 h
  exact ⟨x, (List.of_mem_zip hxy).1, y, (List.of_mem_zip hxy).2, rfl⟩

theorem Meets.zip {f : Value → Value → Value} (ha : a.Meets D) (hb : b.Meets D)
    (hf : ∀ u w : Value, u.Meets D → w.Meets D → (f u w).Meets D) : (Value.zip f a b).Meets D := by
  unfold Value.zip
  split
  · exact hf a b ha hb
  · simp only [meets_array]
    intro c hc
    obtain ⟨c₁, hc₁, c₂, hc₂, rfl⟩ := mem_zipWith hc
    intro v hv
    obtain ⟨u, hu, w, hw, rfl⟩ := mem_zipWith hv
    exact hf u w (allMeet_recycle ha.columns _ _ c₁ hc₁ u hu) (allMeet_recycle hb.columns _ _ c₂ hc₂ w hw)

end Value

/-! ### Operators -/

namespace Operator

open Value

variable {v a b : Value} {s : String}

theorem meets_negate (h : v.Meets D) : (negate v).Meets D := by
  have hscalar := h.scalar
  unfold negate
  split
  · rename_i e he
    exact he ▸ hscalar
  · exact meets_ofComplex _
  · exact meets_ofExcept hscalar.toNumber fun x => meets_ofNumber _

/-- A sign before a value; what is no sign makes the error of an expression that cannot be evaluated. -/
theorem meets_applySign (hs : (s = "+" ∨ s = "-") ∨ D.error ⟨.expr, none⟩) (h : v.Meets D) :
    (applySign s v).Meets D := by
  unfold applySign
  split
  · exact h
  · rename_i hplus
    split
    · exact h.map fun u => meets_negate
    · rename_i hminus
      exact meets_error.2 (hs.resolve_left (by simp_all))

theorem errorIn_both {α : Type} {x y : Except CellError α} (hx : D.ErrorIn x) (hy : D.ErrorIn y) :
    D.ErrorIn (both x y) :=
  errorIn_bind hx fun _ => errorIn_bind hy fun _ => errorIn_ok _

theorem meets_onComplex (op : Arithmetic) (x y : Complex) : (onComplex op x y).Meets D := by
  cases op with
  | divide =>
    simp only [onComplex]
    split <;> simp
  | _ => exact meets_ofComplex _

theorem meets_onNumbers (op : Arithmetic) (x y : Float) : (onNumbers op x y).Meets D := by
  cases op with
  | divide | remainder =>
    simp only [onNumbers]
    split <;> simp
  | _ => exact meets_ofNumber _

theorem meets_arithmetic (op : Arithmetic) (ha : a.Meets D) (hb : b.Meets D) : (arithmetic op a b).Meets D := by
  unfold arithmetic
  split
  · exact meets_ofExcept (errorIn_both ha.toComplex hb.toComplex) fun p => meets_onComplex op p.1 p.2
  · exact meets_ofExcept (errorIn_both ha.toNumber hb.toNumber) fun p => meets_onNumbers op p.1 p.2

theorem meets_onScalars (m : Meaning) (ha : a.Meets D) (hb : b.Meets D) : (m.onScalars a b).Meets D := by
  cases m with
  | arithmetic op => exact meets_arithmetic op ha hb
  | _ => simp [Meaning.onScalars]

/-- All operators of the table mean something, but for the colon. -/
theorem meaning?_isSome : ∀ s ∈ table.map Prod.fst, s ≠ ":" → (meaning? s).isSome = true := by
  decide

theorem meets_applyScalars (hs : (meaning? s).isSome = true ∨ D.error ⟨.expr, none⟩) (ha : a.Meets D)
    (hb : b.Meets D) : (applyScalars s a b).Meets D := by
  have hleft := ha.scalar
  have hright := hb.scalar
  unfold applyScalars
  split
  · rename_i e he
    exact he ▸ hleft
  · rename_i e he _
    exact he ▸ hright
  · split
    · exact meets_onScalars _ ha hb
    · rename_i hnone
      exact meets_error.2 (hs.resolve_left (by simp [hnone]))

/-- A binary operator; what is none makes the error of an expression that cannot be evaluated. -/
theorem meets_applyBinary (hs : (meaning? s).isSome = true ∨ D.error ⟨.expr, none⟩) (ha : a.Meets D)
    (hb : b.Meets D) : (applyBinary s a b).Meets D :=
  ha.zip hb fun _ _ hu hw => meets_applyScalars hs hu hw

end Operator

/-! ### Stores -/

/-- A store in which all cells read values that are as demanded. -/
def Store.Meets (D : Demand) (s : Store) : Prop := ∀ p, (s.read p).Meets D

theorem Store.Meets.readArea? {s : Store} (h : s.Meets D) (a : Area) :
    ((s.readArea? a).getD (.ofCode .ref)).Meets D := by
  have hblock (p q : Position) : (s.readBlock p q).Meets D := by
    unfold readBlock
    split
    · exact h p
    · simp only [Value.meets_array]
      exact List.forall_mem_map.2 fun c _ => List.forall_mem_map.2 fun r _ => h _
  unfold Store.readArea?
  simp only
  split
  · exact hblock _ _
  · exact Value.meets_ofCode (by simp)

end Spreadsheet
