import Spreadsheet.Proofs.Value.Demand

/-!
Rectangular values. All columns of an array have one height, and so it is with the arrays among its elements. Then
every place that its shape has holds an element, also once operands have been brought to a common shape.
-/

namespace Spreadsheet

namespace Value

mutual

/-- A value with all that it is made of, at every depth. -/
def parts : Value → List Value
  | .array columns => .array columns :: partsOfColumns columns
  | .metadata p v format => .metadata p v format :: parts v
  | v => [v]

/-- The parts of the elements of some columns. -/
def partsOfColumns : List (List Value) → List Value
  | [] => []
  | c :: cs => partsOfColumn c ++ partsOfColumns cs

/-- The parts of the elements of a column. -/
def partsOfColumn : List Value → List Value
  | [] => []
  | v :: vs => parts v ++ partsOfColumn vs

end

/-- Columns of one height. -/
def Level (columns : List (List Value)) : Prop := ∀ c ∈ columns, c.length = height columns

/-- A value in which every array has columns of one height, at every depth. -/
def Rectangular (v : Value) : Prop := ∀ columns, .array columns ∈ v.parts → Level columns

/-- Values all of which are rectangular. -/
def AllRectangular (vs : List Value) : Prop := ∀ v ∈ vs, v.Rectangular

/-- Columns that hold an element at each place of a block of a given width and height. -/
def Fill (columns : List (List Value)) (width rows : Nat) : Prop :=
  ∀ c < width, ∀ r < rows, ∃ column, columns[c]? = some column ∧ r < column.length

/-- Every array of the value, at any depth, holds an element at each place that its shape has. -/
def Filled (v : Value) : Prop := ∀ columns, .array columns ∈ v.parts → Fill columns columns.length (height columns)

/-- When operands are brought to a common shape, an element is there wherever one is repeated or read: those repeated
down a column are in it, and each place of the common shape is filled in the end. -/
def Recyclable (vs : List Value) : Prop :=
  ∀ v ∈ vs, (∀ c ∈ v.columns, height v.columns ≤ c.length) ∧
    Fill (recycle v.columns (commonShape vs).1 (commonShape vs).2) (commonShape vs).1 (commonShape vs).2

variable {v w a b : Value} {vs ws : List Value} {cs : List (List Value)} {n : Nat}

/-! ### Values by their form -/

section

attribute [local simp] parts

@[simp] theorem rectangular_undefined : undefined.Rectangular := by simp [Rectangular]

@[simp] theorem rectangular_number (x : Float) : (number x).Rectangular := by simp [Rectangular]

@[simp] theorem rectangular_text (s : String) : (text s).Rectangular := by simp [Rectangular]

@[simp] theorem rectangular_boolean (b : Bool) : (boolean b).Rectangular := by simp [Rectangular]

@[simp] theorem rectangular_complex (z : Complex) : (complex z).Rectangular := by simp [Rectangular]

@[simp] theorem rectangular_error (e : CellError) : (error e).Rectangular := by simp [Rectangular]

@[simp] theorem rectangular_metadata {p : Position} {format : Option String} :
    (metadata p v format).Rectangular ↔ v.Rectangular := by
  simp [Rectangular]

end

@[simp] theorem rectangular_ofCode (code : ErrorCode) : (ofCode code).Rectangular := rectangular_error _

@[simp] theorem rectangular_explained (code : ErrorCode) (message : String) : (explained code message).Rectangular :=
  rectangular_error _

theorem mem_partsOfColumn {u : Value} : u ∈ partsOfColumn vs ↔ ∃ v ∈ vs, u ∈ v.parts := by
  induction vs with
  | nil => simp [partsOfColumn]
  | cons v vs ih => simp [partsOfColumn, ih]

theorem mem_partsOfColumns {u : Value} : u ∈ partsOfColumns cs ↔ ∃ c ∈ cs, ∃ v ∈ c, u ∈ v.parts := by
  induction cs with
  | nil => simp [partsOfColumns]
  | cons c cs ih => simp [partsOfColumns, ih, mem_partsOfColumn]

/-- An array is rectangular if its columns have one height and its elements are rectangular. -/
@[simp] theorem rectangular_array : (array cs).Rectangular ↔ Level cs ∧ ∀ c ∈ cs, AllRectangular c := by
  simp only [Rectangular, parts, List.mem_cons, array.injEq, mem_partsOfColumns]
  constructor
  · exact fun h => ⟨h cs (.inl rfl), fun c hc v hv columns hcolumns => h columns (.inr ⟨c, hc, v, hv, hcolumns⟩)⟩
  · rintro ⟨hlevel, hmembers⟩ columns (rfl | ⟨c, hc, v, hv, hcolumns⟩)
    · exact hlevel
    · exact hmembers c hc v hv columns hcolumns

@[simp] theorem allRectangular_nil : AllRectangular [] := fun _ h => absurd h List.not_mem_nil

@[simp] theorem allRectangular_cons : AllRectangular (v :: vs) ↔ v.Rectangular ∧ AllRectangular vs :=
  List.forall_mem_cons

theorem AllRectangular.of_subset (h : AllRectangular vs) (hsub : ws ⊆ vs) : AllRectangular ws :=
  fun v hv => h v (hsub hv)

theorem AllRectangular.take (h : AllRectangular vs) (n : Nat) : AllRectangular (vs.take n) :=
  h.of_subset (List.take_subset n vs)

/-- What stands at a place in a list, or a default, is rectangular. -/
theorem AllRectangular.getD (h : AllRectangular vs) {d : Value} (hd : d.Rectangular) (i : Nat) :
    (vs.getD i d).Rectangular := by
  rw [List.getD_eq_getElem?_getD]
  cases hi : vs[i]? with
  | none => exact hd
  | some v => exact h v (List.mem_of_getElem? hi)

theorem allRectangular_getD (h : ∀ c ∈ cs, AllRectangular c) (i : Nat) : AllRectangular (cs.getD i []) := by
  rw [List.getD_eq_getElem?_getD]
  cases hi : cs[i]? with
  | none => exact allRectangular_nil
  | some c => exact h c (List.mem_of_getElem? hi)

mutual

/-- The scalars of a value are rectangular, whatever it is. -/
theorem allRectangular_flatten (v : Value) : AllRectangular v.flatten := by
  cases v with
  | array cs => exact allRectangular_flattenColumns cs
  | metadata p v format => exact allRectangular_flatten v
  | _ => simp [flatten]

theorem allRectangular_flattenColumns (cs : List (List Value)) : AllRectangular (flattenColumns cs) := by
  cases cs with
  | nil => exact allRectangular_nil
  | cons c cs => exact List.forall_mem_append.2 ⟨allRectangular_flattenColumn c, allRectangular_flattenColumns cs⟩

theorem allRectangular_flattenColumn (vs : List Value) : AllRectangular (flattenColumn vs) := by
  cases vs with
  | nil => exact allRectangular_nil
  | cons v vs => exact List.forall_mem_append.2 ⟨allRectangular_flatten v, allRectangular_flattenColumn vs⟩

end

theorem rectangular_ofExcept {α : Type} {f : α → Value} {r : Except CellError α} (hf : ∀ x, (f x).Rectangular) :
    (ofExcept f r).Rectangular := by
  cases r with
  | error e => exact rectangular_error e
  | ok x => exact hf x

@[simp] theorem rectangular_ofNumber (x : Float) : (ofNumber x).Rectangular :=
  rectangular_ofExcept rectangular_number

@[simp] theorem rectangular_ofComplex (z : Complex) : (ofComplex z).Rectangular := by
  unfold ofComplex
  split
  · simp
  · split <;> simp

/-! ### Level columns -/

/-- Columns of a given height are level. -/
theorem level_of_length (h : ∀ c ∈ cs, c.length = n) : Level cs := by
  cases cs with
  | nil => exact fun c hc => absurd hc List.not_mem_nil
  | cons c cs => exact fun d hd => (h d hd).trans (h c List.mem_cons_self).symm

/-- An array whose columns have a given height and rectangular elements is rectangular. -/
theorem rectangular_of_columns (h : ∀ c ∈ cs, c.length = n ∧ AllRectangular c) : (array cs).Rectangular :=
  rectangular_array.2 ⟨level_of_length fun c hc => (h c hc).1, fun c hc => (h c hc).2⟩

/-- Columns that are as high as they should be hold an element at each place. -/
theorem fill_of_length {width rows : Nat} (hwidth : width ≤ cs.length) (h : ∀ c ∈ cs, rows ≤ c.length) :
    Fill cs width rows := by
  intro c hc r hr
  have hin : c < cs.length := by omega
  exact ⟨cs[c], List.getElem?_eq_getElem hin, by have := h _ (List.getElem_mem hin); omega⟩

theorem Level.fill (h : Level cs) : Fill cs cs.length (height cs) :=
  fill_of_length Nat.le.refl fun c hc => Nat.le_of_eq (h c hc).symm

/-- In a rectangular value no place is missing. -/
theorem Rectangular.filled (h : v.Rectangular) : v.Filled := fun columns hcolumns => (h columns hcolumns).fill

/-! ### Broadcasting -/

/-- The columns of a rectangular value are those of a rectangular array. -/
theorem Rectangular.columns (h : v.Rectangular) : (array v.columns).Rectangular := by
  fun_induction Value.columns v with
  | case1 cs => exact h
  | case2 p v format ih => exact ih (rectangular_metadata.1 h)
  | case3 v => exact rectangular_of_columns (n := 1) (by simpa using h)

theorem length_repeatDown (k rows : Nat) (c : List Value) (hc : c.length = k) :
    (repeatDown k rows c).length = max k rows := by
  simp only [repeatDown, List.length_append, List.length_map, List.length_range', hc]
  omega

theorem AllRectangular.repeatDown (h : AllRectangular vs) (k rows : Nat) : AllRectangular (repeatDown k rows vs) := by
  intro v hv
  rcases List.mem_append.1 hv with hv | hv
  · exact h v hv
  · obtain ⟨r, -, rfl⟩ := List.mem_map.1 hv
    exact h.getD rectangular_undefined _

/-- Level columns repeated to some width and height have one height, which is at least the one asked for. -/
theorem level_recycle (h : (array cs).Rectangular) (width rows : Nat) :
    width ≤ (recycle cs width rows).length ∧
      ∃ n, rows ≤ n ∧ ∀ c ∈ recycle cs width rows, c.length = n ∧ AllRectangular c := by
  obtain ⟨hlevel, hmembers⟩ := rectangular_array.1 h
  unfold recycle
  simp only
  split
  · refine ⟨by simp, rows, Nat.le.refl, fun c hc => ?_⟩
    rw [List.eq_of_mem_replicate hc]
    refine ⟨List.length_replicate, fun v hv => ?_⟩
    rw [List.eq_of_mem_replicate hv]
    exact rectangular_undefined
  · rename_i hheight
    have htall : ∀ c ∈ cs.map (repeatDown (height cs) rows), c.length = max (height cs) rows ∧ AllRectangular c :=
      List.forall_mem_map.2 fun c hc =>
        ⟨length_repeatDown _ rows c (hlevel c hc), (hmembers c hc).repeatDown _ rows⟩
    -- an array without columns has no height
    have hpos : 0 < (cs.map (repeatDown (height cs) rows)).length := by
      rw [List.length_map]
      exact List.length_pos_iff.2 fun hnil => hheight (by rw [hnil]; rfl)
    refine ⟨by simp only [List.length_append, List.length_map, List.length_range']; omega,
      max (height cs) rows, Nat.le_max_right _ _, ?_⟩
    refine List.forall_mem_append.2 ⟨htall, List.forall_mem_map.2 fun i _ => ?_⟩
    rw [List.getD_eq_getElem?_getD, List.getElem?_eq_getElem (Nat.mod_lt i hpos)]
    exact htall _ (List.getElem_mem _)

/-- Rectangular operands are brought to a common shape without a place that is missing. -/
theorem AllRectangular.recyclable (h : AllRectangular vs) : Recyclable vs := by
  intro v hv
  have hcolumns := (h v hv).columns
  obtain ⟨hwidth, n, hrows, hlength⟩ := level_recycle hcolumns (commonShape vs).1 (commonShape vs).2
  exact ⟨fun c hc => Nat.le_of_eq ((rectangular_array.1 hcolumns).1 c hc).symm,
    fill_of_length hwidth fun c hc => (hlength c hc).1 ▸ hrows⟩

theorem Rectangular.map {f : Value → Value} (h : v.Rectangular) (hf : ∀ u : Value, u.Rectangular → (f u).Rectangular) :
    (v.map f).Rectangular := by
  cases v with
  | array cs =>
    obtain ⟨hlevel, hmembers⟩ := rectangular_array.1 h
    refine rectangular_of_columns (n := height cs) (List.forall_mem_map.2 fun c hc => ⟨?_, ?_⟩)
    · rw [List.length_map, hlevel c hc]
    · exact List.forall_mem_map.2 fun u hu => hf u (hmembers c hc u hu)
  | _ => exact hf _ h

theorem Rectangular.zip {f : Value → Value → Value} (ha : a.Rectangular) (hb : b.Rectangular)
    (hf : ∀ u w : Value, u.Rectangular → w.Rectangular → (f u w).Rectangular) : (Value.zip f a b).Rectangular := by
  unfold Value.zip
  split
  · exact hf a b ha hb
  · simp only
    obtain ⟨-, m, -, hleft⟩ := level_recycle ha.columns (commonShape [a, b]).1 (commonShape [a, b]).2
    obtain ⟨-, n, -, hright⟩ := level_recycle hb.columns (commonShape [a, b]).1 (commonShape [a, b]).2
    refine rectangular_of_columns (n := min m n) fun c hc => ?_
    obtain ⟨c₁, hc₁, c₂, hc₂, rfl⟩ := mem_zipWith hc
    refine ⟨by rw [List.length_zipWith, (hleft c₁ hc₁).1, (hright c₂ hc₂).1], fun v hv => ?_⟩
    obtain ⟨u, hu, w, hw, rfl⟩ := mem_zipWith hv
    exact hf u w ((hleft c₁ hc₁).2 u hu) ((hright c₂ hc₂).2 w hw)

end Value

/-! ### Operators -/

namespace Operator

open Value

variable {v a b : Value}

theorem rectangular_negate (v : Value) : (negate v).Rectangular := by
  unfold negate
  split
  · simp
  · simp
  · exact rectangular_ofExcept fun x => rectangular_ofNumber _

theorem rectangular_applySign (symbol : String) (h : v.Rectangular) : (applySign symbol v).Rectangular := by
  unfold applySign
  split
  · exact h
  · split
    · exact h.map fun u _ => rectangular_negate u
    · simp

theorem rectangular_onComplex (op : Arithmetic) (x y : Complex) : (onComplex op x y).Rectangular := by
  cases op with
  | divide =>
    simp only [onComplex]
    split <;> simp
  | _ => exact rectangular_ofComplex _

theorem rectangular_onNumbers (op : Arithmetic) (x y : Float) : (onNumbers op x y).Rectangular := by
  cases op with
  | divide | remainder =>
    simp only [onNumbers]
    split <;> simp
  | _ => exact rectangular_ofNumber _

theorem rectangular_arithmetic (op : Arithmetic) (a b : Value) : (arithmetic op a b).Rectangular := by
  unfold arithmetic
  split
  · exact rectangular_ofExcept fun p => rectangular_onComplex op p.1 p.2
  · exact rectangular_ofExcept fun p => rectangular_onNumbers op p.1 p.2

theorem rectangular_applyScalars (symbol : String) (a b : Value) : (applyScalars symbol a b).Rectangular := by
  unfold applyScalars
  split
  · simp
  · simp
  · split
    · rename_i m _
      cases m with
      | arithmetic op => exact rectangular_arithmetic op a b
      | _ => simp [Meaning.onScalars]
    · simp

/-- An operator, even one that means nothing, makes a rectangular value of rectangular ones. -/
theorem rectangular_applyBinary (symbol : String) (ha : a.Rectangular) (hb : b.Rectangular) :
    (applyBinary symbol a b).Rectangular :=
  ha.zip hb fun u w _ _ => rectangular_applyScalars symbol u w

end Operator

/-! ### Stores -/

/-- A store in which every cell holds a rectangular value. -/
def Store.Rectangular (s : Store) : Prop := ∀ p, (s.read p).Rectangular

/-- What is read of an area is rectangular: its columns all have the rows of the area. -/
theorem Store.Rectangular.readArea? {s : Store} (h : s.Rectangular) (a : Area) :
    ((s.readArea? a).getD (.ofCode .ref)).Rectangular := by
  have hblock (p q : Position) : (s.readBlock p q).Rectangular := by
    unfold readBlock
    split
    · exact h p
    · exact Value.rectangular_of_columns (List.forall_mem_map.2 fun c _ =>
        ⟨List.length_map _, List.forall_mem_map.2 fun r _ => h _⟩)
  unfold Store.readArea?
  simp only
  split
  · exact hblock _ _
  · exact Value.rectangular_ofCode _

end Spreadsheet
