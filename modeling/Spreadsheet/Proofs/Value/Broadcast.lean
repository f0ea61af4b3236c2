import Spreadsheet.Function.Arguments
import Spreadsheet.Proofs.Value.Rectangular

/-!
What is read where operands of different shapes are brought together. An operand is read as if it were repeated without
end to the right and down, and both ways of combining operands, two by two and argument by argument, read it so, the
second one without ever looking for an element that is not there.
-/

namespace Spreadsheet

namespace Value

variable {α : Type} {f : Value → Value → Value} {a b v : Value} {cs : List (List Value)} {c r width rows : Nat}

/-- The element at a place of columns that are repeated to the right and down. Without elements there is nothing. -/
def wrappedAt (cs : List (List Value)) (c r : Nat) : Value :=
  (cs.getD (c % cs.length) []).getD (r % height cs) .undefined

/-- What a place of an operand reads: of a scalar always the scalar itself. -/
def readAt (v : Value) (c r : Nat) : Value :=
  match v with
  | .array cs => wrappedAt cs c r
  | v => v

/-- The columns with what an operand reads at each place of a block. -/
def wrapped (cs : List (List Value)) (width rows : Nat) : List (List Value) :=
  (List.range width).map fun c => (List.range rows).map fun r => wrappedAt cs c r

/-- A value that is no wrapper and whose columns, if it is an array, have one height. -/
structure Regular (v : Value) : Prop where
  level : Level v.columns
  plain : ∀ p u format, v ≠ .metadata p u format

/-! ### Repetition -/

/-- A list that is not empty, repeated up to a length. -/
theorem append_repeated (xs : List α) (d : α) {n : Nat} (hn : xs.length ≤ n) :
    xs ++ (List.range' xs.length (n - xs.length)).map (fun i => xs.getD (i % xs.length) d) =
      (List.range n).map fun i => xs.getD (i % xs.length) d := by
  have hfront : (List.range xs.length).map (fun i => xs.getD (i % xs.length) d) = xs := by
    refine List.ext_getElem (by simp) fun i _ hi => ?_
    simp [Nat.mod_eq_of_lt hi, hi]
  have hrange : List.range n = List.range xs.length ++ List.range' xs.length (n - xs.length) := by
    have happend := List.range'_append_1 (s := 0) (m := xs.length) (n := n - xs.length)
    rw [Nat.zero_add, Nat.add_sub_cancel' hn] at happend
    rw [List.range_eq_range', List.range_eq_range', happend]
  rw [hrange, List.map_append, hfront]

/-- A column of some height repeated down to more rows. -/
theorem repeatDown_eq {k : Nat} {column : List Value} (hlength : column.length = k) (hrows : k ≤ rows) :
    repeatDown k rows column = (List.range rows).map fun r => column.getD (r % k) .undefined := by
  subst hlength
  exact append_repeated column .undefined hrows

/-- Operands are read as if they were repeated without end. -/
theorem recycle_eq (hlevel : Level cs) (hwidth : cs.length ≤ width) (hrows : height cs ≤ rows) :
    recycle cs width rows = wrapped cs width rows := by
  unfold recycle
  simp only
  split
  · rename_i hheight
    have hnone (c r : Nat) : wrappedAt cs c r = .undefined := by
      unfold wrappedAt
      rw [List.getD_eq_getElem?_getD (l := cs)]
      cases hc : cs[c % cs.length]? with
      | none => rfl
      | some column =>
        have hempty : column.length = 0 := (hlevel column (List.mem_of_getElem? hc)).trans hheight
        rw [List.length_eq_zero_iff.1 hempty]
        rfl
    simp [wrapped, hnone, List.map_const']
  · rename_i hheight
    have hpos : 0 < cs.length := List.length_pos_iff.2 fun hnil => hheight (by rw [hnil]; rfl)
    have htall : cs.map (repeatDown (height cs) rows) =
        cs.map fun column => (List.range rows).map fun r => column.getD (r % height cs) .undefined :=
      List.map_congr_left fun column hcolumn => repeatDown_eq (hlevel column hcolumn) hrows
    rw [htall, append_repeated _ [] (by simpa using hwidth)]
    refine List.map_congr_left fun c _ => ?_
    have hc : c % cs.length < cs.length := Nat.mod_lt c hpos
    simp [wrappedAt, hc]

/-! ### Operands -/

theorem readAt_columns (h : ∀ p u format, v ≠ .metadata p u format) (c r : Nat) :
    readAt v c r = wrappedAt v.columns c r := by
  cases v with
  | array cs => rfl
  | metadata p u format => exact absurd rfl (h p u format)
  | _ => simp [readAt, columns, wrappedAt, height, Nat.mod_one]

theorem shape_columns (h : ∀ p u format, v ≠ .metadata p u format) :
    v.shape = (v.columns.length, height v.columns) := by
  cases v with
  | array cs => rfl
  | metadata p u format => exact absurd rfl (h p u format)
  | _ => rfl

/-- Brought to a shape that holds it, an operand gives at each place what the place reads of it. -/
theorem Regular.recycle (h : v.Regular) (hwidth : v.shape.1 ≤ width) (hrows : v.shape.2 ≤ rows) :
    recycle v.columns width rows = (List.range width).map fun c => (List.range rows).map fun r => v.readAt c r := by
  rw [shape_columns h.plain] at hwidth hrows
  rw [recycle_eq h.level hwidth hrows]
  simp only [wrapped, readAt_columns h.plain]

theorem commonShape_pair (a b : Value) :
    commonShape [a, b] = (max a.shape.1 b.shape.1, max a.shape.2 b.shape.2) := by
  simp [commonShape]

/-- Two operands, one of which is an array, are combined place by place. -/
theorem zip_eq (ha : a.Regular) (hb : b.Regular) (harray : a.isArray = true ∨ b.isArray = true) :
    Value.zip f a b = .array ((List.range (max a.shape.1 b.shape.1)).map fun c =>
      (List.range (max a.shape.2 b.shape.2)).map fun r => f (a.readAt c r) (b.readAt c r)) := by
  have hscalars : (!a.isArray && !b.isArray) = false := by rcases harray with h | h <;> simp [h]
  unfold Value.zip
  rw [hscalars, commonShape_pair, if_neg Bool.false_ne_true]
  simp only
  rw [ha.recycle (Nat.le_max_left _ _) (Nat.le_max_left _ _), hb.recycle (Nat.le_max_right _ _) (Nat.le_max_right _ _)]
  simp only [List.zipWith_map_left, List.zipWith_map_right, List.zipWith_self]

/-! ### Look-ups that may fail -/

/-- A column repeated down, or `none` if an element is looked for that is not there. -/
def repeatDown? (height rows : Nat) (column : List Value) : Option (List Value) :=
  ((List.range' height (rows - height)).mapM fun r => column[r % height]?).map (column ++ ·)

/-- Columns brought to a shape, or `none` if a column or an element is looked for that is not there. -/
def recycle? (cs : List (List Value)) (width rows : Nat) : Option (List (List Value)) :=
  let h := height cs
  if h = 0 then some (List.replicate width (List.replicate rows .undefined))
  else do
    let tall ← cs.mapM (repeatDown? h rows)
    let more ← (List.range' tall.length (width - tall.length)).mapM fun c => tall[c % tall.length]?
    return tall ++ more

theorem mapM_eq_some {β : Type} {g : α → Option β} {k : α → β} {xs : List α} (h : ∀ x ∈ xs, g x = some (k x)) :
    xs.mapM g = some (xs.map k) := by
  induction xs with
  | nil => rfl
  | cons x xs ih =>
    obtain ⟨hx, hxs⟩ := List.forall_mem_cons.1 h
    rw [List.mapM_cons, hx, ih hxs]
    rfl

theorem map_eq_of_mapM {β : Type} {g : α → Option β} {k : α → β} {xs : List α} {ys : List β}
    (hg : ∀ x y, g x = some y → k x = y) (h : xs.mapM g = some ys) : xs.map k = ys := by
  induction xs generalizing ys with
  | nil => exact Option.some.inj h
  | cons x xs ih =>
    rw [List.mapM_cons] at h
    obtain ⟨y, hy, h⟩ := Option.bind_eq_some_iff.1 h
    obtain ⟨ys', hys, h⟩ := Option.bind_eq_some_iff.1 h
    rw [← Option.some.inj h, List.map_cons, hg x y hy, ih hys]

theorem getD_of_getElem? {xs : List α} {d x : α} {i : Nat} (h : xs[i]? = some x) : xs.getD i d = x := by
  rw [List.getD_eq_getElem?_getD, h, Option.getD_some]

/-- In a list that is not empty, a remainder of its length is no place out of range. -/
theorem getElem?_mod {xs : List α} (d : α) (hpos : 0 < xs.length) (i : Nat) :
    xs[i % xs.length]? = some (xs.getD (i % xs.length) d) := by
  have hlt : i % xs.length < xs.length := Nat.mod_lt i hpos
  rw [List.getD_eq_getElem?_getD, List.getElem?_eq_getElem hlt]
  rfl

theorem repeatDown?_eq {k : Nat} {column : List Value} (hlength : column.length = k) (hk : 0 < k) :
    repeatDown? k rows column = some (repeatDown k rows column) := by
  subst hlength
  rw [repeatDown?, mapM_eq_some fun r _ => getElem?_mod .undefined hk r]
  rfl

theorem repeatDown_of_repeatDown? {k : Nat} {column out : List Value} (h : repeatDown? k rows column = some out) :
    repeatDown k rows column = out := by
  obtain ⟨more, hmore, rfl⟩ := Option.map_eq_some_iff.1 h
  rw [repeatDown, map_eq_of_mapM (fun _ _ => getD_of_getElem?) hmore]

theorem recycle_of_recycle? {out : List (List Value)} (h : recycle? cs width rows = some out) :
    recycle cs width rows = out := by
  unfold recycle? at h
  unfold recycle
  simp only at h ⊢
  split at h
  · rename_i hheight
    rw [if_pos hheight]
    exact Option.some.inj h
  · rename_i hheight
    rw [if_neg hheight]
    obtain ⟨tall, htall, h⟩ := Option.bind_eq_some_iff.1 h
    obtain ⟨more, hmore, h⟩ := Option.bind_eq_some_iff.1 h
    rw [map_eq_of_mapM (fun _ _ => repeatDown_of_repeatDown?) htall,
      map_eq_of_mapM (fun _ _ => getD_of_getElem?) hmore]
    exact Option.some.inj h

/-- Columns of one height are brought to a shape without a look-up out of range. -/
theorem recycle?_eq (hlevel : Level cs) (width rows : Nat) : recycle? cs width rows = some (recycle cs width rows) := by
  unfold recycle? recycle
  simp only
  split
  · rfl
  · rename_i hheight
    have hpos : 0 < (cs.map (repeatDown (height cs) rows)).length := by
      rw [List.length_map]
      exact List.length_pos_iff.2 fun hnil => hheight (by rw [hnil]; rfl)
    rw [mapM_eq_some fun column hcolumn => repeatDown?_eq (hlevel column hcolumn) (Nat.pos_of_ne_zero hheight),
      Option.bind_eq_bind, Option.bind_some, mapM_eq_some fun c _ => getElem?_mod [] hpos c]
    rfl

end Value

namespace Function

open Value

variable {f : Value → Value → Value} {a b : Value}

/-- The operands at one place, or `none` if one of the arrays has no such place. -/
def operandsAt? (recycled : List (List (List Value))) (c r : Nat) : Option (List Value) :=
  recycled.mapM fun columns => columns[c]?.bind fun column => column[r]?

/-- A function applied element by element, or `none` if a column or an element is looked for that is not there. -/
def elementwise? (f : List Value → Value) (vs : List Value) : Option Value :=
  if vs.any Value.isArray then do
    let (width, rows) := commonShape vs
    let recycled ← vs.mapM fun v => recycle? v.columns width rows
    let columns ← (List.range width).mapM fun c =>
      (List.range rows).mapM fun r => (operandsAt? recycled c r).map f
    return .array columns
  else some (f vs)

/-- A function of two arguments on the first two of a list. -/
def ofPair (f : Value → Value → Value) (vs : List Value) : Value := f (argument vs 0) (argument vs 1)

theorem operandsAt?_pair {width rows c r : Nat} (hc : c < width) (hr : r < rows) (k l : Nat → Nat → Value) :
    operandsAt? [(List.range width).map fun c => (List.range rows).map (k c),
      (List.range width).map fun c => (List.range rows).map (l c)] c r = some [k c r, l c r] := by
  simp [operandsAt?, hc, hr]

/-- Argument by argument, operands are combined as they are two by two, and every look-up finds its element. -/
theorem elementwise?_pair (ha : a.Regular) (hb : b.Regular) :
    elementwise? (ofPair f) [a, b] = some (Value.zip f a b) := by
  unfold elementwise?
  by_cases harray : a.isArray = true ∨ b.isArray = true
  · rw [if_pos (by simpa using harray), zip_eq ha hb harray, commonShape_pair]
    simp only
    generalize hwidth : max a.shape.1 b.shape.1 = width
    generalize hrows : max a.shape.2 b.shape.2 = rows
    have hleft := ha.recycle (hwidth ▸ Nat.le_max_left _ _) (hrows ▸ Nat.le_max_left _ _)
    have hright := hb.recycle (hwidth ▸ Nat.le_max_right _ _) (hrows ▸ Nat.le_max_right _ _)
    have hrecycled : ([a, b].mapM fun v => recycle? v.columns width rows) =
        some [(List.range width).map fun c => (List.range rows).map fun r => a.readAt c r,
          (List.range width).map fun c => (List.range rows).map fun r => b.readAt c r] := by
      rw [← hleft, ← hright]
      exact mapM_eq_some (k := fun v : Value => recycle v.columns width rows) (by
        simp [recycle?_eq ha.level, recycle?_eq hb.level])
    have hcell (c : Nat) (hc : c ∈ List.range width) (r : Nat) (hr : r ∈ List.range rows) :
        (operandsAt? [(List.range width).map fun c => (List.range rows).map fun r => a.readAt c r,
          (List.range width).map fun c => (List.range rows).map fun r => b.readAt c r] c r).map (ofPair f) =
            some (f (a.readAt c r) (b.readAt c r)) := by
      rw [operandsAt?_pair (List.mem_range.1 hc) (List.mem_range.1 hr)]
      rfl
    rw [hrecycled, Option.bind_eq_bind, Option.bind_some,
      mapM_eq_some fun c hc => mapM_eq_some fun r hr => hcell c hc r hr]
    rfl
  · rw [if_neg (by simpa using harray)]
    have hscalars : (!a.isArray && !b.isArray) = true := by simpa using harray
    rw [Value.zip, hscalars, if_pos rfl]
    rfl

theorem operandsAt_of_operandsAt? {recycled : List (List (List Value))} {c r : Nat} {vs : List Value}
    (h : operandsAt? recycled c r = some vs) : operandsAt recycled c r = vs := by
  refine map_eq_of_mapM (fun columns v hv => ?_) h
  obtain ⟨column, hcolumn, hv⟩ := Option.bind_eq_some_iff.1 hv
  rw [getD_of_getElem? hcolumn, getD_of_getElem? hv]

/-- Where every look-up finds its element, a function is applied element by element as if none could fail. -/
theorem elementwise_of_elementwise? {g : List Value → Value} {vs : List Value} {v : Value}
    (h : elementwise? g vs = some v) : elementwise g vs = v := by
  unfold elementwise? at h
  unfold elementwise elementwiseM
  split at h
  · rename_i harray
    rw [if_pos harray]
    simp only at h ⊢
    obtain ⟨recycled, hrecycled, h⟩ := Option.bind_eq_some_iff.1 h
    obtain ⟨columns, hcolumns, h⟩ := Option.bind_eq_some_iff.1 h
    have hplace (c : Nat) (column : List Value)
        (h : ((List.range (commonShape vs).2).mapM fun r => (operandsAt? recycled c r).map g) = some column) :
        ((List.range (commonShape vs).2).map fun r => g (operandsAt recycled c r)) = column := by
      refine map_eq_of_mapM (fun r u hu => ?_) h
      obtain ⟨us, hus, rfl⟩ := Option.map_eq_some_iff.1 hu
      rw [operandsAt_of_operandsAt? hus]
    simp only [List.mapM_pure, pure_bind]
    rw [map_eq_of_mapM (fun _ _ => recycle_of_recycle?) hrecycled, map_eq_of_mapM hplace hcolumns]
    exact Option.some.inj h
  · rename_i harray
    rw [if_neg harray]
    exact Option.some.inj h

/-- Two operands without wrappers, each with columns of one height. If one is an array, combining them gives an array
that is as wide and as high as the larger of them, in which each place holds what the function gives for what the
operands read there. Applying the function to them as arguments gives the same value, and no look-up on the way is out
of range. -/
theorem combines_alike (f : Value → Value → Value) (ha : a.Regular) (hb : b.Regular) :
    (a.isArray = true ∨ b.isArray = true → ∃ columns, Value.zip f a b = .array columns ∧
      columns.length = max a.shape.1 b.shape.1 ∧ (∀ column ∈ columns, column.length = max a.shape.2 b.shape.2) ∧
      ∀ c < max a.shape.1 b.shape.1, ∀ r < max a.shape.2 b.shape.2,
        (columns[c]?.bind fun column => column[r]?) = some (f (a.readAt c r) (b.readAt c r))) ∧
    elementwise? (ofPair f) [a, b] = some (Value.zip f a b) ∧ elementwise (ofPair f) [a, b] = Value.zip f a b := by
  refine ⟨fun harray => ⟨_, zip_eq ha hb harray, by simp, by simp, fun c hc r hr => by simp [hc, hr]⟩, ?_⟩
  have hpair := elementwise?_pair (f := f) ha hb
  exact ⟨hpair, elementwise_of_elementwise? hpair⟩

/-- A row of three and a column of two, joined: each is wider or higher than the other one. -/
theorem combines_alike_uneven :
    Regular (.array [[.text "a"], [.text "b"], [.text "c"]]) ∧ Regular (.array [[.text "x", .text "y"]]) ∧
      elementwise? (ofPair (Operator.applyScalars "&"))
        [.array [[.text "a"], [.text "b"], [.text "c"]], .array [[.text "x", .text "y"]]] =
          some (.array [[.text "ax", .text "ay"], [.text "bx", .text "by"], [.text "cx", .text "cy"]]) := by
  have hrow : Regular (.array [[.text "a"], [.text "b"], [.text "c"]]) := ⟨by simp [Level, columns, height], by simp⟩
  have hcolumn : Regular (.array [[.text "x", .text "y"]]) := ⟨by simp [Level, columns, height], by simp⟩
  refine ⟨hrow, hcolumn, ?_⟩
  rw [(combines_alike (Operator.applyScalars "&") hrow hcolumn).2.1]
  rfl

end Function

end Spreadsheet
