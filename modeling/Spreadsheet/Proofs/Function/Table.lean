import Spreadsheet.Function.Table
import Spreadsheet.Proofs.Number.Distance
import Spreadsheet.Proofs.Value.Rectangular

/-!
What look-ups find. The loop over the keys of a table passes over what is no number and still counts its rows, so it
ends with the first of the nearest keys, and what is given stands in the row of that key.
-/

namespace Spreadsheet

namespace Function

variable {target d x y : Float} {seen keys : List Value} {key : Value} {best : Option (Float × Nat)} {row j : Nat}

/-- The number that a key is, behind metadata and arrays of one cell. -/
def numericKey? (key : Value) : Option Float :=
  match key.scalar with
  | .number x => some x
  | _ => none

/-- The number that the key of a row is. -/
def keyAt (keys : List Value) (row : Nat) : Option Float := (keys[row]?).bind numericKey?

/-- No numeric key of the column is nearer than the one in this row. -/
def IsNearest (target : Float) (keys : List Value) (row : Nat) : Prop :=
  ∃ x, keyAt keys row = some x ∧ ∀ j y, keyAt keys j = some y → ¬(y - target).abs < (x - target).abs

/-- The numbers among the keys are finite. -/
def FiniteKeys (keys : List Value) : Prop := ∀ row x, keyAt keys row = some x → x.isFinite = true

theorem lt_length_of_keyAt (h : keyAt keys row = some x) : row < keys.length := by
  obtain ⟨key, hkey, -⟩ := Option.bind_eq_some_iff.1 h
  exact (List.getElem?_eq_some_iff.1 hkey).1

theorem keyAt_append_left (h : row < seen.length) (keys : List Value) : keyAt (seen ++ keys) row = keyAt seen row := by
  rw [keyAt, keyAt, List.getElem?_append_left h]

theorem keyAt_concat : keyAt (seen ++ [key]) row = some x ↔
    keyAt seen row = some x ∨ row = seen.length ∧ numericKey? key = some x := by
  rcases lt_trichotomy row seen.length with hlt | rfl | hgt
  · rw [keyAt_append_left hlt]
    exact ⟨.inl, fun h => h.resolve_right fun ⟨heq, _⟩ => hlt.ne heq⟩
  · have hnone : keyAt seen seen.length = none := by rw [keyAt, List.getElem?_eq_none le_rfl]; rfl
    rw [hnone, keyAt, List.getElem?_concat_length]
    simp
  · have hout : keyAt seen row = none := by rw [keyAt, List.getElem?_eq_none hgt.le]; rfl
    have hnone : (seen ++ [key])[row]? = none := List.getElem?_eq_none (by simpa using hgt)
    rw [hout, keyAt, hnone]
    simp [hgt.ne']

/-! ### The loop over the keys -/

/-- What a round of the loop makes of the best row so far. -/
def nearer (target : Float) (best : Option (Float × Nat)) (row : Nat) (key : Value) : Option (Float × Nat) :=
  match numericKey? key with
  | some k =>
    match best with
    | some (d, _) => if (k - target).abs < d then some ((k - target).abs, row) else best
    | none => some ((k - target).abs, row)
  | none => best

theorem nearestRow_cons (target : Float) (best : Option (Float × Nat)) (row : Nat) (key : Value) (keys : List Value) :
    nearestRow target best row (key :: keys) = nearestRow target (nearer target best row key) (row + 1) keys := by
  rw [nearestRow, nearer, numericKey?]
  cases key.scalar with
  | number k =>
    cases best with
    | none => rfl
    | some b =>
      obtain ⟨d, r⟩ := b
      simp only [decide_eq_true_eq]
  | _ => rfl

/-- The best row is the first one of those that are nearest among the keys so far; there is none as long as there has
been no number. -/
def Best (target : Float) (seen : List Value) : Option (Float × Nat) → Prop
  | none => ∀ row, keyAt seen row = none
  | some (d, row) => ∃ x, keyAt seen row = some x ∧ d = (x - target).abs ∧
      ∀ j y, keyAt seen j = some y → ¬(y - target).abs < d ∧ (j < row → d < (y - target).abs)

theorem Best.skip (h : Best target seen best) (hkey : numericKey? key = none) :
    Best target (seen ++ [key]) best := by
  have hsame (j : Nat) (y : Float) : keyAt (seen ++ [key]) j = some y ↔ keyAt seen j = some y := by
    rw [keyAt_concat, hkey]
    simp
  cases best with
  | none =>
    intro row
    refine Option.eq_none_iff_forall_ne_some.2 fun x hx => ?_
    rw [hsame, h row] at hx
    cases hx
  | some b =>
    obtain ⟨x, hx, hd, hbest⟩ := h
    exact ⟨x, (hsame _ _).2 hx, hd, fun j y hy => hbest j y ((hsame j y).1 hy)⟩

theorem keyAt_concat_cases (hkey : numericKey? key = some x) (hy : keyAt (seen ++ [key]) j = some y) :
    keyAt seen j = some y ∨ j = seen.length ∧ y = x :=
  (keyAt_concat.1 hy).imp_right fun ⟨hj, hy⟩ => ⟨hj, Option.some.inj (hy.symm.trans hkey)⟩

/-- A key that is nearer than all before it. -/
theorem best_concat (hkey : numericKey? key = some x) (hfinite : FiniteKeys (seen ++ [key]))
    (hnearer : ∀ j y, keyAt seen j = some y → (x - target).abs < (y - target).abs) :
    Best target (seen ++ [key]) (some ((x - target).abs, seen.length)) := by
  obtain ⟨rank, hrank⟩ := Number.exists_rank target
  have hx : keyAt (seen ++ [key]) seen.length = some x := keyAt_concat.2 (.inr ⟨rfl, hkey⟩)
  have hxfinite := hfinite _ _ hx
  refine ⟨x, hx, rfl, ?_⟩
  intro j y hy
  have hyfinite := hfinite j y hy
  rcases keyAt_concat_cases hkey hy with hseen | ⟨rfl, rfl⟩
  · have hlt : rank x < rank y := (hrank x y hxfinite hyfinite).1 (hnearer j y hseen)
    exact ⟨fun hless => hlt.not_gt ((hrank y x hyfinite hxfinite).1 hless), fun _ => hnearer j y hseen⟩
  · exact ⟨fun hless => lt_irrefl _ ((hrank y y hxfinite hxfinite).1 hless), fun hlt => absurd hlt (lt_irrefl _)⟩

theorem Best.closer {b : Float × Nat} (h : Best target seen (some b)) (hfinite : FiniteKeys (seen ++ [key]))
    (hkey : numericKey? key = some x) (hlt : (x - target).abs < b.1) :
    Best target (seen ++ [key]) (some ((x - target).abs, seen.length)) := by
  obtain ⟨rank, hrank⟩ := Number.exists_rank target
  obtain ⟨z, hz, hd, hbest⟩ := h
  rw [hd] at hlt hbest
  have hold (j : Nat) (y : Float) (hy : keyAt seen j = some y) : y.isFinite = true :=
    hfinite j y (keyAt_concat.2 (.inl hy))
  have hzfinite := hold _ z hz
  have hxfinite : x.isFinite = true := hfinite seen.length x (keyAt_concat.2 (.inr ⟨rfl, hkey⟩))
  refine best_concat hkey hfinite fun j y hy => ?_
  have hyfinite := hold j y hy
  have hle : rank z ≤ rank y := not_lt.1 fun hless => (hbest j y hy).1 ((hrank y z hyfinite hzfinite).2 hless)
  exact (hrank x y hxfinite hyfinite).2 (((hrank x z hxfinite hzfinite).1 hlt).trans_le hle)

theorem Best.stay {b : Float × Nat} (h : Best target seen (some b)) (hkey : numericKey? key = some x)
    (hnot : ¬(x - target).abs < b.1) : Best target (seen ++ [key]) (some b) := by
  obtain ⟨z, hz, hd, hbest⟩ := h
  refine ⟨z, keyAt_concat.2 (.inl hz), hd, ?_⟩
  intro j y hy
  rcases keyAt_concat_cases hkey hy with hseen | ⟨rfl, rfl⟩
  · exact hbest j y hseen
  · exact ⟨hnot, fun hlt => absurd hlt (lt_length_of_keyAt hz).not_gt⟩

/-- A round of the loop keeps the best row: it changes only where a number is strictly nearer. -/
theorem Best.nearer (h : Best target seen best) (hfinite : FiniteKeys (seen ++ [key])) :
    Best target (seen ++ [key]) (nearer target best seen.length key) := by
  rw [Function.nearer]
  cases hkey : numericKey? key with
  | none => exact h.skip hkey
  | some x =>
    cases best with
    | none =>
      refine best_concat hkey hfinite fun j y hy => ?_
      rw [h j] at hy
      cases hy
    | some b =>
      simp only
      split
      · rename_i hlt
        exact h.closer hfinite hkey hlt
      · rename_i hnot
        exact h.stay hkey hnot

/-- The loop ends with the best row of all keys. -/
theorem Best.nearestRow (h : Best target seen best) (hfinite : FiniteKeys (seen ++ keys)) :
    Best target (seen ++ keys) (nearestRow target best seen.length keys) := by
  induction keys generalizing seen best with
  | nil =>
    rw [List.append_nil]
    exact h
  | cons key keys ih =>
    have happend : seen ++ key :: keys = (seen ++ [key]) ++ keys := by simp
    have hprefix : FiniteKeys (seen ++ [key]) := by
      intro row x hx
      refine hfinite row x ?_
      rw [happend, keyAt_append_left (lt_length_of_keyAt hx)]
      exact hx
    rw [nearestRow_cons, happend]
    have hlength : seen.length + 1 = (seen ++ [key]).length := by simp
    rw [hlength]
    exact ih (h.nearer hprefix) (happend ▸ hfinite)

/-- Rounding may make more keys nearest, but it keeps those that are. -/
theorem isNearest_of_value (hfinite : FiniteKeys keys) (htarget : target.isFinite = true) (hx : keyAt keys row = some x)
    (hleast : ∀ j y, keyAt keys j = some y →
      |Number.value x - Number.value target| ≤ |Number.value y - Number.value target|) : IsNearest target keys row := by
  refine ⟨x, hx, fun j y hy => ?_⟩
  exact Number.not_distance_lt (hfinite row x hx) (hfinite j y hy) htarget (hleast j y hy)

/-- The loop finds the first of the nearest keys, and nothing only where there is no number. -/
theorem nearestRow_spec (target : Float) (hfinite : FiniteKeys keys) :
    (∃ d row, nearestRow target none 0 keys = some (d, row) ∧ IsLeast {r | IsNearest target keys r} row) ∨
      nearestRow target none 0 keys = none ∧ ∀ row, keyAt keys row = none := by
  have hstart : Best target [] none := fun row => rfl
  have hbest : Best target ([] ++ keys) (nearestRow target none ([] : List Value).length keys) :=
    hstart.nearestRow hfinite
  rw [List.nil_append, List.length_nil] at hbest
  cases hrow : nearestRow target none 0 keys with
  | none =>
    rw [hrow] at hbest
    exact .inr ⟨rfl, hbest⟩
  | some b =>
    rw [hrow] at hbest
    obtain ⟨d, row⟩ := b
    obtain ⟨x, hx, rfl, hleast⟩ := hbest
    refine .inl ⟨_, row, rfl, ⟨x, hx, fun j y hy => (hleast j y hy).1⟩, ?_⟩
    rintro j ⟨y, hy, hnearest⟩
    by_contra hlt
    exact hnearest row x hx ((hleast j y hy).2 (not_le.1 hlt))

/-! ### Look-ups -/

/-- The keys of a table are what stands in its first column. -/
def keysOf (table : Value) : List Value := table.columns.headD []

/-- What stands in a row of a column; columns are counted from 1. -/
def elementAt (table : Value) (column row : Nat) : Option Value :=
  (table.columns[column - 1]?).bind fun cells => cells[row]?

/-- The key in the row equals a value as the operator `=` sees it. -/
def IsEqualKey (value : Value) (keys : List Value) (row : Nat) : Prop :=
  ∃ key, keys[row]? = some key ∧ key.looselyEqual value = true

variable {value table column mode : Value} {results : List Value} {n : Float} {c : Nat}

theorem lookUpEqual_spec (value : Value) (hlength : results.length = keys.length) :
    (∃ row v, IsLeast {r | IsEqualKey value keys r} row ∧ results[row]? = some v ∧
      lookUpEqual value keys results = v) ∨
    (∀ row, ¬IsEqualKey value keys row) ∧ lookUpEqual value keys results = .ofCode .na := by
  unfold lookUpEqual
  cases hfound : keys.findIdx? fun key => key.looselyEqual value with
  | none =>
    refine .inr ⟨?_, rfl⟩
    rintro row ⟨key, hkey, hequal⟩
    have hnone := List.findIdx?_eq_none_iff.1 hfound key (List.mem_of_getElem? hkey)
    rw [hequal] at hnone
    cases hnone
  | some row =>
    obtain ⟨hrow, hequal, hfirst⟩ := List.findIdx?_eq_some_iff_getElem.1 hfound
    have hresult : results[row]? = some results[row] := List.getElem?_eq_getElem (hlength ▸ hrow)
    refine .inl ⟨row, results[row], ⟨⟨keys[row], List.getElem?_eq_getElem hrow, hequal⟩, ?_⟩, hresult, ?_⟩
    · rintro j ⟨key, hkey, hj⟩
      by_contra hlt
      obtain ⟨hlength, rfl⟩ := List.getElem?_eq_some_iff.1 hkey
      exact hfirst j (not_le.1 hlt) hj
    · change results.getD row _ = _
      rw [List.getD_eq_getElem?_getD, hresult, Option.getD_some]

theorem lookUpNearest_spec (hlength : results.length = keys.length) (hfinite : FiniteKeys keys)
    (hvalue : value.toNumber = .ok target) :
    (∃ row v, IsLeast {r | IsNearest target keys r} row ∧ results[row]? = some v ∧
      lookUpNearest value keys results = v) ∨
    (∀ row, keyAt keys row = none) ∧ lookUpNearest value keys results = .ofCode .na := by
  unfold lookUpNearest
  rw [hvalue]
  rcases nearestRow_spec target hfinite with ⟨d, row, hrow, hleast⟩ | ⟨hnone, hkeys⟩
  · obtain ⟨x, hx, -⟩ := hleast.1
    have hlt : row < results.length := hlength ▸ lt_length_of_keyAt hx
    have hresult : results[row]? = some results[row] := List.getElem?_eq_getElem hlt
    refine .inl ⟨row, results[row], hleast, hresult, ?_⟩
    simp only [hrow]
    rw [List.getD_eq_getElem?_getD, hresult, Option.getD_some]
  · refine .inr ⟨hkeys, ?_⟩
    simp only [hnone]

/-- For a column that the table has, a look-up goes through the keys and takes the result from that column. -/
theorem lookUp_eq (value mode : Value) (rest : List Value) (hcolumn : column.toNumber = .ok n)
    (hc : Number.clampWord n = c) (hfirst : 1 ≤ c) (hlast : c ≤ table.columns.length) :
    ∃ results, table.columns[c - 1]? = some results ∧
      lookUp (value :: table :: column :: mode :: rest) =
        if isTrue mode then lookUpNearest value (keysOf table) results
        else lookUpEqual value (keysOf table) results := by
  have hlt : c - 1 < table.columns.length := by omega
  have hindex : (Number.clampWord n - 1).toNat = c - 1 := by omega
  have hkeys : table.columns.head? = some (keysOf table) := by
    rw [keysOf]
    cases hcolumns : table.columns with
    | nil => simp [hcolumns] at hlt
    | cons keys others => rfl
  have hresults : table.columns[c - 1]? = some table.columns[c - 1] := List.getElem?_eq_getElem hlt
  refine ⟨_, hresults, ?_⟩
  unfold lookUp
  simp only [argument, List.getD_cons_succ, List.getD_cons_zero, hcolumn, hkeys, hindex, hresults]

/-- What a look-up finds in a table whose columns are equally long, in a column that it has. If it need not be exact it
gives what stands beside the first of the nearest numeric keys, else what stands beside the first key that equals the
value; without such a key, or if the value is no number where a nearest one is asked for, it gives an error. Distances
are those of floats. So a key that is exactly the nearest one is among the nearest, and rounding can but add others. -/
theorem lookUp_finds (value mode : Value) (rest : List Value) (hlevel : Value.Level table.columns)
    (hcolumn : column.toNumber = .ok n) (hc : Number.clampWord n = c) (hfirst : 1 ≤ c)
    (hlast : c ≤ table.columns.length) (hfinite : FiniteKeys (keysOf table)) :
    (isTrue mode = true → ∀ target, value.toNumber = .ok target →
      (∃ row v, IsLeast {r | IsNearest target (keysOf table) r} row ∧ elementAt table c row = some v ∧
        lookUp (value :: table :: column :: mode :: rest) = v) ∨
      (∀ row, keyAt (keysOf table) row = none) ∧
        lookUp (value :: table :: column :: mode :: rest) = .ofCode .na) ∧
    (isTrue mode = true → ∀ e, value.toNumber = .error e →
      lookUp (value :: table :: column :: mode :: rest) = .ofCode .na) ∧
    (isTrue mode = false →
      (∃ row v, IsLeast {r | IsEqualKey value (keysOf table) r} row ∧ elementAt table c row = some v ∧
        lookUp (value :: table :: column :: mode :: rest) = v) ∨
      (∀ row, ¬IsEqualKey value (keysOf table) row) ∧
        lookUp (value :: table :: column :: mode :: rest) = .ofCode .na) ∧
    (∀ target row x, target.isFinite = true → keyAt (keysOf table) row = some x →
      (∀ j y, keyAt (keysOf table) j = some y →
        |Number.value x - Number.value target| ≤ |Number.value y - Number.value target|) →
      IsNearest target (keysOf table) row) := by
  obtain ⟨results, hresults, hlookUp⟩ := lookUp_eq value mode rest hcolumn hc hfirst hlast
  have hlength : results.length = (keysOf table).length := by
    rw [hlevel results (List.mem_of_getElem? hresults), keysOf, Value.height]
    cases table.columns <;> rfl
  have helement (row : Nat) : elementAt table c row = results[row]? := by
    rw [elementAt, hresults]
    rfl
  simp only [helement, hlookUp]
  refine ⟨?_, ?_, ?_, ?_⟩
  · intro hmode target hvalue
    rw [if_pos hmode]
    exact lookUpNearest_spec hlength hfinite hvalue
  · intro hmode e hvalue
    rw [if_pos hmode, lookUpNearest, hvalue]
  · intro hmode
    rw [if_neg (by simp [hmode])]
    exact lookUpEqual_spec value hlength
  · intro target row x htarget hx hleast
    exact isNearest_of_value hfinite htarget hx hleast

/-- A table whose keys are no number, a number and a cell with a number. -/
def ladder : Value :=
  .array [[.text "keys", .number 10, .array [[.number 20]]], [.text "names", .text "ten", .text "twenty"]]

theorem lookUp_finds_ladder : ∃ row v, IsLeast {r | IsNearest 15 (keysOf ladder) r} row ∧
    elementAt ladder 2 row = some v ∧ lookUp [.number 15, ladder, .number 2.5, .boolean true] = v := by
  have hlevel : Value.Level ladder.columns := by
    intro cells hcells
    simp only [ladder, Value.columns, List.mem_cons, List.not_mem_nil, or_false] at hcells
    rcases hcells with rfl | rfl <;> rfl
  have hfinite : FiniteKeys (keysOf ladder) := by
    rintro (_ | _ | _ | row) x hx
    · cases hx
    · cases hx
      decide +kernel
    · cases hx
      decide +kernel
    · cases hx
  have hcolumn : (Value.number 2.5).toNumber = .ok 2.5 := rfl
  obtain ⟨hnearest, -⟩ := lookUp_finds (.number 15) (.boolean true) [] hlevel hcolumn (c := 2) (by decide +kernel)
    (by decide) (by decide) hfinite
  rcases hnearest rfl 15 rfl with hfound | ⟨hnone, -⟩
  · exact hfound
  · exact absurd (hnone 1) (by decide)

end Function

end Spreadsheet
