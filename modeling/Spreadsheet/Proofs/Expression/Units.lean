import Spreadsheet.Expression

/-!
Units of expressions. What the units of each kind of expression are, and that those of its parts are among them.
-/

namespace Spreadsheet.Expression

variable {a b : Expression} {p : Nat} {s name : String} {args items : List Expression} {explicit : Bool}

theorem walkList_eq (enter : Expression → Bool) (es : List Expression) :
    walkList enter es = es.flatMap (walk enter) := by
  induction es with
  | nil => rw [walkList]; rfl
  | cons e es ih => rw [walkList, ih, List.flatMap_cons]

theorem mem_units (e : Expression) : e ∈ e.units := by
  cases e <;> exact List.mem_cons_self

theorem units_cell (m : Mention) : (cell m).units = [cell m] := rfl

theorem units_range (p : Nat) (r : RangeMention) : (range p r).units = [range p r, cell r.first, cell r.last] := rfl

theorem units_unary : (unary p s a).units = unary p s a :: a.units := rfl

theorem units_binary : (binary p s a b).units = binary p s a b :: (a.units ++ b.units) := rfl

theorem units_call : (call p name args).units = call p name args :: args.flatMap units :=
  congrArg _ (walkList_eq _ _)

theorem units_group : (group p items explicit).units = group p items explicit :: items.flatMap units :=
  congrArg _ (walkList_eq _ _)

/-! ### Parts -/

theorem units_operand : a.units ⊆ (unary p s a).units := by
  rw [units_unary]
  exact List.subset_cons_self _ _

theorem units_left : a.units ⊆ (binary p s a b).units := by
  rw [units_binary]
  exact fun u hu => List.mem_cons_of_mem _ (List.mem_append_left _ hu)

theorem units_right : b.units ⊆ (binary p s a b).units := by
  rw [units_binary]
  exact fun u hu => List.mem_cons_of_mem _ (List.mem_append_right _ hu)

theorem units_argument (ha : a ∈ args) : a.units ⊆ (call p name args).units := by
  rw [units_call]
  exact fun u hu => List.mem_cons_of_mem _ (List.mem_flatMap_of_mem ha hu)

theorem units_item (ha : a ∈ items) : a.units ⊆ (group p items explicit).units := by
  rw [units_group]
  exact fun u hu => List.mem_cons_of_mem _ (List.mem_flatMap_of_mem ha hu)

mutual

/-- The units of a unit are units of the expression, too. -/
theorem units_subset (e : Expression) {u : Expression} (hu : u ∈ e.units) : u.units ⊆ e.units := by
  have hself {parts : List Expression} (hparts : e.units = e :: parts) (hdeep : u ∈ parts → u.units ⊆ parts) :
      u.units ⊆ e.units := by
    rcases List.mem_cons.1 (hparts ▸ hu) with rfl | hu
    · exact List.Subset.refl _
    · exact hparts ▸ fun w hw => List.mem_cons_of_mem _ (hdeep hu hw)
  cases e with
  | unary p s a => exact hself units_unary fun hu => units_subset a hu
  | binary p s a b =>
    refine hself units_binary fun hu w hw => List.mem_append.2 ?_
    rcases List.mem_append.1 hu with hu | hu
    · exact .inl (units_subset a hu hw)
    · exact .inr (units_subset b hu hw)
  | call p name args => exact hself units_call fun hu => units_subset_flatMap args hu
  | group p items explicit => exact hself units_group fun hu => units_subset_flatMap items hu
  | range p r =>
    refine hself (units_range p r) fun hu => ?_
    simp only [List.mem_cons, List.not_mem_nil, or_false] at hu
    rcases hu with rfl | rfl <;> simp [units_cell]
  | _ => exact @hself [] rfl fun hu => absurd hu List.not_mem_nil

theorem units_subset_flatMap (es : List Expression) {u : Expression} (hu : u ∈ es.flatMap units) :
    u.units ⊆ es.flatMap units := by
  cases es with
  | nil => exact absurd hu List.not_mem_nil
  | cons e es =>
    rw [List.flatMap_cons] at hu ⊢
    rcases List.mem_append.1 hu with hu | hu
    · exact fun w hw => List.mem_append_left _ (units_subset e hu hw)
    · exact fun w hw => List.mem_append_right _ (units_subset_flatMap es hu hw)

end

end Spreadsheet.Expression
