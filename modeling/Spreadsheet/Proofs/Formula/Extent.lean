import Spreadsheet.Proofs.Formula.Advance
import Spreadsheet.Proofs.Formula.Tracked

/-!
Where the units of a formula are. Whatever a reader makes of a formula, with or without faults, starts at a place
inside it: every unit, every reference, and the place of a fault. A minus that is split off a negative number needs
the number to go on behind it, so streams also keep that.
-/

namespace Spreadsheet

variable {stop p : Nat}

/-! ### Units -/

namespace Expression

variable {a b e : Expression} {args : List Expression}

/-- Whether all units of an expression start before a place. -/
def Before (stop : Nat) (e : Expression) : Prop := ∀ u ∈ e.units, u.position < stop

theorem Before.position_lt (h : e.Before stop) : e.position < stop :=
  h e e.mem_units

/-- A unit without parts. -/
theorem before_of_units (hunits : e.units = [e]) : e.Before stop ↔ e.position < stop := by
  simp [Before, hunits]

@[simp] theorem before_literal {v : Value} {spelling : Option String} :
    (literal p v spelling).Before stop ↔ p < stop := before_of_units (by rw [units, walk.eq_def]; rfl)

@[simp] theorem before_imaginary {y : Float} {spelling : String} :
    (imaginary p y spelling).Before stop ↔ p < stop := before_of_units (by rw [units, walk.eq_def]; rfl)

@[simp] theorem before_complex {z : Complex} {spelling : Option String} :
    (complex p z spelling).Before stop ↔ p < stop := before_of_units (by rw [units, walk.eq_def]; rfl)

@[simp] theorem before_cell {m : Mention} : (cell m).Before stop ↔ m.position < stop :=
  before_of_units (by rw [units, walk.eq_def]; rfl)

@[simp] theorem before_identifier {name : String} : (identifier p name).Before stop ↔ p < stop :=
  before_of_units (by rw [units, walk.eq_def]; rfl)

@[simp] theorem before_operator {s : String} : (operator p s).Before stop ↔ p < stop :=
  before_of_units (by rw [units, walk.eq_def]; rfl)

@[simp] theorem before_array {columns : List (List Value)} : (array p columns).Before stop ↔ p < stop :=
  before_of_units (by rw [units, walk.eq_def]; rfl)

@[simp] theorem before_missing : (missing p).Before stop ↔ p < stop :=
  before_of_units (by rw [units, walk.eq_def]; rfl)

@[simp] theorem before_range {r : RangeMention} :
    (range p r).Before stop ↔ p < stop ∧ r.first.position < stop ∧ r.last.position < stop := by
  simp [Before, units_range, position]

@[simp] theorem before_unary {s : String} : (unary p s a).Before stop ↔ p < stop ∧ a.Before stop := by
  simp [Before, units_unary, position]

@[simp] theorem before_binary {s : String} :
    (binary p s a b).Before stop ↔ p < stop ∧ a.Before stop ∧ b.Before stop := by
  simp [Before, units_binary, position, or_imp, forall_and]

@[simp] theorem before_call {name : String} :
    (call p name args).Before stop ↔ p < stop ∧ ∀ a ∈ args, a.Before stop := by
  simp only [Before, units_call, List.forall_mem_cons, List.forall_mem_flatMap]
  rfl

@[simp] theorem before_group {explicit : Bool} :
    (group p args explicit).Before stop ↔ p < stop ∧ ∀ a ∈ args, a.Before stop := by
  simp only [Before, units_group, List.forall_mem_cons, List.forall_mem_flatMap]
  rfl

/-- Whether a unit of a stream starts before a place and a negative number goes on before it. -/
def Placed (stop : Nat) (e : Expression) : Prop :=
  e.Before stop ∧ ∀ p x spelling, e = .literal p (.number x) spelling → x < 0 → p + 1 < stop

theorem Before.placed (h : e.Before stop) (hne : ∀ p x spelling, e ≠ .literal p (.number x) spelling) :
    e.Placed stop := ⟨h, fun p x spelling heq => absurd heq (hne p x spelling)⟩

end Expression

namespace Formula

variable {locale : Locale} {source us : List Nat} {first : Bool} {u n : Nat} {e : Expression}
  {stream : List Expression} {log log' : ReferenceLog} {r : Reader}

/-! ### Lexemes -/

namespace Lexeme

theorem negative_takeNumeral (locale : Locale) (us : List Nat) :
    (takeNumeral locale us).negative = (takeSign us).1 := by
  unfold takeNumeral
  simp only
  split
  · split <;> rfl
  · rfl

/-- A number below zero is written with a minus. -/
theorem minus_of_negative {x : Float} {q : Nat} {spelling : Option String}
    (h : (number locale p us).1 = .literal q (.number x) spelling) (hx : x < 0) :
    q = p ∧ (takeSign us).1 = true := by
  have hunsigned (hsign : (takeSign us).1 = false) : Number.sign? (takeNumeral locale us).value = some .positive := by
    rw [sign?_value, negative_takeNumeral, hsign]
    rfl
  unfold number at h
  simp only at h
  split at h
  · cases h
    refine ⟨rfl, Bool.of_not_eq_false fun hsign => Number.not_lt_of_positive ?_ hx⟩
    rw [Number.sign?_percent, hunsigned hsign]
  · split at h
    · cases h
    · cases h
      exact ⟨rfl, Bool.of_not_eq_false fun hsign => Number.not_lt_of_positive (hunsigned hsign) hx⟩

theorem takeSign_of_minus (h : (takeSign us).1 = true) : (takeSign us).2 = 1 := by
  unfold takeSign at h ⊢
  split at h
  · split at h
    · simp_all
    · split at h <;> cases h
  · cases h

theorem lt_length_of_opensNumber (h : OpensNumber locale us) : (takeSign us).2 < us.length := by
  by_contra hle
  rw [OpensNumber, List.drop_eq_nil_iff.2 (by omega)] at h
  cases h

theorem placed_number (h : OpensNumber locale us) (hend : p + us.length ≤ stop) :
    (number locale p us).1.Placed stop := by
  have hlength := lt_length_of_opensNumber h
  refine ⟨?_, fun q x spelling heq hx => ?_⟩
  · unfold number
    simp only
    split
    · simp only [Expression.before_literal]
      omega
    · split
      · simp only [Expression.before_imaginary]
        omega
      · simp only [Expression.before_literal]
        omega
  · obtain ⟨rfl, hminus⟩ := minus_of_negative heq hx
    rw [takeSign_of_minus hminus] at hlength
    omega

theorem placed_wordAtom (name : String) (h : p < stop) : (wordAtom name p).Placed stop := by
  unfold wordAtom
  split
  · rename_i m hm
    refine Expression.Before.placed ?_ (by simp)
    rwa [Expression.before_cell, Mention.position_of_word hm]
  · exact Expression.Before.placed (Expression.before_identifier.2 h) (by simp)

theorem placed_word {fault : Option Fault} (h : word p u us = (.atom e fault, n)) (hp : p < stop) :
    e.Placed stop := by
  have hname (name : String) : (Expression.identifier p name).Placed stop :=
    Expression.Before.placed (Expression.before_identifier.2 hp) (by simp)
  have hboolean (b : Bool) : (Expression.literal p (.boolean b) none).Placed stop :=
    Expression.Before.placed (Expression.before_literal.2 hp) (by simp)
  unfold word at h
  simp only at h
  split at h
  · cases h
    exact hname _
  split at h
  · cases h
    exact hboolean true
  split at h
  · cases h
    exact hboolean false
  split at h
  · cases h
  · cases h
    exact placed_wordAtom _ hp

/-- The unit that a lexeme gives stands before the end. -/
theorem placed_read {fault : Option Fault} (h : read locale first p u us = (.atom e fault, n))
    (hend : p + 1 + us.length ≤ stop) : e.Placed stop := by
  unfold read at h
  split at h
  · cases h
  split at h
  · cases h
    exact Expression.Before.placed (Expression.before_literal.2 (by omega)) (by simp)
  split at h
  · rename_i hnumber
    cases h
    refine placed_number (opensNumber_of_read hnumber) ?_
    rw [List.length_cons]
    omega
  split at h
  · cases h
  split at h
  · exact placed_word h (by omega)
  · cases h

/-- The parenthesis that a lexeme opens stands before the end. -/
theorem openAt_lt_of_read {name : String} {openAt : Nat} (h : read locale first p u us = (.call name openAt, n))
    (hend : p + 1 + us.length ≤ stop) : openAt < stop := by
  unfold read at h
  split at h
  · cases h
  split at h
  · cases h
  split at h
  · cases h
  split at h
  · cases h
  split at h
  · obtain ⟨hle, hopen⟩ := length_word_le p u us
    rw [h] at hle hopen
    have := hopen name openAt rfl
    omega
  · cases h

end Lexeme

/-! ### The log -/

/-- Whether a range and both of its corners start before a place. -/
def RangeBefore (stop : Nat) (r : RangeMention) : Prop := r.first.position < stop ∧ r.last.position < stop

/-- Whether an entry starts before a place; of a range both corners do. -/
def ReferenceEntry.Before (stop : Nat) : ReferenceEntry → Prop
  | .cell m => m.position < stop
  | .range r => RangeBefore stop r
  | .name _ p => p < stop

theorem ReferenceEntry.Before.position_lt {x : ReferenceEntry} (h : x.Before stop) : x.position < stop := by
  cases x with
  | cell m => exact h
  | range r => exact h.1
  | name name p => exact h

/-- Whether everything that has been noted starts before a place. -/
structure ReferenceLog.Before (stop : Nat) (log : ReferenceLog) : Prop where
  seen : ∀ m ∈ log.seen, m.position < stop
  ranges : ∀ r ∈ log.ranges, RangeBefore stop r
  entries : ∀ x ∈ log.entries, x.Before stop

namespace ReferenceLog.Before

theorem note (h : log.Before stop) (he : e.Before stop) : (log.note e).Before stop := by
  unfold ReferenceLog.note
  split
  · rename_i m
    rw [Expression.before_cell] at he
    refine ⟨List.forall_mem_cons.2 ⟨he, h.seen⟩, h.ranges, List.forall_mem_append.2 ⟨h.entries, ?_⟩⟩
    simpa [ReferenceEntry.Before] using he
  · rename_i p name
    rw [Expression.before_identifier] at he
    refine ⟨h.seen, h.ranges, List.forall_mem_append.2 ⟨h.entries, ?_⟩⟩
    simpa [ReferenceEntry.Before] using he
  · exact h

theorem forget (h : log.Before stop) (positions : List Nat) : (log.forget positions).Before stop :=
  ⟨h.seen, h.ranges, fun x hx => h.entries x (List.mem_of_mem_filter hx)⟩

theorem release (h : log.Before stop) (corners : List Mention) : (log.release corners).Before stop :=
  ⟨h.seen, h.ranges, h.entries⟩

theorem fold {r : RangeMention} (h : log.Before stop) (hr : RangeBefore stop r) : (log.fold r).Before stop :=
  ⟨h.seen, List.forall_mem_cons.2 ⟨hr, h.ranges⟩,
    List.forall_mem_append.2 ⟨h.entries, by simpa [ReferenceEntry.Before] using hr⟩⟩

theorem discardAfter (h : log.Before stop) (count : Nat) : (log.discardAfter count).Before stop :=
  ⟨h.seen, h.ranges, fun x hx => h.entries x (List.mem_of_mem_take hx)⟩

theorem cells (h : log.Before stop) : ∀ m ∈ log.cells, m.position < stop := by
  intro m hm
  obtain ⟨label, -, hfound⟩ := List.mem_filterMap.1 hm
  split at hfound
  · exact h.seen m (List.mem_of_find?_eq_some hfound)
  · cases hfound

theorem rangeList (h : log.Before stop) : ∀ r ∈ log.rangeList, RangeBefore stop r := by
  intro r hr
  obtain ⟨label, -, hfound⟩ := List.mem_filterMap.1 hr
  exact h.ranges r (List.mem_of_find?_eq_some hfound)

theorem inOrder (h : log.Before stop) : ∀ x ∈ log.inOrder, x.Before stop := fun x hx =>
  h.entries x (List.mem_mergeSort.1 hx)

end ReferenceLog.Before

/-! ### Ranges and complex numbers -/

/-- The corner of a range stands before the end, and so does a minus that is split off it. -/
theorem before_leftCorner {a : Expression} {minus : Option Expression} {m : Mention} (ha : a.Placed stop)
    (h : Fold.leftCorner? a = some (minus, m)) : (∀ o ∈ minus, o.Before stop) ∧ m.position < stop := by
  unfold Fold.leftCorner? at h
  split at h
  · rename_i m' hm
    cases h
    exact ⟨by simp, (isBare_of_ofUnit? hm).2 ▸ ha.1.position_lt⟩
  · obtain ⟨⟨o, m'⟩, hnegated, heq⟩ := Option.map_eq_some_iff.1 h
    cases heq
    unfold Fold.negatedRow? at hnegated
    split at hnegated
    · rename_i p x spelling _
      split at hnegated
      · rename_i hx
        obtain ⟨m', hm, heq⟩ := Option.map_eq_some_iff.1 hnegated
        cases heq
        have hlt := ha.2 p x spelling rfl hx
        refine ⟨fun o ho => ?_, ?_⟩
        · obtain rfl := Option.some.inj ho
          exact Expression.before_operator.2 (by omega)
        · rwa [Mention.position_of_rowNumber hm]
      · cases hnegated
    · cases hnegated

theorem before_range? {a b : Expression} {minus : Option Expression} {r : RangeMention} (ha : a.Placed stop)
    (hb : b.Placed stop) (hlog : log.Before stop) (h : Fold.range? log a b = some (minus, r, log')) :
    (∀ o ∈ minus, o.Before stop) ∧ RangeBefore stop r ∧ log'.Before stop := by
  unfold Fold.range? at h
  split at h
  · cases h
    exact ⟨by simp, ⟨ha.1.position_lt, hb.1.position_lt⟩, (hlog.release _).forget _⟩
  · split at h
    · rename_i minus' m m' hleft hright
      split at h
      · cases h
        obtain ⟨hminus, hm⟩ := before_leftCorner ha hleft
        exact ⟨hminus, ⟨hm, (isBare_of_ofUnit? hright).2 ▸ hb.1.position_lt⟩, hlog.forget _⟩
      · cases h
    · cases h

theorem before_ranges (h : ∀ u ∈ stream, u.Placed stop) (hlog : log.Before stop) :
    (∀ u ∈ (Fold.ranges log stream).1, u.Before stop) ∧ (Fold.ranges log stream).2.Before stop := by
  fun_induction Fold.ranges log stream with
  | case1 log a p b rest minus r log' hrange units log'' hrest ih =>
    obtain ⟨hminus, hr, hlog'⟩ := before_range? (h a (by simp)) (h b (by simp)) hlog hrange
    have htail := ih (fun u hu => h u (by simp [hu])) (hlog'.fold hr)
    rw [hrest] at htail
    refine ⟨List.forall_mem_append.2 ⟨by simpa using hminus, List.forall_mem_cons.2 ⟨?_, htail.1⟩⟩, htail.2⟩
    exact Expression.before_range.2 ⟨hr.1, hr⟩
  | case2 log a p b rest _ units log' hrest ih =>
    have htail := ih (fun u hu => h u (List.mem_cons_of_mem _ hu)) hlog
    rw [hrest] at htail
    exact ⟨List.forall_mem_cons.2 ⟨(h a (by simp)).1, htail.1⟩, htail.2⟩
  | case3 log a rest _ units log' hrest ih =>
    have htail := ih (fun u hu => h u (List.mem_cons_of_mem _ hu)) hlog
    rw [hrest] at htail
    exact ⟨List.forall_mem_cons.2 ⟨(h a (by simp)).1, htail.1⟩, htail.2⟩
  | case4 => exact ⟨by simp, hlog⟩

theorem Fold.ranges_ne_nil (log : ReferenceLog) (h : stream ≠ []) : (Fold.ranges log stream).1 ≠ [] := by
  fun_cases Fold.ranges log stream <;> simp_all

theorem Fold.complexes_ne_nil (locale : Locale) (source : List Nat) (log : ReferenceLog) (h : stream ≠ []) :
    (Fold.complexes locale source log stream).1 ≠ [] := by
  fun_cases Fold.complexes locale source log stream <;> simp_all

theorem before_lone (locale : Locale) (h : e.Before stop) (hlog : log.Before stop) :
    (Fold.lone locale log e).1.Before stop ∧ (Fold.lone locale log e).2.Before stop := by
  unfold Fold.lone
  split
  · exact ⟨by simpa using h, hlog⟩
  · split
    · exact ⟨by simpa using h, hlog.forget _⟩
    · exact ⟨h, hlog⟩
  · exact ⟨h, hlog⟩

theorem before_complexes (locale : Locale) (source : List Nat) (h : ∀ u ∈ stream, u.Before stop)
    (hlog : log.Before stop) : (∀ u ∈ (Fold.complexes locale source log stream).1, u.Before stop) ∧
      (Fold.complexes locale source log stream).2.Before stop := by
  fun_induction Fold.complexes locale source log stream with
  | case1 log p x spelling q s c rest y last named hpart z log' units log'' hrest ih =>
    have hlog' : log'.Before stop := by
      change ReferenceLog.Before stop (if named then log.forget [c.position] else log)
      split
      · exact hlog.forget _
      · exact hlog
    have htail := ih (fun u hu => h u (by simp [hu])) hlog'
    rw [hrest] at htail
    refine ⟨List.forall_mem_cons.2 ⟨?_, htail.1⟩, htail.2⟩
    simpa using h _ List.mem_cons_self
  | case2 log p x spelling q s c rest _ units log' hrest ih =>
    have htail := ih (fun u hu => h u (List.mem_cons_of_mem _ hu)) hlog
    rw [hrest] at htail
    exact ⟨List.forall_mem_cons.2 ⟨h _ List.mem_cons_self, htail.1⟩, htail.2⟩
  | case3 log e rest _ e' log' hlone units log'' hrest ih =>
    have halone := before_lone locale (h e List.mem_cons_self) hlog
    rw [hlone] at halone
    have htail := ih (fun u hu => h u (List.mem_cons_of_mem _ hu)) halone.2
    rw [hrest] at htail
    exact ⟨List.forall_mem_cons.2 ⟨halone.1, htail.1⟩, htail.2⟩
  | case4 => exact ⟨by simp, hlog⟩

/-! ### Trees -/

namespace Arrange

variable {signs : List (String × Nat)} {node operand : Expression}

/-- What a tree of units before a place gives: an expression or a fault before it. -/
def ResultBefore (stop : Nat) : Except ParseError Expression → Prop
  | .ok e => e.Before stop
  | .error err => err.position < stop

theorem before_applySigns (hsigns : ∀ s ∈ signs, s.2 < stop) (he : e.Before stop) :
    (applySigns signs e).Before stop := by
  induction signs with
  | nil => exact he
  | cons s signs ih =>
    obtain ⟨hs, hsigns⟩ := List.forall_mem_cons.1 hsigns
    exact Expression.before_unary.2 ⟨hs, ih hsigns⟩

theorem before_attach (hnode : node.Before stop) (symbol : String) (hp : p < stop) (hoperand : operand.Before stop) :
    (attach node symbol p operand).Before stop := by
  fun_induction attach node symbol p operand with
  | case1 q s left right hlower ih =>
    obtain ⟨hq, hleft, hright⟩ := Expression.before_binary.1 hnode
    exact Expression.before_binary.2 ⟨hq, hleft, ih hright⟩
  | case2 q s left right hlower => exact Expression.before_binary.2 ⟨hp, hnode, hoperand⟩
  | case3 node hother => exact Expression.before_binary.2 ⟨hp, hnode, hoperand⟩

/-- The first operand of a stream that has units, or signs already, stands before the end, or the fault does. -/
theorem before_takeOperand (hsigns : ∀ s ∈ signs, s.2 < stop) (h : ∀ u ∈ stream, u.Before stop)
    (hne : signs ≠ [] ∨ stream ≠ []) :
    (∀ e rest, takeOperand signs stream = .ok (e, rest) → e.Before stop ∧ ∀ u ∈ rest, u.Before stop) ∧
      ∀ err, takeOperand signs stream = .error err → err.position < stop := by
  fun_induction takeOperand signs stream with
  | case1 signs symbol p hlast =>
    obtain ⟨s, signs, rfl⟩ := List.exists_cons_of_ne_nil (hne.resolve_right (by simp))
    refine ⟨by simp, fun err herr => ?_⟩
    cases herr
    cases hlast
    exact hsigns _ List.mem_cons_self
  | case2 signs p symbol rest hsign ih =>
    obtain ⟨hp, hrest⟩ := List.forall_mem_cons.1 h
    exact ih (List.forall_mem_cons.2 ⟨by simpa using hp, hsigns⟩) hrest (.inl (by simp))
  | case3 signs p symbol rest hsign =>
    refine ⟨by simp, fun err herr => ?_⟩
    cases herr
    simpa using h _ List.mem_cons_self
  | case4 signs e rest hother =>
    obtain ⟨he, hrest⟩ := List.forall_mem_cons.1 h
    refine ⟨fun e' rest' heq => ?_, by simp⟩
    cases heq
    exact ⟨before_applySigns (fun s hs => hsigns s (List.mem_reverse.1 hs)) he, hrest⟩

theorem before_build {root : Expression} {pending : Option (String × Nat × List (String × Nat))}
    (hroot : root.Before stop) (hpending : ∀ q ∈ pending, q.2.1 < stop ∧ ∀ s ∈ q.2.2, s.2 < stop)
    (h : ∀ u ∈ stream, u.Before stop) : ResultBefore stop (build root pending stream) := by
  fun_induction build root pending stream with
  | case1 root => exact hroot
  | case2 root symbol p signs s q hlast =>
    obtain ⟨hp, hsigns⟩ := hpending _ rfl
    change q < stop
    cases signs with
    | nil =>
      cases hlast
      exact hp
    | cons sign signs =>
      cases hlast
      exact hsigns _ List.mem_cons_self
  | case3 root rest p symbol ih =>
    obtain ⟨hp, hrest⟩ := List.forall_mem_cons.1 h
    refine ih hroot (fun q hq => ?_) hrest
    cases hq
    exact ⟨by simpa using hp, by simp⟩
  | case4 root rest e hother => exact (h e List.mem_cons_self).position_lt
  | case5 root rest symbol p signs q s hsign ih =>
    obtain ⟨hp, hsigns⟩ := hpending _ rfl
    obtain ⟨hq, hrest⟩ := List.forall_mem_cons.1 h
    refine ih hroot (fun q' hq' => ?_) hrest
    cases hq'
    exact ⟨hp, List.forall_mem_cons.2 ⟨by simpa using hq, hsigns⟩⟩
  | case6 root rest symbol p signs q s hsign =>
    change q < stop
    simpa using h _ List.mem_cons_self
  | case7 root rest symbol p signs e hother ih =>
    obtain ⟨hp, hsigns⟩ := hpending _ rfl
    obtain ⟨he, hrest⟩ := List.forall_mem_cons.1 h
    have hoperand := before_applySigns (fun s hs => hsigns s (List.mem_reverse.1 hs)) he
    exact ih (before_attach hroot symbol hp hoperand) (by simp) hrest

/-- A stream that has units gives an expression before the end, or a fault there. -/
theorem before_tree (h : ∀ u ∈ stream, u.Before stop) (hne : stream ≠ []) : ResultBefore stop (tree stream) := by
  unfold tree
  split
  · rename_i colon hcolon
    exact (h colon (List.mem_of_find?_eq_some hcolon)).position_lt
  · obtain ⟨hok, herror⟩ := before_takeOperand (List.forall_mem_nil _) h (.inr hne)
    unfold units
    cases htake : takeOperand [] stream with
    | error err => exact herror err htake
    | ok result =>
      obtain ⟨hroot, hrest⟩ := hok result.1 result.2 htake
      exact before_build hroot (by simp) hrest

theorem before_degrade (h : ∀ u ∈ stream, u.Before stop) (hne : stream ≠ []) : (degrade stream).Before stop := by
  obtain ⟨u, us, rfl⟩ := List.exists_cons_of_ne_nil hne
  exact Expression.before_group.2 ⟨(h u List.mem_cons_self).position_lt, h⟩

end Arrange

/-! ### Readers -/

/-- Whether the marks of a frame and the arguments it has stand before a place. -/
def Frame.Kind.Before (stop : Nat) : Frame.Kind → Prop
  | .whole => True
  | .parentheses openAt => openAt < stop
  | .call position _ openAt arguments _ => position < stop ∧ openAt < stop ∧ ∀ a ∈ arguments, a.Before stop
  | .array openAt _ _ _ _ => openAt < stop

/-- Whether all of a frame stands before a place. -/
structure Frame.Before (stop : Nat) (f : Frame) : Prop where
  kind : f.kind.Before stop
  stream : ∀ u ∈ f.stream, u.Placed stop

/-- Whether all that a reader has made stands before a place. -/
structure Reader.Inside (stop : Nat) (r : Reader) : Prop where
  frames : ∀ f ∈ r.frames, f.Before stop
  log : r.log.Before stop
  error : ∀ err ∈ r.error, err.position < stop

namespace Reader.Inside

theorem start (stop : Nat) : ({} : Reader).Inside stop where
  frames f hf := by
    obtain rfl := List.mem_singleton.1 hf
    exact ⟨trivial, by simp⟩
  log := ⟨by simp, by simp, by simp⟩
  error := by simp

theorem top (h : r.Inside stop) : r.top.Before stop := h.frames _ List.mem_cons_self

theorem replace (h : r.Inside stop) {f : Frame} (hf : f.Before stop) (hlog : log.Before stop) :
    Reader.Inside stop { r with top := f, log } :=
  ⟨List.forall_mem_cons.2 ⟨hf, fun g hg => h.frames g (List.mem_cons_of_mem _ hg)⟩, hlog, h.error⟩

theorem fail (h : r.Inside stop) (fault : Fault) (hp : p < stop) : (r.fail fault p).Inside stop := by
  refine ⟨h.frames, h.log, fun err herr => ?_⟩
  change err ∈ (r.error <|> some ⟨fault, p⟩) at herr
  cases herror : r.error with
  | some e =>
    rw [herror] at herr
    exact h.error err (herror ▸ herr)
  | none =>
    rw [herror] at herr
    cases herr
    exact hp

theorem deliver (h : r.Inside stop) (he : e.Placed stop) : (r.deliver e).Inside stop := by
  unfold Reader.deliver
  split
  · rename_i openAt columns column row mark hkind
    have hopen : openAt < stop := by
      have := h.top.kind
      rwa [hkind] at this
    split
    · exact h.replace ⟨hopen, h.top.stream⟩ h.log
    · exact (h.replace h.top (h.log.discardAfter mark)).fail _ he.1.position_lt
  · exact h.replace ⟨h.top.kind, List.forall_mem_cons.2 ⟨he, h.top.stream⟩⟩ h.log

theorem push (h : r.Inside stop) {kind : Frame.Kind} (hkind : kind.Before stop) : (r.push kind).Inside stop := by
  have hframe : Frame.Before stop ⟨kind, []⟩ := ⟨hkind, by simp⟩
  exact ⟨List.forall_mem_cons.2 ⟨hframe, h.frames⟩, h.log, h.error⟩

/-- What is made of the innermost stream stands before the end. -/
theorem closeStream (h : r.Inside stop) (locale : Locale) (source : List Nat) :
    (∀ e ∈ (r.closeStream locale source).1, e.Before stop) ∧ (r.closeStream locale source).2.Inside stop := by
  unfold Reader.closeStream
  split
  · exact ⟨by simp, h⟩
  · rename_i hne
    simp only
    have hstream : ∀ u ∈ r.top.stream.reverse, u.Placed stop := fun u hu =>
      h.top.stream u (List.mem_reverse.1 hu)
    obtain ⟨hranges, hlog⟩ := before_ranges hstream h.log
    obtain ⟨hunits, hlog'⟩ := before_complexes locale source hranges hlog
    have hunits_ne := Fold.complexes_ne_nil locale source (Fold.ranges r.log r.top.stream.reverse).2
      (Fold.ranges_ne_nil r.log hne)
    have htree := Arrange.before_tree hunits hunits_ne
    have hr := h.replace h.top hlog'
    split
    · rename_i e heq
      rw [heq] at htree
      exact ⟨fun e' he' => Option.some.inj he' ▸ htree, hr⟩
    · rename_i err heq
      rw [heq] at htree
      exact ⟨fun e' he' => Option.some.inj he' ▸ Arrange.before_degrade hunits hunits_ne, hr.fail _ htree⟩

theorem pop (h : r.Inside stop) {unit : Option Expression} (hunit : ∀ e ∈ unit, e.Placed stop) :
    (r.pop unit).Inside stop := by
  unfold Reader.pop
  split
  · exact h
  · rename_i f below hbelow
    have hbelow : Reader.Inside stop { r with top := f, below } :=
      ⟨fun g hg => h.frames g (List.mem_cons_of_mem _ (hbelow ▸ hg)), h.log, h.error⟩
    cases unit with
    | none => exact hbelow
    | some e => exact hbelow.deliver (hunit e rfl)

/-- Closing a frame gives a unit that starts where the frame was opened. -/
theorem close (h : r.Inside stop) (locale : Locale) (source : List Nat) (fault : Option Fault) :
    (r.close locale source fault).Inside stop := by
  have hnoted {r' : Reader} (hr' : r'.Inside stop) {p : Nat} (hp : p < stop) {unit : Option Expression}
      (hunit : ∀ e ∈ unit, e.Placed stop) : ((r'.noted fault p).pop unit).Inside stop := by
    cases fault with
    | none => exact hr'.pop hunit
    | some f => exact (hr'.fail f hp).pop hunit
  have hkind := h.top.kind
  obtain ⟨hlast, hclosed⟩ := h.closeStream locale source
  unfold Reader.close
  cases heq : r.top.kind with
  | whole => exact h
  | parentheses openAt =>
    rw [heq] at hkind
    refine hnoted hclosed hkind fun e he => ?_
    obtain ⟨inner, hinner, rfl⟩ := Option.map_eq_some_iff.1 he
    refine Expression.Before.placed (Expression.before_group.2 ⟨hkind, ?_⟩) (by simp)
    simpa using hlast inner hinner
  | call position name openAt arguments index =>
    rw [heq] at hkind
    obtain ⟨hposition, hopen, harguments⟩ := hkind
    refine hnoted hclosed hopen fun e he => ?_
    obtain rfl := Option.some.inj he
    refine Expression.Before.placed (Expression.before_call.2 ⟨hposition, fun a ha => ?_⟩) (by simp)
    rw [List.mem_reverse, List.mem_append, Option.mem_toList] at ha
    exact ha.elim (hlast a) (harguments a)
  | array openAt columns column row mark =>
    rw [heq] at hkind
    refine hnoted h hkind fun e he => ?_
    obtain rfl := Option.some.inj he
    exact Expression.Before.placed (Expression.before_array.2 hkind) (by simp)

theorem endArgument (h : r.Inside stop) (locale : Locale) (source : List Nat) {i : Nat} (hi : i < stop) :
    (r.endArgument locale source i).Inside stop := by
  have hkind := h.top.kind
  obtain ⟨hlast, hclosed⟩ := h.closeStream locale source
  unfold Reader.endArgument
  split
  · rename_i position name openAt arguments index heq
    rw [heq] at hkind
    obtain ⟨hposition, hopen, harguments⟩ := hkind
    refine hclosed.replace ⟨⟨hposition, hopen, fun a ha => ?_⟩, by simp⟩ hclosed.log
    rw [List.mem_append, List.mem_replicate, List.mem_append, Option.mem_toList] at ha
    obtain ⟨-, rfl⟩ | ha | ha := ha
    · exact Expression.before_missing.2 hi
    · exact hlast a ha
    · exact harguments a ha
  · exact h

theorem arrayMark (h : r.Inside stop) (locale : Locale) (source : List Nat) {i : Nat} (hi : i < stop) (u : Nat) :
    (r.arrayMark locale source i u).Inside stop := by
  unfold Reader.arrayMark
  split
  · rename_i openAt columns column row mark hkind
    have hopen : openAt < stop := by
      have := h.top.kind
      rwa [hkind] at this
    split
    · exact h.replace ⟨hopen, h.top.stream⟩ h.log
    split
    · exact h.replace ⟨hopen, h.top.stream⟩ h.log
    split
    · exact h.close locale source none
    · exact h.fail _ hi
  · exact h

theorem otherMark (h : r.Inside stop) {i : Nat} (hi : i < stop) (u : Nat) (us : List Nat) :
    (r.otherMark i u us).1.Inside stop := by
  unfold Reader.otherMark
  split
  · exact h.push hi
  · split
    · exact h.deliver (Expression.Before.placed (Expression.before_operator.2 hi) (by simp))
    · exact h.fail _ hi

theorem mark (h : r.Inside stop) (locale : Locale) (source : List Nat) {i : Nat} (hi : i < stop) (u : Nat)
    (us : List Nat) : (r.mark locale source i u us).1.Inside stop := by
  unfold Reader.mark
  split
  · exact h.arrayMark locale source hi u
  · split
    · exact h.close locale source none
    · exact h.otherMark hi u us
  · split
    · exact h.endArgument locale source hi
    · split
      · exact h.close locale source none
      · exact h.otherMark hi u us
  · exact h.otherMark hi u us

/-- A lexeme that ends before a place only makes units before that place. -/
theorem take (h : r.Inside stop) (locale : Locale) (source : List Nat) {i : Nat} (u : Nat) {us : List Nat}
    (hend : i + 1 + us.length ≤ stop) : (r.take locale source i u us).1.Inside stop := by
  unfold Reader.take
  split
  · exact h
  · rename_i e n hread
    have he := Lexeme.placed_read hread hend
    exact (h.replace h.top (h.log.note he.1)).deliver he
  · rename_i e fault n hread
    have he := Lexeme.placed_read hread hend
    exact (h.fail fault he.1.position_lt).deliver he
  · rename_i name openAt n hread
    exact h.push ⟨by omega, Lexeme.openAt_lt_of_read hread hend, by simp⟩
  · exact h.push (show i < stop by omega)
  · exact h.mark locale source (by omega) _ us

/-- A turn of the reader keeps everything before the end of the formula. -/
theorem turn {x y : Nat × Reader} (h : x.2.Inside source.length) (hturn : Turn locale source x y) :
    y.2.Inside source.length := by
  cases hturn with
  | @lexeme i u us r ahead =>
    have hlength := congrArg List.length ahead
    rw [List.length_drop, List.length_cons] at hlength
    exact h.take locale source u (by omega)

/-- So do all turns. -/
theorem turns {x y : Nat × Reader} (h : x.2.Inside source.length)
    (hturns : Relation.ReflTransGen (Turn locale source) x y) : y.2.Inside source.length := by
  induction hturns with
  | refl => exact h
  | tail _ hturn ih => exact ih.turn hturn

theorem closeAll (h : r.Inside stop) (locale : Locale) (source : List Nat) (depth : Nat) :
    (r.closeAll locale source depth).Inside stop := by
  induction depth generalizing r with
  | zero => exact h
  | succ depth ih => exact ih (h.close locale source _)

end Reader.Inside

/-! ### Whole formulas -/

/-- What a reader at the end of a formula gives. -/
def Reader.result (locale : Locale) (source : List Nat) (r : Reader) : Parsed :=
  let r := r.closeAll locale source r.below.length
  let (expression, r) := r.closeStream locale source
  { expression
    error := r.error
    cells := r.log.cells
    ranges := r.log.rangeList
    references := r.log.inOrder }

theorem parse_eq_result (locale : Locale) (text : String) : parse locale text =
    (Reader.takeAll locale (Text.units (body text)) {} 0 (Text.units (body text))).result locale
      (Text.units (body text)) := rfl

/-- Whether all that a formula gives starts before a place. -/
structure Parsed.Before (stop : Nat) (p : Parsed) : Prop where
  error : ∀ err ∈ p.error, err.position < stop
  units : ∀ e ∈ p.expression, ∀ u ∈ e.units, u.position < stop
  cells : ∀ m ∈ p.cells, m.position < stop
  ranges : ∀ r ∈ p.ranges, r.first.position < stop ∧ r.last.position < stop
  references : ∀ x ∈ p.references, x.position < stop

theorem Reader.Inside.result (h : r.Inside stop) (locale : Locale) (source : List Nat) :
    (r.result locale source).Before stop := by
  obtain ⟨hexpression, hr⟩ := (h.closeAll locale source r.below.length).closeStream locale source
  exact ⟨hr.error, hexpression, hr.log.cells, hr.log.rangeList, fun x hx => (hr.log.inOrder x hx).position_lt⟩

/-- Every formula is read to its end: the reader turns from its start to its last unit, forward with each turn, and
no scanner stays where it is. The formula is valid exactly if neither a fault nor a place of one is given, and all
places that are given, with or without a fault, are inside the formula. -/
theorem parse_reads_whole (locale : Locale) (text : String) :
    (∃ r, Relation.ReflTransGen (Reader.Turn locale (Text.units (body text))) (0, {})
        ((Text.units (body text)).length, r) ∧ parse locale text = r.result locale (Text.units (body text))) ∧
    (∀ i r j r', Reader.Turn locale (Text.units (body text)) (i, r) (j, r') →
      i < j ∧ j ≤ (Text.units (body text)).length) ∧
    (∀ p us, Lexeme.OpensNumber locale us →
      0 < (Lexeme.number locale p us).2 ∧ (Lexeme.number locale p us).2 ≤ us.length) ∧
    (∀ us symbol n, takeOperator us = some (symbol, n) → 0 < n ∧ n ≤ us.length) ∧
    ((parse locale text).isValid = true ↔ (parse locale text).error.map ParseError.fault = none ∧
      (parse locale text).error.map ParseError.position = none) ∧
    (parse locale text).Before (Text.units (body text)).length := by
  have hturns : Relation.ReflTransGen (Reader.Turn locale (Text.units (body text))) (0, {}) _ :=
    Reader.turns_takeAll rfl (Nat.zero_le _)
  refine ⟨⟨_, hturns, rfl⟩, fun i r j r' h => h.advances,
    fun p us h => ⟨Lexeme.length_number_pos h p, Lexeme.length_number_le locale p us⟩,
    fun us symbol n h => length_takeOperator h, by simp [Parsed.isValid], ?_⟩
  rw [parse_eq_result]
  exact ((Reader.Inside.start _).turns hturns).result locale _

/-- A call that is not closed, whose argument is a number with a sign. -/
theorem parse_reads_open_call :
    (parse {} "=SUM(-1").Before (Text.units (body "=SUM(-1")).length ∧
    0 < (Lexeme.number {} 4 [45, 49]).2 ∧ (∃ symbol n, takeOperator [60, 61, 49] = some (symbol, n) ∧ 0 < n) ∧
    ∃ j r, Reader.Turn {} (Text.units (body "=SUM(-1")) (0, {}) (j, r) ∧ 0 < j := by
  obtain ⟨-, hturn, hnumber, hoperator, -, hbefore⟩ := parse_reads_whole {} "=SUM(-1"
  have hopens : Lexeme.OpensNumber {} [45, 49] := rfl
  have htake : takeOperator [60, 61, 49] = some ("<=", 2) := by decide
  have hfirst : Reader.Turn {} (Text.units (body "=SUM(-1")) (0, {}) _ := .lexeme {} rfl
  exact ⟨hbefore, (hnumber 4 _ hopens).1, ⟨"<=", 2, htake, (hoperator _ _ _ htake).1⟩,
    ⟨_, _, hfirst, (hturn _ _ _ _ hfirst).1⟩⟩

end Formula

end Spreadsheet
