import Spreadsheet.Proofs.Formula.Arrange

/-!
Trees and precedence. A stream makes a tree exactly when operands under their signs and operators take turns in
it, and the tree is the only one with the units of the stream in their order in which an operator never stands
below one that binds tighter: to the left of its parent it binds at least as tightly, to the right of it tighter.
-/

namespace Spreadsheet.Formula.Arrange

variable {e root node operand a b : Expression} {us vs stream rest : List Expression}
  {signs : List (String × Nat)} {symbol s : String} {p q : Nat}

/-! ### Streams that make a tree -/

/-- Signs and the operand they stand before. -/
inductive IsSigned : List Expression → Prop
  | operand (e : Expression) : e.isOperand = true → IsSigned [e]
  | sign (p : Nat) (s : String) (us : List Expression) : Operator.isSign s = true → IsSigned us →
      IsSigned (.operator p s :: us)

/-- Operands under their signs with one operator between each and the next. -/
inductive IsChain : List Expression → Prop
  | last (us : List Expression) : IsSigned us → IsChain us
  | next (us : List Expression) (p : Nat) (s : String) (vs : List Expression) : IsSigned us → IsChain vs →
      IsChain (us ++ .operator p s :: vs)

theorem IsChain.append (hus : IsChain us) (hvs : IsChain vs) (p : Nat) (s : String) :
    IsChain (us ++ .operator p s :: vs) := by
  induction hus with
  | last us hus => exact .next us p s vs hus hvs
  | next us q t ws hus _ ih =>
    rw [List.append_assoc, List.cons_append]
    exact .next us q t _ hus ih

theorem isSigned_of_arranges (h : Arranges e us) (he : e.isBinary = false) : IsSigned us := by
  induction h with
  | operand e he' => exact .operand e he'
  | unary p s a us hs ha _ ih => exact .sign p s us hs (ih ha)
  | binary => cases he

theorem isChain_of_arranges (h : Arranges e us) : IsChain us := by
  induction h with
  | operand e he => exact .last _ (.operand e he)
  | unary p s a us hs ha h _ => exact .last _ (.sign p s us hs (isSigned_of_arranges h ha))
  | binary p s a b us vs _ _ iha ihb => exact iha.append ihb p s

theorem arranges_of_isSigned (h : IsSigned us) : ∃ e, Arranges e us ∧ e.isBinary = false := by
  induction h with
  | operand e he => exact ⟨e, .operand e he, by cases e <;> simp_all [Expression.isOperand, Expression.isBinary]⟩
  | sign p s us hs _ ih =>
    obtain ⟨e, h, he⟩ := ih
    exact ⟨.unary p s e, .unary p s e us hs he h, rfl⟩

theorem arranges_of_isChain (h : IsChain us) : ∃ e, Arranges e us := by
  induction h with
  | last us hus =>
    obtain ⟨e, h, -⟩ := arranges_of_isSigned hus
    exact ⟨e, h⟩
  | next us p s vs hus _ ih =>
    obtain ⟨a, ha, -⟩ := arranges_of_isSigned hus
    obtain ⟨b, hb⟩ := ih
    exact ⟨.binary p s a b, .binary p s a b us vs ha hb⟩

/-! ### Trees grown operator by operator -/

/-- The operand that is furthest left, under its signs. -/
def head : Expression → Expression
  | .binary _ _ a _ => head a
  | e => e

/-- The operators of a tree from left to right, each with the operand after it. -/
def steps : Expression → List (String × Nat × Expression)
  | .binary p s a b => steps a ++ (s, p, head b) :: steps b
  | _ => []

/-- A tree to which operators and their right operands are added one after the other. -/
def grow (root : Expression) (l : List (String × Nat × Expression)) : Expression :=
  l.foldl (fun root step => attach root step.1 step.2.1 step.2.2) root

theorem grow_append (root : Expression) (l m : List (String × Nat × Expression)) :
    grow root (l ++ m) = grow (grow root l) m := List.foldl_append

theorem head_of_not_binary (h : e.isBinary = false) : head e = e := by
  cases e <;> first | rfl | cases h

theorem steps_of_not_binary (h : e.isBinary = false) : steps e = [] := by
  cases e <;> first | rfl | cases h

theorem not_operator (he : e.isOperand = true) (p : Nat) (s : String) (h : e = .operator p s) : False := by
  subst h
  cases he

theorem takeOperand_of_isOperand (he : e.isOperand = true) (signs : List (String × Nat)) (rest : List Expression) :
    takeOperand signs (e :: rest) = .ok (applySigns signs.reverse e, rest) := by
  rw [takeOperand]
  exact not_operator he

theorem build_of_isOperand (he : e.isOperand = true) (root : Expression) (s : String) (p : Nat)
    (signs : List (String × Nat)) (rest : List Expression) :
    build root (some (s, p, signs)) (e :: rest) = build (attach root s p (applySigns signs.reverse e)) none rest := by
  rw [build]
  exact not_operator he

theorem applySigns_reverse_cons (s : String) (p : Nat) (signs : List (String × Nat)) (e : Expression) :
    applySigns ((s, p) :: signs).reverse e = applySigns signs.reverse (.unary p s e) := by
  rw [List.reverse_cons]
  induction signs.reverse with
  | nil => rfl
  | cons sign signs ih => exact congrArg (Expression.unary sign.2 sign.1) ih

/-- A signed operand is taken as a whole. -/
theorem takeOperand_of_arranges (h : Arranges e us) (he : e.isBinary = false) (signs : List (String × Nat))
    (rest : List Expression) : takeOperand signs (us ++ rest) = .ok (applySigns signs.reverse e, rest) := by
  induction h generalizing signs with
  | operand e he' => exact takeOperand_of_isOperand he' signs rest
  | unary p s a us hs ha _ ih =>
    rw [List.cons_append, takeOperand, if_pos hs, ih ha, applySigns_reverse_cons]
  | binary => cases he

theorem build_of_signed (h : Arranges e us) (he : e.isBinary = false) (root : Expression) (s : String) (p : Nat)
    (signs : List (String × Nat)) (rest : List Expression) :
    build root (some (s, p, signs)) (us ++ rest) =
      build (attach root s p (applySigns signs.reverse e)) none rest := by
  induction h generalizing signs with
  | operand e he' => exact build_of_isOperand he' root s p signs rest
  | unary q t a us ht ha _ ih =>
    rw [List.cons_append, build, if_pos ht, ih ha, applySigns_reverse_cons]
  | binary => cases he

/-- After an operator, the units of a tree add its operands and operators one after the other. -/
theorem build_of_arranges (h : Arranges e us) (root : Expression) (s : String) (p : Nat) (rest : List Expression) :
    build root (some (s, p, [])) (us ++ rest) = build (grow root ((s, p, head e) :: steps e)) none rest := by
  induction h generalizing root s p rest with
  | operand e he =>
    have hbinary : e.isBinary = false := (isOperand_of_flat (.inl he) (not_operator he)).2
    rw [head_of_not_binary hbinary, steps_of_not_binary hbinary]
    exact build_of_isOperand he root s p [] rest
  | unary q t a us ht ha h _ => exact build_of_signed (.unary q t a us ht ha h) rfl root s p [] rest
  | binary q t a b us vs _ _ iha ihb =>
    rw [List.append_assoc, iha, List.cons_append, build, ihb, ← grow_append]
    rfl

/-- The tree of a stream grows out of the first operand, whatever tree with the units of the stream names the
operands and operators. -/
theorem units_of_arranges (h : Arranges e us) : units us = .ok (grow (head e) (steps e)) := by
  suffices hgrow : ∀ rest, ∃ first rest', takeOperand [] (us ++ rest) = .ok (first, rest') ∧
      build first none rest' = build (grow (head e) (steps e)) none rest by
    obtain ⟨first, rest', hfirst, hbuild⟩ := hgrow []
    rw [List.append_nil] at hfirst
    rw [units, hfirst]
    exact hbuild
  induction h with
  | operand e he =>
    intro rest
    have hbinary : e.isBinary = false := (isOperand_of_flat (.inl he) (not_operator he)).2
    refine ⟨e, rest, takeOperand_of_isOperand he [] rest, ?_⟩
    rw [head_of_not_binary hbinary, steps_of_not_binary hbinary]
    rfl
  | unary q t a us ht ha h _ =>
    intro rest
    exact ⟨_, rest, takeOperand_of_arranges (.unary q t a us ht ha h) rfl [] rest, rfl⟩
  | binary p s a b us vs _ hb iha _ =>
    intro rest
    obtain ⟨first, rest', hfirst, hbuild⟩ := iha (.operator p s :: vs ++ rest)
    refine ⟨first, rest', by rw [List.append_assoc]; exact hfirst, ?_⟩
    rw [hbuild, List.cons_append, build, build_of_arranges hb, ← grow_append]
    rfl

/-! ### Precedence -/

/-- The tree is an operator between two operands, and its precedence has the property. -/
def Heads (property : Nat → Prop) : Expression → Prop
  | .binary _ s _ _ => property (Operator.precedence s)
  | _ => True

/-- No operator stands below one that binds tighter. -/
def Ranked : Expression → Prop
  | .unary _ _ a => Ranked a
  | .binary _ s a b =>
    Heads (Operator.precedence s ≤ ·) a ∧ Heads (Operator.precedence s < ·) b ∧ Ranked a ∧ Ranked b
  | _ => True

theorem heads_mono {P Q : Nat → Prop} (hmono : ∀ n, P n → Q n) (h : Heads P e) : Heads Q e := by
  cases e <;> first | trivial | exact hmono _ h

theorem heads_of_not_binary (h : e.isBinary = false) (P : Nat → Prop) : Heads P e := by
  cases e <;> trivial

theorem ranked_of_arranges_not_binary (h : Arranges e us) (he : e.isBinary = false) : Ranked e := by
  induction h with
  | operand e he' => cases e <;> trivial
  | unary p s a us _ ha _ ih => exact ih ha
  | binary => cases he

/-- An operator that binds tighter than a bound is added to a tree that respects the bound without breaking it. -/
theorem heads_attach {k : Nat} (hnode : Heads (k ≤ ·) node) (hs : k ≤ Operator.precedence s) :
    Heads (k ≤ ·) (attach node s p operand) := by
  unfold attach
  split
  · split
    · exact hnode
    · exact hs
  · exact hs

theorem ranked_attach (hnode : Ranked node) (hoperand : Ranked operand) (hbinary : operand.isBinary = false)
    (s : String) (p : Nat) : Ranked (attach node s p operand) := by
  fun_induction attach node s p operand with
  | case1 q t a b hlt ih =>
    obtain ⟨ha, hb, hleft, hright⟩ := hnode
    -- Whatever heads the right side now, it is what headed it before or the new operator.
    exact ⟨ha, heads_attach hb hlt, hleft, ih hright⟩
  | case2 q t a b hle => exact ⟨Nat.le_of_not_lt hle, heads_of_not_binary hbinary _, hnode, hoperand⟩
  | case3 node hnot =>
    have hnode' : node.isBinary = false := by
      cases node with
      | binary q t a b => exact absurd rfl (hnot q t a b)
      | _ => rfl
    exact ⟨heads_of_not_binary hnode' _, heads_of_not_binary hbinary _, hnode, hoperand⟩

/-- The furthest operand and the operands after the operators are no binary trees. -/
theorem head_of_arranges (h : Arranges e us) : Ranked (head e) ∧ (head e).isBinary = false := by
  induction h with
  | operand e he =>
    have hbinary : e.isBinary = false := (isOperand_of_flat (.inl he) (not_operator he)).2
    rw [head_of_not_binary hbinary]
    exact ⟨ranked_of_arranges_not_binary (.operand e he) hbinary, hbinary⟩
  | unary p s a us hs ha h _ => exact ⟨ranked_of_arranges_not_binary (.unary p s a us hs ha h) rfl, rfl⟩
  | binary p s a b us vs _ _ iha _ => exact iha

theorem steps_of_arranges (h : Arranges e us) :
    ∀ step ∈ steps e, Ranked step.2.2 ∧ step.2.2.isBinary = false := by
  induction h with
  | operand e he =>
    rw [steps_of_not_binary (isOperand_of_flat (.inl he) (not_operator he)).2]
    rintro step ⟨⟩
  | unary => rintro step ⟨⟩
  | binary p s a b us vs _ hb iha ihb =>
    intro step hstep
    rcases List.mem_append.1 hstep with hleft | _ | ⟨_, hright⟩
    · exact iha step hleft
    · exact head_of_arranges hb
    · exact ihb step hright

theorem ranked_grow {l : List (String × Nat × Expression)} (hroot : Ranked root)
    (hsteps : ∀ step ∈ l, Ranked step.2.2 ∧ step.2.2.isBinary = false) : Ranked (grow root l) := by
  induction l generalizing root with
  | nil => exact hroot
  | cons step l ih =>
    obtain ⟨hranked, hbinary⟩ := hsteps step List.mem_cons_self
    exact ih (ranked_attach hroot hranked hbinary _ _) fun t ht => hsteps t (List.mem_cons_of_mem step ht)

/-- The tree of a stream is ranked. -/
theorem ranked_units (h : units stream = .ok e) (hflat : IsFlat stream) : Ranked e := by
  have harranges := arranges_units h hflat
  rw [← Except.ok.inj ((units_of_arranges harranges).symm.trans h)]
  exact ranked_grow (head_of_arranges harranges).1 (steps_of_arranges harranges)

/-- Every operator of a ranked tree binds at least as tightly as the one at its head. -/
theorem le_of_mem_steps {k : Nat} (h : Arranges e us) (hranked : Ranked e) (hhead : Heads (k ≤ ·) e) :
    ∀ step ∈ steps e, k ≤ Operator.precedence step.1 := by
  induction h generalizing k with
  | operand e he =>
    rw [steps_of_not_binary (isOperand_of_flat (.inl he) (not_operator he)).2]
    rintro step ⟨⟩
  | unary => rintro step ⟨⟩
  | binary p s a b us vs _ _ iha ihb =>
    obtain ⟨ha, hb, hleft, hright⟩ := hranked
    have hk : k ≤ Operator.precedence s := hhead
    intro step hstep
    rcases List.mem_append.1 hstep with hmem | _ | ⟨_, hmem⟩
    · exact iha hleft (heads_mono (fun n hn => Nat.le_trans hk hn) ha) step hmem
    · exact hk
    · exact ihb hright (heads_mono (fun n hn => Nat.le_trans hk (Nat.le_of_lt hn)) hb) step hmem

/-- Operators that bind tighter than the head of a tree go into its right side. -/
theorem grow_binary {l : List (String × Nat × Expression)}
    (hl : ∀ step ∈ l, Operator.precedence s < Operator.precedence step.1) :
    grow (.binary p s a b) l = .binary p s a (grow b l) := by
  induction l generalizing b with
  | nil => rfl
  | cons step l ih =>
    have hattach : attach (.binary p s a b) step.1 step.2.1 step.2.2 =
        .binary p s a (attach b step.1 step.2.1 step.2.2) := by
      rw [attach, if_pos (hl step List.mem_cons_self)]
    calc grow (.binary p s a b) (step :: l)
      _ = grow (.binary p s a (attach b step.1 step.2.1 step.2.2)) l := congrArg (grow · l) hattach
      _ = .binary p s a (grow b (step :: l)) := ih fun t ht => hl t (List.mem_cons_of_mem step ht)

/-- An operator goes above a tree that binds at least as tightly. -/
theorem attach_of_heads (h : Heads (Operator.precedence s ≤ ·) node) (p : Nat) (operand : Expression) :
    attach node s p operand = .binary p s node operand := by
  cases node with
  | binary q t a b => rw [attach, if_neg (Nat.not_lt.2 h)]
  | _ => rfl

/-- A ranked tree grows out of its first operand. -/
theorem grow_steps (h : Arranges e us) (hranked : Ranked e) : grow (head e) (steps e) = e := by
  induction h with
  | operand e he =>
    have hbinary : e.isBinary = false := (isOperand_of_flat (.inl he) (not_operator he)).2
    rw [head_of_not_binary hbinary, steps_of_not_binary hbinary]
    rfl
  | unary => rfl
  | binary p s a b us vs _ hb iha ihb =>
    obtain ⟨hleft, hright, hrankedA, hrankedB⟩ := hranked
    have htighter : ∀ step ∈ steps b, Operator.precedence s < Operator.precedence step.1 :=
      le_of_mem_steps hb hrankedB hright
    calc grow (head a) (steps a ++ (s, p, head b) :: steps b)
      _ = grow (attach a s p (head b)) (steps b) := by rw [grow_append, iha hrankedA]; rfl
      _ = grow (.binary p s a (head b)) (steps b) := by rw [attach_of_heads hleft]
      _ = .binary p s a b := by rw [grow_binary htighter, ihb hrankedB]

/-- A stream makes a tree exactly when signed operands and operators take turns in it. Its tree is the one ranked
tree that has the units of the stream in their order, with every sign before a single operand. -/
theorem units_eq_ok_iff (hflat : IsFlat stream) :
    ((∃ e, units stream = .ok e) ↔ IsChain stream) ∧
      ∀ e, units stream = .ok e ↔ Arranges e stream ∧ Ranked e := by
  refine ⟨⟨?_, ?_⟩, fun e => ⟨fun h => ⟨arranges_units h hflat, ranked_units h hflat⟩, ?_⟩⟩
  · rintro ⟨e, h⟩
    exact isChain_of_arranges (arranges_units h hflat)
  · intro h
    obtain ⟨e, harranges⟩ := arranges_of_isChain h
    exact ⟨_, units_of_arranges harranges⟩
  · rintro ⟨harranges, hranked⟩
    rw [units_of_arranges harranges, grow_steps harranges hranked]

/-- The units of `a*-b^c+d` make one tree: the sign stays with `b`, the power is below the product and the product
below the sum. -/
theorem units_product_power_sum :
    units [.identifier 0 "a", .operator 1 "*", .operator 2 "-", .identifier 3 "b", .operator 4 "^",
      .identifier 5 "c", .operator 6 "+", .identifier 7 "d"] =
        .ok (.binary 6 "+"
          (.binary 1 "*" (.identifier 0 "a")
            (.binary 4 "^" (.unary 2 "-" (.identifier 3 "b")) (.identifier 5 "c")))
          (.identifier 7 "d")) := by
  have hflat : IsFlat [.identifier 0 "a", .operator 1 "*", .operator 2 "-", .identifier 3 "b", .operator 4 "^",
      .identifier 5 "c", .operator 6 "+", .identifier 7 "d"] := by
    simp [IsFlat, Expression.isOperand, Expression.isAnyOperator]
  refine ((units_eq_ok_iff hflat).2 _).2 ⟨?_, ?_⟩
  · have hpower : Arranges (.binary 4 "^" (.unary 2 "-" (.identifier 3 "b")) (.identifier 5 "c")) _ :=
      .binary 4 "^" _ _ _ _ (.unary 2 "-" _ _ rfl rfl (.operand (.identifier 3 "b") rfl))
        (.operand (.identifier 5 "c") rfl)
    exact .binary 6 "+" _ _ _ _ (.binary 1 "*" _ _ _ _ (.operand (.identifier 0 "a") rfl) hpower)
      (.operand (.identifier 7 "d") rfl)
  · simp only [Ranked, Heads, and_true, true_and]
    decide

end Spreadsheet.Formula.Arrange
