import Spreadsheet.Formula.Arrange
import Spreadsheet.Proofs.Expression.Moved

/-!
Trees and their streams. A tree has the units of its stream in their order, and the trees of two streams whose
units follow each other follow each other.
-/

namespace Spreadsheet.Formula.Arrange

open Expression (MovesTo movesTo_operator)

variable {t : Rereading} {e root node operand : Expression} {us vs stream rest : List Expression}
  {signs : List (String × Nat)} {symbol : String} {p : Nat}

/-! ### Trees over streams -/

/-- The tree has the operands and operators of the stream in their order. Signs stand before one operand. -/
inductive Arranges : Expression → List Expression → Prop
  | operand (e : Expression) : e.isOperand = true → Arranges e [e]
  | unary (p : Nat) (s : String) (a : Expression) (us : List Expression) : Operator.isSign s = true →
      a.isBinary = false → Arranges a us → Arranges (.unary p s a) (.operator p s :: us)
  | binary (p : Nat) (s : String) (a b : Expression) (us vs : List Expression) : Arranges a us → Arranges b vs →
      Arranges (.binary p s a b) (us ++ .operator p s :: vs)

/-- The units of a stream: operators and operands. -/
def IsFlat (us : List Expression) : Prop := ∀ e ∈ us, e.isOperand = true ∨ e.isAnyOperator = true

theorem attach_of_not_binary (h : node.isBinary = false) (symbol : String) (p : Nat) (operand : Expression) :
    attach node symbol p operand = .binary p symbol node operand := by
  unfold attach
  split
  · cases h
  · rfl

theorem arranges_attach (hnode : Arranges node us) (hoperand : Arranges operand vs) (symbol : String) (p : Nat) :
    Arranges (attach node symbol p operand) (us ++ .operator p symbol :: vs) := by
  induction hnode with
  | operand e he =>
    have hbinary : e.isBinary = false := by cases e <;> simp_all [Expression.isOperand, Expression.isBinary]
    rw [attach_of_not_binary hbinary]
    exact .binary _ _ _ _ _ _ (.operand e he) hoperand
  | unary q s a us hs ha h ih =>
    rw [attach_of_not_binary rfl]
    exact .binary _ _ _ _ _ _ (.unary q s a us hs ha h) hoperand
  | binary q s a b us vs' ha hb iha ihb =>
    rw [attach]
    split
    · rw [List.append_assoc, List.cons_append]
      exact .binary _ _ _ _ _ _ ha ihb
    · exact .binary _ _ _ _ _ _ (.binary q s a b us vs' ha hb) hoperand

theorem isBinary_applySigns (he : e.isBinary = false) (signs : List (String × Nat)) :
    (applySigns signs e).isBinary = false := by
  cases signs with
  | nil => exact he
  | cons sign signs => rfl

/-- Signs as units of a stream. -/
def signUnits (signs : List (String × Nat)) : List Expression := signs.map fun (s, p) => .operator p s

theorem arranges_applySigns (h : Arranges e us) (he : e.isBinary = false)
    (hsigns : ∀ sign ∈ signs, Operator.isSign sign.1 = true) :
    Arranges (applySigns signs e) (signUnits signs ++ us) := by
  induction signs with
  | nil => exact h
  | cons sign signs ih =>
    exact .unary _ _ _ _ (hsigns sign List.mem_cons_self) (isBinary_applySigns he signs)
      (ih fun s hs => hsigns s (List.mem_cons_of_mem sign hs))

theorem isOperand_of_flat (h : e.isOperand = true ∨ e.isAnyOperator = true)
    (hoperator : ∀ p symbol, e = .operator p symbol → False) : e.isOperand = true ∧ e.isBinary = false := by
  cases e <;> simp_all [Expression.isOperand, Expression.isAnyOperator, Expression.isBinary]

theorem signUnits_reverse_cons (sign : String × Nat) (signs : List (String × Nat)) (us : List Expression) :
    signUnits (sign :: signs).reverse ++ us = signUnits signs.reverse ++ .operator sign.2 sign.1 :: us := by
  simp [signUnits]

/-- What is taken off a stream is an operand under its signs. -/
theorem arranges_takeOperand (h : takeOperand signs stream = .ok (e, rest)) (hflat : IsFlat stream)
    (hsigns : ∀ sign ∈ signs, Operator.isSign sign.1 = true) :
    ∃ us, Arranges e (signUnits signs.reverse ++ us) ∧ stream = us ++ rest := by
  fun_induction takeOperand signs stream with
  | case1 => cases h
  | case2 signs p symbol rest' hsign ih =>
    obtain ⟨us, hus, hstream⟩ := ih h (fun u hu => hflat u (List.mem_cons_of_mem _ hu)) (by
      rintro sign (_ | ⟨_, hmem⟩)
      · exact hsign
      · exact hsigns sign hmem)
    rw [signUnits_reverse_cons] at hus
    exact ⟨_, hus, by rw [hstream]; rfl⟩
  | case3 => cases h
  | case4 signs u rest' hu =>
    obtain ⟨rfl, rfl⟩ := Prod.mk.inj (Except.ok.inj h)
    obtain ⟨hoperand, hbinary⟩ := isOperand_of_flat (hflat u List.mem_cons_self) hu
    exact ⟨[u], arranges_applySigns (.operand u hoperand) hbinary fun s hs => hsigns s (List.mem_reverse.1 hs), rfl⟩

/-- The units that wait for an operand. -/
def pendingUnits : Option (String × Nat × List (String × Nat)) → List Expression
  | none => []
  | some (symbol, p, signs) => .operator p symbol :: signUnits signs.reverse

theorem arranges_build (pending : Option (String × Nat × List (String × Nat)))
    (h : build root pending stream = .ok e) (hflat : IsFlat stream) (hroot : Arranges root us)
    (hpending : ∀ s p signs, pending = some (s, p, signs) → ∀ sign ∈ signs, Operator.isSign sign.1 = true) :
    Arranges e (us ++ (pendingUnits pending ++ stream)) := by
  fun_induction build root pending stream generalizing us with
  | case1 root =>
    obtain rfl := Except.ok.inj h
    simpa [pendingUnits] using hroot
  | case2 => cases h
  | case3 root rest p symbol ih =>
    have htree := ih h (fun u hu => hflat u (List.mem_cons_of_mem _ hu)) hroot (by
      rintro _ _ _ ⟨⟩ sign hsign
      cases hsign)
    simpa [pendingUnits, signUnits] using htree
  | case4 => cases h
  | case5 root rest symbol p signs q s hsign ih =>
    have htree := ih h (fun u hu => hflat u (List.mem_cons_of_mem _ hu)) hroot (by
      rintro _ _ _ ⟨⟩ sign (_ | ⟨_, hmem⟩)
      · exact hsign
      · exact hpending _ _ _ rfl sign hmem)
    simp only [pendingUnits, List.cons_append, signUnits_reverse_cons] at htree
    simpa [pendingUnits] using htree
  | case6 => cases h
  | case7 root rest symbol p signs u hu ih =>
    obtain ⟨hoperand, hbinary⟩ := isOperand_of_flat (hflat u List.mem_cons_self) hu
    have hsigns : ∀ sign ∈ signs.reverse, Operator.isSign sign.1 = true :=
      fun s hs => hpending _ _ _ rfl s (List.mem_reverse.1 hs)
    have hsigned := arranges_applySigns (.operand u hoperand) hbinary hsigns
    have htree := ih h (fun u hu => hflat u (List.mem_cons_of_mem _ hu)) (arranges_attach hroot hsigned symbol p)
      (by rintro _ _ _ ⟨⟩)
    simpa [pendingUnits] using htree

/-- The tree of a stream has the units of the stream. -/
theorem arranges_units (h : units stream = .ok e) (hflat : IsFlat stream) : Arranges e stream := by
  unfold units at h
  cases hfirst : takeOperand [] stream with
  | error err =>
    rw [hfirst] at h
    cases h
  | ok first =>
    obtain ⟨root, rest⟩ := first
    rw [hfirst] at h
    obtain ⟨us, hus, rfl⟩ := arranges_takeOperand hfirst hflat (by rintro sign ⟨⟩)
    have htree := arranges_build none h (fun u hu => hflat u (List.mem_append_right us hu)) hus
      (by rintro _ _ _ ⟨⟩)
    simpa [pendingUnits, signUnits] using htree

/-! ### Streams that follow each other -/

variable {e' root' node' operand' : Expression} {stream' rest' : List Expression}
  {signs' : List (String × Nat)} {q : Nat}

theorem movesTo_attach (hnode : MovesTo t node node') (hoperand : MovesTo t operand operand')
    (symbol : String) (p q : Nat) :
    MovesTo t (attach node symbol p operand) (attach node' symbol q operand') := by
  fun_induction attach node symbol p operand generalizing node' with
  | case1 k s a b hlt ih =>
    obtain ⟨k', a', b', rfl, ha, hb⟩ := hnode.exists_binary
    rw [attach, if_pos hlt]
    exact .binary _ _ _ _ _ _ _ ha (ih hb)
  | case2 k s a b hle =>
    obtain ⟨k', a', b', rfl, ha, hb⟩ := hnode.exists_binary
    rw [attach, if_neg hle]
    exact .binary _ _ _ _ _ _ _ (.binary _ _ _ _ _ _ _ ha hb) hoperand
  | case3 node hnot =>
    have hbinary : node.isBinary = false := by
      cases node with
      | binary k s a b => exact absurd rfl (hnot k s a b)
      | _ => rfl
    rw [attach_of_not_binary (hnode.isBinary_eq.trans hbinary)]
    exact .binary _ _ _ _ _ _ _ hnode hoperand

theorem movesTo_applySigns (h : MovesTo t e e') (hsigns : signs.map Prod.fst = signs'.map Prod.fst) :
    MovesTo t (applySigns signs e) (applySigns signs' e') := by
  induction signs generalizing signs' with
  | nil =>
    obtain rfl : signs' = [] := by simpa using hsigns.symm
    exact h
  | cons sign signs ih =>
    cases signs' with
    | nil => cases hsigns
    | cons sign' signs' =>
      obtain ⟨hsign, hsigns⟩ := List.cons.inj hsigns
      rw [applySigns, applySigns, hsign]
      exact .unary _ _ _ _ _ (ih hsigns)

theorem map_reverse (h : signs.map Prod.fst = signs'.map Prod.fst) :
    signs.reverse.map Prod.fst = signs'.reverse.map Prod.fst := by
  rw [List.map_reverse, h, List.map_reverse]

/-- What follows no operator is no operator. -/
theorem ne_operator (h : MovesTo t e e') (he : ∀ p symbol, e = .operator p symbol → False) (p : Nat)
    (symbol : String) (he' : e' = .operator p symbol) : False := by
  have hoperator := h.isAnyOperator_eq
  subst he'
  cases e <;> simp_all [Expression.isAnyOperator]

theorem movesTo_takeOperand (signs' : List (String × Nat)) (h : takeOperand signs stream = .ok (e, rest))
    (hstream : List.Forall₂ (MovesTo t) stream stream')
    (hsigns : signs.map Prod.fst = signs'.map Prod.fst) :
    ∃ e' rest', takeOperand signs' stream' = .ok (e', rest') ∧ MovesTo t e e' ∧
      List.Forall₂ (MovesTo t) rest rest' := by
  fun_induction takeOperand signs stream generalizing signs' stream' with
  | case1 => cases h
  | case2 signs p symbol rest₀ hsign ih =>
    obtain ⟨u', us', hu, hus, rfl⟩ := List.forall₂_cons_left_iff.1 hstream
    obtain ⟨q, rfl⟩ := movesTo_operator.1 hu
    rw [takeOperand, if_pos hsign]
    exact ih _ h hus (by simp [hsigns])
  | case3 => cases h
  | case4 signs u rest₀ hu' =>
    obtain ⟨u', us', hu, hus, rfl⟩ := List.forall₂_cons_left_iff.1 hstream
    obtain ⟨rfl, rfl⟩ := Prod.mk.inj (Except.ok.inj h)
    refine ⟨_, us', ?_, movesTo_applySigns hu (map_reverse hsigns), hus⟩
    rw [takeOperand]
    exact ne_operator hu hu'

/-- An operator and its signs that wait for an operand, with the same symbols in both readings. -/
inductive SamePending : Option (String × Nat × List (String × Nat)) → Option (String × Nat × List (String × Nat)) → Prop
  | none : SamePending none none
  | some (s : String) (p q : Nat) (signs signs' : List (String × Nat)) : signs.map Prod.fst = signs'.map Prod.fst →
      SamePending (some (s, p, signs)) (some (s, q, signs'))

theorem movesTo_build {pending pending' : Option (String × Nat × List (String × Nat))}
    (h : build root pending stream = .ok e) (hroot : MovesTo t root root')
    (hstream : List.Forall₂ (MovesTo t) stream stream') (hpending : SamePending pending pending') :
    ∃ e', build root' pending' stream' = .ok e' ∧ MovesTo t e e' := by
  fun_induction build root pending stream generalizing root' pending' stream' with
  | case1 root =>
    obtain rfl := Except.ok.inj h
    obtain rfl := List.forall₂_nil_left_iff.1 hstream
    cases hpending
    exact ⟨root', rfl, hroot⟩
  | case2 => cases h
  | case3 root rest p symbol ih =>
    obtain ⟨u', us', hu, hus, rfl⟩ := List.forall₂_cons_left_iff.1 hstream
    obtain ⟨q, rfl⟩ := movesTo_operator.1 hu
    cases hpending
    rw [build]
    exact ih h hroot hus (.some symbol p q [] [] rfl)
  | case4 => cases h
  | case5 root rest symbol p signs q s hsign ih =>
    obtain ⟨u', us', hu, hus, rfl⟩ := List.forall₂_cons_left_iff.1 hstream
    obtain ⟨k, rfl⟩ := movesTo_operator.1 hu
    cases hpending with
    | some _ _ p' _ signs' hsigns =>
      rw [build, if_pos hsign]
      exact ih h hroot hus (.some symbol p p' _ _ (by simp [hsigns]))
  | case6 => cases h
  | case7 root rest symbol p signs u hu' ih =>
    obtain ⟨u', us', hu, hus, rfl⟩ := List.forall₂_cons_left_iff.1 hstream
    cases hpending with
    | some _ _ p' _ signs' hsigns =>
      rw [build]
      · exact ih h (movesTo_attach hroot (movesTo_applySigns hu (map_reverse hsigns)) symbol p p') hus .none
      · exact ne_operator hu hu'

/-- The trees of streams that follow each other follow each other. -/
theorem movesTo_units (h : units stream = .ok e) (hstream : List.Forall₂ (MovesTo t) stream stream') :
    ∃ e', units stream' = .ok e' ∧ MovesTo t e e' := by
  unfold units at h ⊢
  cases hfirst : takeOperand [] stream with
  | error err =>
    rw [hfirst] at h
    cases h
  | ok first =>
    obtain ⟨root, rest⟩ := first
    rw [hfirst] at h
    obtain ⟨root', rest', hfirst', hroot, hrest⟩ := movesTo_takeOperand [] hfirst hstream rfl
    rw [hfirst']
    exact movesTo_build h hroot hrest .none

end Spreadsheet.Formula.Arrange
