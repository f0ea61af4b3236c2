import Mathlib.Data.List.Forall2
import Spreadsheet.Expression.Structure

/-!
Expressions moved to another place. Every relative finite axis is shifted; the rest stays. What is read of the text of
a moved expression follows it unit by unit, with other positions and labels and with numbers that have been read again;
a sign and its operand may become one unit.
-/

namespace Spreadsheet

/-- The reference moved by the given offset; one that would leave the sheet stays. -/
def Reference.moved (rows columns : Int) (a : Reference) : Reference :=
  (a.shift? rows columns).getD a

/-- The mention with its target moved. -/
def Mention.moved (rows columns : Int) (m : Mention) : Mention :=
  { m with target := m.target.moved rows columns }

/-- The range with both corners moved. -/
def RangeMention.moved (rows columns : Int) (r : RangeMention) : RangeMention :=
  { r with first := r.first.moved rows columns, last := r.last.moved rows columns }

namespace Expression

mutual

/-- The expression with all its mentions moved. -/
def moved (rows columns : Int) : Expression → Expression
  | .cell m => .cell (m.moved rows columns)
  | .range p r => .range p (r.moved rows columns)
  | .unary p s a => .unary p s (moved rows columns a)
  | .binary p s a b => .binary p s (moved rows columns a) (moved rows columns b)
  | .call p f as => .call p f (movedAll rows columns as)
  | .group p as x => .group p (movedAll rows columns as) x
  | e => e

/-- The expressions with all their mentions moved. -/
def movedAll (rows columns : Int) : List Expression → List Expression
  | [] => []
  | e :: es => moved rows columns e :: movedAll rows columns es

end

/-- Whether the unit is no operator and has no operands. -/
def isOperand : Expression → Bool
  | .operator _ _ | .unary _ _ _ | .binary _ _ _ _ => false
  | _ => true

/-- Whether the unit is an operator between two operands. -/
def isBinary : Expression → Bool
  | .binary _ _ _ _ => true
  | _ => false

end Expression

/-- How expressions are moved and what may become of them when they are written and read again. -/
structure Rereading where
  /-- Rows by which expressions move down. -/
  rows : Int
  /-- Columns by which expressions move right. -/
  columns : Int
  /-- When a number may be read in the place of one that is written by its value. -/
  number : Float → Float → Prop
  /-- When a unit may be read in the place of a sign and an operand. -/
  signed : String → Expression → Expression → Prop

namespace Rereading

/-- A member of an array that may be read in the place of another one. -/
inductive Member (t : Rereading) : Value → Value → Prop
  | undefined : Member t .undefined .undefined
  | text (s : String) : Member t (.text s) (.text s)
  | boolean (b : Bool) : Member t (.boolean b) (.boolean b)
  | number (y x : Float) : t.number y x → Member t (.number y) (.number x)

/-- Numbers only have to be equal, and signs stay what they are. -/
def ofOffset (rows columns : Int) : Rereading where
  rows
  columns
  number y x := (y == x) = true
  signed _ _ _ := False

end Rereading

namespace Expression

mutual

/-- The second expression may be read in the place of the first one once that is moved and written. -/
inductive MovesTo (t : Rereading) : Expression → Expression → Prop
  | literal (p q : Nat) (v : Value) (spelling : Option String) : (v == v) = true →
      MovesTo t (.literal p v spelling) (.literal q v spelling)
  | complex (p q : Nat) (z w : Complex) (spelling spelling' : Option String) : t.number w.real z.real →
      t.number w.imaginary z.imaginary → MovesTo t (.complex p z spelling) (.complex q w spelling')
  | cell (m n : Mention) : n.target = m.target.moved t.rows t.columns → MovesTo t (.cell m) (.cell n)
  | range (p q : Nat) (r r' : RangeMention) : r'.first.target = r.first.target.moved t.rows t.columns →
      r'.last.target = r.last.target.moved t.rows t.columns → MovesTo t (.range p r) (.range q r')
  | identifier (p q : Nat) (name : String) : MovesTo t (.identifier p name) (.identifier q name)
  | operator (p q : Nat) (s : String) : MovesTo t (.operator p s) (.operator q s)
  | unary (p q : Nat) (s : String) (a a' : Expression) : MovesTo t a a' → MovesTo t (.unary p s a) (.unary q s a')
  | signed (p : Nat) (s : String) (a a' : Expression) : a'.isOperand = true → t.signed s a a' →
      MovesTo t (.unary p s a) a'
  | binary (p q : Nat) (s : String) (a b a' b' : Expression) : MovesTo t a a' → MovesTo t b b' →
      MovesTo t (.binary p s a b) (.binary q s a' b')
  | call (p q : Nat) (name : String) (as as' : List Expression) : AllMoveTo t as as' →
      MovesTo t (.call p name as) (.call q name as')
  | group (p q : Nat) (as as' : List Expression) (explicit : Bool) : AllMoveTo t as as' →
      MovesTo t (.group p as explicit) (.group q as' explicit)
  | array (p q : Nat) (members members' : List (List Value)) : List.Forall₂ (List.Forall₂ t.Member) members' members →
      MovesTo t (.array p members) (.array q members')
  | missing (p q : Nat) : MovesTo t (.missing p) (.missing q)

/-- The members of the second list may be read in the place of those of the first one. -/
inductive AllMoveTo (t : Rereading) : List Expression → List Expression → Prop
  | nil : AllMoveTo t [] []
  | cons (a a' : Expression) (as as' : List Expression) : MovesTo t a a' → AllMoveTo t as as' →
      AllMoveTo t (a :: as) (a' :: as')

end

variable {t : Rereading} {e e' a b a' b' : Expression} {p q : Nat} {s : String}

theorem movesTo_operator : MovesTo t (.operator p s) e' ↔ ∃ q, e' = .operator q s := by
  constructor
  · rintro ⟨⟩
    exact ⟨_, rfl⟩
  · rintro ⟨q, rfl⟩
    exact .operator p q s

/-- What is read in the place of an operator between operands is one too. -/
theorem MovesTo.exists_binary (h : MovesTo t (.binary p s a b) e') : ∃ q a' b', e' = .binary q s a' b' ∧
    MovesTo t a a' ∧ MovesTo t b b' := by
  cases h with
  | binary _ q _ _ _ a' b' ha hb => exact ⟨q, a', b', rfl, ha, hb⟩

theorem not_of_isOperand (h : e.isOperand = true) : e.isBinary = false ∧ e.isAnyOperator = false := by
  cases e <;> simp_all [isOperand, isBinary, isAnyOperator]

theorem MovesTo.isBinary_eq (h : MovesTo t e e') : e'.isBinary = e.isBinary := by
  cases h with
  | signed _ _ _ _ hoperand => exact (not_of_isOperand hoperand).1
  | _ => rfl

theorem MovesTo.isAnyOperator_eq (h : MovesTo t e e') : e'.isAnyOperator = e.isAnyOperator := by
  cases h with
  | signed _ _ _ _ hoperand => exact (not_of_isOperand hoperand).2
  | _ => rfl

/-! ### Sameness of structure -/

theorem equalColumn_of_forall₂ {rows columns : Int} {vs ws : List Value}
    (h : List.Forall₂ (Rereading.ofOffset rows columns).Member vs ws) : Value.equalColumn vs ws = true := by
  induction h with
  | nil => rfl
  | cons hv _ ih =>
    rw [Value.equalColumn, ih, Bool.and_true]
    cases hv with
    | undefined => rfl
    | text s => exact beq_self_eq_true s
    | boolean b => exact beq_self_eq_true b
    | number y x h => exact h

theorem equalColumns_of_forall₂ {rows columns : Int} {cs ds : List (List Value)}
    (h : List.Forall₂ (List.Forall₂ (Rereading.ofOffset rows columns).Member) cs ds) :
    Value.equalColumns cs ds = true := by
  induction h with
  | nil => rfl
  | cons hc _ ih => rw [Value.equalColumns, ih, equalColumn_of_forall₂ hc, Bool.and_true]

mutual

/-- What is read has the structure of what was moved and written. -/
theorem MovesTo.sameStructure {rows columns : Int} {e e' : Expression}
    (h : MovesTo (Rereading.ofOffset rows columns) e e') : e'.sameStructure (e.moved rows columns) = true :=
  match h with
  | .literal _ _ _ _ hv => hv
  | .complex _ _ _ _ _ _ hreal himaginary => Bool.and_eq_true_iff.2 ⟨hreal, himaginary⟩
  | .cell _ _ h => beq_iff_eq.2 h
  | .range _ _ _ _ hfirst hlast => Bool.and_eq_true_iff.2 ⟨beq_iff_eq.2 hfirst, beq_iff_eq.2 hlast⟩
  | .identifier _ _ name => beq_self_eq_true name
  | .operator _ _ s => beq_self_eq_true s
  | .unary _ _ s _ _ ha => Bool.and_eq_true_iff.2 ⟨beq_self_eq_true s, ha.sameStructure⟩
  | .binary _ _ s _ _ _ _ ha hb =>
    Bool.and_eq_true_iff.2 ⟨Bool.and_eq_true_iff.2 ⟨beq_self_eq_true s, ha.sameStructure⟩, hb.sameStructure⟩
  | .call _ _ name _ _ has => Bool.and_eq_true_iff.2 ⟨beq_self_eq_true (Text.upper name), has.sameStructures⟩
  | .group _ _ _ _ x has => Bool.and_eq_true_iff.2 ⟨beq_self_eq_true x, has.sameStructures⟩
  | .array _ _ _ _ h => equalColumns_of_forall₂ h
  | .missing _ _ => rfl

theorem AllMoveTo.sameStructures {rows columns : Int} {as as' : List Expression}
    (h : AllMoveTo (Rereading.ofOffset rows columns) as as') :
    Expression.sameStructures as' (movedAll rows columns as) = true :=
  match h with
  | .nil => rfl
  | .cons _ _ _ _ ha has => Bool.and_eq_true_iff.2 ⟨ha.sameStructure, has.sameStructures⟩

end

end Expression

end Spreadsheet
