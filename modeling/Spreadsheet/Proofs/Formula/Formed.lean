import Spreadsheet.Proofs.Formula.Arrange
import Spreadsheet.Proofs.Formula.Array
import Spreadsheet.Proofs.Formula.Invariant
import Spreadsheet.Proofs.Formula.Mention

/-!
What formulas without faults are made of. Streams of units that the reader has taken are closed into trees, whose
groups, calls and arrays are again made of such trees.
-/

namespace Spreadsheet.Formula

open Lexeme (IsNumber IsWord IsAtom Unsigned)
open Reader (IsArray Heaped IsMember)

/-- The corners of a range are both cells, both rows or both columns. -/
def IsRange (r : RangeMention) : Prop :=
  r.first.target.IsCell ∧ r.last.target.IsCell ∨ r.first.target.IsRow ∧ r.last.target.IsRow ∨
    r.first.target.IsColumn ∧ r.last.target.IsColumn

/-- A unit that makes nothing with its neighbours any more. -/
structure IsSettled (locale : Locale) (u : Expression) : Prop where
  imaginary : Fold.imaginaryPart? locale u = none
  colon : u.isOperator ":" = false

mutual

/-- A unit of a formula without faults. Where no operand stands before it a number may have a sign. -/
inductive IsUnit (locale : Locale) : Bool → Expression → Prop
  | text (first : Bool) (p : Nat) (s : String) : IsUnit locale first (.literal p (.text s) none)
  | boolean (first : Bool) (p : Nat) (b : Bool) : IsUnit locale first (.literal p (.boolean b) none)
  | number (first : Bool) (p : Nat) (us : List Nat) (x : Float) : IsNumber locale us x →
      (first = false → Unsigned us) → IsUnit locale first (.literal p (.number x) (some (Text.ofUnits us)))
  | imaginary (first : Bool) (p : Nat) (y : Float) (spelling : String) :
      IsUnit locale first (.imaginary p y spelling)
  | complex (first : Bool) (p : Nat) (z : Complex) (spelling : Option String) :
      (first = false → Number.sign? z.real = some .positive) → IsUnit locale first (.complex p z spelling)
  | cell (first : Bool) (m : Mention) : m.target.IsCell → IsUnit locale first (.cell m)
  | range (first : Bool) (p : Nat) (r : RangeMention) : IsRange r → IsUnit locale first (.range p r)
  | identifier (first : Bool) (p : Nat) (name : String) : IsWord name →
      (∀ q, Mention.ofCellWord? name.toList q = none) → IsUnit locale first (.identifier p name)
  | operator (first : Bool) (p : Nat) (s : String) : s ∈ Operator.longestFirst →
      IsUnit locale first (.operator p s)
  | call (first : Bool) (p : Nat) (name : String) (args : List Expression) : IsWord name →
      (∀ a ∈ args, IsArgument locale a) → IsUnit locale first (.call p name args)
  | group (first : Bool) (p : Nat) (e : Expression) : IsTree locale e → IsUnit locale first (.group p [e] true)
  | array (first : Bool) (p : Nat) (columns : List (List Value)) (height : Nat) : IsArray columns height →
      IsUnit locale first (.array p columns)

/-- The units of a stream in their order; before all but the first one something stands. -/
inductive IsStream (locale : Locale) : Bool → List Expression → Prop
  | nil (first : Bool) : IsStream locale first []
  | cons (first : Bool) (u : Expression) (us : List Expression) : IsUnit locale first u → IsStream locale false us →
      IsStream locale first (u :: us)

/-- The tree of a stream. -/
inductive IsTree (locale : Locale) : Expression → Prop
  | intro (stream : List Expression) (e : Expression) : IsStream locale true stream →
      (∀ u ∈ stream, IsSettled locale u) → Arrange.units stream = .ok e → IsTree locale e

/-- An argument of a call. -/
inductive IsArgument (locale : Locale) : Expression → Prop
  | missing (p : Nat) : IsArgument locale (.missing p)
  | tree (e : Expression) : IsTree locale e → IsArgument locale e

end

variable {locale : Locale} {source : List Nat} {first : Bool} {u e : Expression} {us : List Expression}
  {log : ReferenceLog} {r : Reader}

theorem isStream_cons : IsStream locale first (u :: us) ↔ IsUnit locale first u ∧ IsStream locale false us := by
  constructor
  · rintro (_ | ⟨_, _, _, hu, hus⟩)
    exact ⟨hu, hus⟩
  · exact fun h => .cons _ _ _ h.1 h.2

theorem isStream_append {vs : List Expression} : IsStream locale first (us ++ vs) ↔
    IsStream locale first us ∧ IsStream locale (first && us.isEmpty) vs := by
  induction us generalizing first with
  | nil => simpa using fun _ => IsStream.nil first
  | cons u us ih => simp [isStream_cons, ih, and_assoc]

/-! ### Units of one lexeme -/

theorem ofCellWord?_eq (cs : List Char) (p q : Nat) :
    Mention.ofCellWord? cs p = (Mention.ofCellWord? cs q).map fun m => { m with position := p } := by
  unfold Mention.ofCellWord?
  simp only
  split <;> rfl

/-- A lexeme that is read as one unit is one. -/
theorem Lexeme.IsAtom.isUnit (h : IsAtom locale first e) : IsUnit locale first e := by
  cases h with
  | text p s => exact .text _ p s
  | boolean p b => exact .boolean _ p b
  | number p us x hx hfirst => exact .number _ p us x hx hfirst
  | imaginary p y spelling => exact .imaginary _ p y spelling
  | word p name hname =>
    unfold Lexeme.wordAtom
    split
    · rename_i m hm
      exact .cell _ m (Mention.isCell_of_word hm)
    · rename_i hnone
      refine .identifier _ p name hname fun q => ?_
      rw [ofCellWord?_eq _ q p, hnone]
      rfl

/-! ### Units that are made of neighbours -/

theorem isAxis_of_leftCorner {a : Expression} {minus : Option Expression} {m : Mention}
    (h : Fold.leftCorner? a = some (minus, m)) :
    (m.target.IsRow ∨ m.target.IsColumn) ∧ ∀ u ∈ minus, ∃ p, u = .operator p "-" := by
  unfold Fold.leftCorner? at h
  split at h
  · rename_i hm
    obtain ⟨rfl, rfl⟩ := h
    exact ⟨Mention.isAxis_of_unit hm, by simp⟩
  · obtain ⟨⟨o, n⟩, hnegated, heq⟩ := Option.map_eq_some_iff.1 h
    obtain ⟨rfl, rfl⟩ := heq
    unfold Fold.negatedRow? at hnegated
    split at hnegated
    · split at hnegated
      · obtain ⟨k, hk, heq⟩ := Option.map_eq_some_iff.1 hnegated
        obtain ⟨rfl, rfl⟩ := Prod.mk.inj heq
        refine ⟨.inl (Mention.isRow_of_number hk), ?_⟩
        rintro _ ⟨⟩
        exact ⟨_, rfl⟩
      · cases hnegated
    · cases hnegated

theorem isRange_of_sameAxis {m n : Mention} (h : Fold.sameAxis m n = true) (hm : m.target.IsRow ∨ m.target.IsColumn)
    (hn : n.target.IsRow ∨ n.target.IsColumn) : IsRange (.between m n) := by
  simp only [Fold.sameAxis, Bool.or_eq_true, Bool.and_eq_true, Option.isNone_iff_eq_none] at h
  rcases hm with hm | hm
  · rcases hn with hn | hn
    · exact .inr (.inl ⟨hm, hn⟩)
    · obtain ⟨r, hr, -⟩ := hm
      obtain ⟨c, hc, -⟩ := hn
      simp [hr, hc] at h
  · rcases hn with hn | hn
    · obtain ⟨c, hc, -⟩ := hm
      obtain ⟨r, hr, -⟩ := hn
      simp [hr, hc] at h
    · exact .inr (.inr ⟨hm, hn⟩)

/-- Two units around a colon make a range of cells, of rows or of columns. -/
theorem isRange_of_fold {a b : Expression} {minus : Option Expression} {m : RangeMention} {log' : ReferenceLog}
    (ha : ∀ c, a = .cell c → c.target.IsCell) (hb : ∀ c, b = .cell c → c.target.IsCell)
    (h : Fold.range? log a b = some (minus, m, log')) :
    IsRange m ∧ ∀ u ∈ minus, ∃ p, u = .operator p "-" := by
  unfold Fold.range? at h
  split at h
  · rename_i c d
    obtain ⟨rfl, rfl, -⟩ := h
    exact ⟨.inl ⟨ha c rfl, hb d rfl⟩, by simp⟩
  · split at h
    · rename_i hleft hd
      split at h
      · rename_i haxis
        obtain ⟨rfl, rfl, -⟩ := h
        obtain ⟨hc, hminus⟩ := isAxis_of_leftCorner hleft
        exact ⟨isRange_of_sameAxis haxis hc (Mention.isAxis_of_unit hd), hminus⟩
      · cases h
    · cases h

theorem IsUnit.isCell {m : Mention} (h : IsUnit locale first (.cell m)) : m.target.IsCell := by
  cases h with
  | cell _ _ hm => exact hm

theorem IsStream.ranges (h : IsStream locale first us) (log : ReferenceLog) :
    IsStream locale first (Fold.ranges log us).1 := by
  fun_induction Fold.ranges log us generalizing first with
  | case1 log a p b rest minus m log' hrange units log'' hrest ih =>
    simp only [isStream_cons] at h
    obtain ⟨ha, -, hb, hus⟩ := h
    have htail := ih hus
    rw [hrest] at htail
    obtain ⟨hm, hminus⟩ := isRange_of_fold (fun c hc => (hc ▸ ha).isCell) (fun c hc => (hc ▸ hb).isCell) hrange
    cases minus with
    | none => exact .cons _ _ _ (.range _ _ m hm) htail
    | some u =>
      obtain ⟨q, rfl⟩ := hminus u rfl
      exact .cons _ _ _ (.operator _ q "-" (by simp [Operator.longestFirst])) (.cons _ _ _ (.range _ _ m hm) htail)
  | case2 log a p b rest _ units log' hrest ih =>
    obtain ⟨ha, hus⟩ := isStream_cons.1 h
    have htail := ih hus
    rw [hrest] at htail
    exact .cons _ _ _ ha htail
  | case3 log a rest _ units log' hrest ih =>
    obtain ⟨ha, hus⟩ := isStream_cons.1 h
    have htail := ih hus
    rw [hrest] at htail
    exact .cons _ _ _ ha htail
  | case4 => exact .nil _

theorem IsUnit.lone (h : IsUnit locale first u) (log : ReferenceLog) : IsUnit locale first (Fold.lone locale log u).1 ∧
    Fold.imaginaryPart? locale (Fold.lone locale log u).1 = none := by
  have hzero : Number.sign? 0 = some .positive := rfl
  unfold Fold.lone
  split
  · exact ⟨.complex _ _ _ _ fun _ => hzero, rfl⟩
  · split
    · exact ⟨.complex _ _ _ _ fun _ => hzero, rfl⟩
    · rename_i hname
      exact ⟨h, if_neg hname⟩
  · rename_i himaginary hidentifier
    refine ⟨h, ?_⟩
    cases u with
    | imaginary p y spelling => exact (himaginary _ _ _ rfl).elim
    | identifier p name => exact (hidentifier _ _ rfl).elim
    | _ => rfl

theorem IsStream.complexes (h : IsStream locale first us) (source : List Nat) (log : ReferenceLog) :
    IsStream locale first (Fold.complexes locale source log us).1 ∧
      ∀ u ∈ (Fold.complexes locale source log us).1, Fold.imaginaryPart? locale u = none := by
  fun_induction Fold.complexes locale source log us generalizing first with
  | case1 log p x spelling q s c rest y stop named _ z log' units log'' hrest =>
    rename_i ih
    simp only [isStream_cons] at h
    obtain ⟨hliteral, -, -, hus⟩ := h
    obtain ⟨htail, hsettled⟩ := ih hus
    rw [hrest] at htail hsettled
    have hsign (hfirst : first = false) : Number.sign? x = some .positive := by
      cases hliteral with
      | number _ _ us _ hx hunsigned => exact hx.sign?_eq (hunsigned hfirst)
    exact ⟨.cons _ _ _ (.complex _ p z _ hsign) htail, List.forall_mem_cons.2 ⟨rfl, hsettled⟩⟩
  | case2 log p x spelling q s c rest _ units log' hrest ih =>
    obtain ⟨hliteral, hus⟩ := isStream_cons.1 h
    obtain ⟨htail, hsettled⟩ := ih hus
    rw [hrest] at htail hsettled
    exact ⟨.cons _ _ _ hliteral htail, List.forall_mem_cons.2 ⟨rfl, hsettled⟩⟩
  | case3 log u rest _ e log' hlone units log'' hrest ih =>
    obtain ⟨hu, hus⟩ := isStream_cons.1 h
    obtain ⟨htail, hsettled⟩ := ih hus
    rw [hrest] at htail hsettled
    obtain ⟨he, himaginary⟩ := hu.lone log
    rw [hlone] at he himaginary
    exact ⟨.cons _ _ _ he htail, List.forall_mem_cons.2 ⟨himaginary, hsettled⟩⟩
  | case4 => exact ⟨.nil _, fun _ h => absurd h List.not_mem_nil⟩

/-! ### Readers without faults -/

/-- What is known of a place where a stream stands. -/
def Frame.Kind.Sound (locale : Locale) : Frame.Kind → Prop
  | .whole | .parentheses _ => True
  | .call _ name _ arguments index =>
    IsWord name ∧ arguments.length = index ∧ ∀ a ∈ arguments, IsArgument locale a
  | .array _ columns _ _ _ => Heaped columns

/-- The units of the frame are those of a formula without faults. -/
structure Frame.Sound (locale : Locale) (f : Frame) : Prop where
  stream : IsStream locale true f.stream.reverse
  kind : f.kind.Sound locale

namespace Reader

/-- Unless there has been a fault, all frames are sound. -/
def Sound (locale : Locale) (r : Reader) : Prop := r.error = none → ∀ f ∈ r.frames, f.Sound locale

end Reader

theorem Frame.Sound.put {openAt column row mark : Nat} {columns : List (List Value)} {stream : List Expression}
    (h : Frame.Sound locale ⟨.array openAt columns column row mark, stream⟩) {p : Nat} {v : Value}
    {spelling : Option String} (hv : IsUnit locale first (.literal p v spelling)) :
    Frame.Sound locale ⟨.array openAt (Reader.put columns column row v) column row mark, stream⟩ := by
  have hcolumns : Heaped columns := h.kind
  refine ⟨h.stream, ?_⟩
  cases hv with
  | text _ _ s => exact hcolumns.put (v := .text s) trivial rfl column row
  | boolean _ _ b => exact hcolumns.put (v := .boolean b) trivial rfl column row
  | number _ _ _ x => exact hcolumns.put (v := .number x) trivial rfl column row

theorem Frame.Sound.add {f : Frame} (h : f.Sound locale) (hu : IsUnit locale f.stream.isEmpty u) :
    Frame.Sound locale { f with stream := u :: f.stream } := by
  refine ⟨?_, h.kind⟩
  rw [List.reverse_cons, isStream_append]
  refine ⟨h.stream, isStream_cons.2 ⟨?_, .nil _⟩⟩
  rwa [Bool.true_and, List.isEmpty_reverse]

/-- The arguments of a call with the last one, which has just been read. -/
theorem Frame.Sound.arguments {p openAt index : Nat} {name : String} {arguments stream : List Expression}
    {last : Option Expression} (h : Frame.Sound locale ⟨.call p name openAt arguments index, stream⟩)
    (hlast : ∀ e ∈ last, IsTree locale e) : ∀ a ∈ last.toList ++ arguments, IsArgument locale a := by
  intro a ha
  rcases List.mem_append.1 ha with ha | ha
  · exact .tree a (hlast a (Option.mem_toList.1 ha))
  · exact h.kind.2.2 a ha

/-- The units of a stream that makes a tree are settled. -/
theorem isTree_of_tree (h : IsStream locale true us) (hsettled : ∀ u ∈ us, Fold.imaginaryPart? locale u = none)
    (htree : Arrange.tree us = .ok e) : IsTree locale e := by
  unfold Arrange.tree at htree
  split at htree
  · cases htree
  · rename_i hcolon
    refine .intro us e h (fun u hu => ⟨hsettled u hu, ?_⟩) htree
    simpa using List.find?_eq_none.1 hcolon u hu

theorem isAtom_of_read (hi : locale.imaginary = 'i' ∨ locale.imaginary = 'j') {p v n : Nat} {vs : List Nat}
    (hread : Lexeme.read locale first p v vs = (.atom e none, n)) : IsAtom locale first e := by
  rcases Lexeme.read_cases hi first p v vs with ⟨k, h⟩ | ⟨d, fault, k, h⟩ | ⟨d, k, hd, h⟩ | ⟨name, openAt, k, -, h⟩ |
    ⟨k, h⟩ | ⟨k, h⟩
  all_goals
    rw [h] at hread
    cases hread
  exact hd

theorem isWord_of_read (hi : locale.imaginary = 'i' ∨ locale.imaginary = 'j') {p v n openAt : Nat} {vs : List Nat}
    {name : String} (hread : Lexeme.read locale first p v vs = (.call name openAt, n)) : IsWord name := by
  rcases Lexeme.read_cases hi first p v vs with ⟨k, h⟩ | ⟨d, fault, k, h⟩ | ⟨d, k, -, h⟩ | ⟨word, place, k, hword, h⟩ |
    ⟨k, h⟩ | ⟨k, h⟩
  all_goals
    rw [h] at hread
    cases hread
  exact hword

/-- Frames hold units of formulas without faults. -/
def soundInvariant (hi : locale.imaginary = 'i' ∨ locale.imaginary = 'j') : Reader.Invariant locale where
  frame := Frame.Sound locale
  unit := IsUnit locale
  tree := IsTree locale
  whole := ⟨.nil _, trivial⟩
  parentheses _ := ⟨.nil _, trivial⟩
  called hread := ⟨.nil _, isWord_of_read hi hread, rfl, fun _ ha => absurd ha List.not_mem_nil⟩
  array _ _ := ⟨.nil _, Reader.heaped_nil⟩
  atom hread := (isAtom_of_read hi hread).isUnit
  operator first p s hs := .operator first p s hs
  add h hu := h.add hu
  put h hv := h.put hv
  move _ _ _ _ h := ⟨h.stream, h.kind⟩
  closed {_ source log _} h htree := by
    obtain ⟨hstream, hsettled⟩ := (h.stream.ranges log).complexes source _
    exact isTree_of_tree hstream hsettled htree
  group first p e he := .group first p e he
  argument i _ arguments _ last h hlast := by
    obtain ⟨hname, hindex, -⟩ := h.kind
    refine ⟨.nil _, hname, ?_, fun a ha => ?_⟩
    · have hshort : last.toList.length ≤ 1 := by cases last <;> simp
      simp only [List.length_append, List.length_replicate]
      omega
    · rcases List.mem_append.1 ha with ha | ha
      · rw [List.eq_of_mem_replicate ha]
        exact .missing i
      · exact h.arguments hlast a ha
  call first p _ _ name _ _ _ h hlast :=
    .call first p name _ h.kind.1 fun a ha => h.arguments hlast a (List.mem_reverse.1 ha)
  columns first openAt _ _ _ _ _ h := .array first openAt _ _ (Heaped.isArray h.kind)

/-- While a formula is read its frames are sound. -/
theorem Reader.sound_takeAll (hi : locale.imaginary = 'i' ∨ locale.imaginary = 'j') (source us : List Nat) :
    (takeAll locale source {} 0 us).Sound locale :=
  (soundInvariant hi).keeps_takeAll (soundInvariant hi).keeps_start source 0 us

/-- A formula without faults is read as a tree. -/
theorem isTree_of_parse (hi : locale.imaginary = 'i' ∨ locale.imaginary = 'j') {text : String}
    (herror : (parse locale text).error = none) (he : (parse locale text).expression = some e) : IsTree locale e :=
  (soundInvariant hi).tree_closeStream ((soundInvariant hi).keeps_closeAll (Reader.sound_takeAll hi _ _) _ _) herror e he

end Spreadsheet.Formula
