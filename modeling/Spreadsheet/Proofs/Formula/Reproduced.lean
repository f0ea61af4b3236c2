import Spreadsheet.Proofs.Formula.Aligned

/-!
Expressions that their texts give back. If the text of an expression is read as an expression of the same structure,
nothing in it keeps it from being read: no argument is missing at the end of a call, no sign is taken by a number, and
all sheets and numbers are read again.
-/

namespace Spreadsheet.Formula

open Expression (Legible KeepsSign)
open Rereading (inPlace)
open Reader (written)
open Lexeme (Stops IsNumber IsWord startsNumber Unsigned)
open Arrange (Arranges)

variable {locale : Locale} {first : Bool} {us rest out : List Nat} {u v w a b e e' : Expression} {s : String}
  {vs ws stream : List Expression} {p : Nat}

/-! ### Signs -/

theorem startsNumber_of_isNumber {x : Float} (h : IsNumber locale us x) (hus : Unsigned us) (rest : List Nat) :
    startsNumber locale (us ++ rest) = true := by
  obtain ⟨n, ns, hns, hne, ⟨rfl, -⟩ | ⟨rfl, -⟩⟩ := h
  · exact Lexeme.startsNumber_writes hns hne hus rest
  · rw [List.append_assoc]
    exact Lexeme.startsNumber_writes hns hne hus.of_append _

/-- The text of a unit that takes a sign starts like a number. -/
theorem startsNumber_of_absorbs (hi : locale.imaginary = 'i' ∨ locale.imaginary = 'j') (h : IsUnit locale false u)
    (hgood : Legible inPlace u) (habsorbs : inPlace.Absorbs s u a) (rest : List Nat) :
    startsNumber locale (written inPlace locale u ++ rest) = true := by
  have hself := Expression.mem_units u
  cases habsorbs with
  | number q _ _ x spelling =>
    cases h with
    | number _ _ us _ hx hunsigned =>
      rw [Reader.written_number q hx]
      exact startsNumber_of_isNumber hx (hunsigned rfl) rest
  | complex q _ _ z _ spelling _ =>
    cases h with
    | complex _ _ _ _ hpositive =>
      have hreal : z.real ∈ (Expression.complex q z spelling).printed := List.mem_cons_self
      have himaginary : z.imaginary ∈ (Expression.complex q z spelling).printed :=
        List.mem_cons_of_mem _ List.mem_cons_self
      obtain ⟨n, m, ns, ms, k, _, hwritten, ⟨hns, hne, -, hunsigned⟩, -⟩ := Reader.written_complex hi q spelling
        (hgood.digits _ hself _ hreal) (hgood.finite _ hself _ hreal) (hgood.digits _ hself _ himaginary)
        (hgood.finite _ hself _ himaginary)
      rw [hwritten, List.append_assoc]
      exact Lexeme.startsNumber_writes hns hne (hunsigned (Number.not_lt_of_positive (hpositive rfl))) _
  | rows q _ r _ hbare =>
    cases h with
    | range _ _ _ hr =>
      obtain ⟨hfirst, hlast⟩ := hr.corners
      obtain ⟨_, -, -, -, hnumber, hdigits, hne⟩ := Mention.isNumber_bareRow locale hbare
      rw [Reader.written_range q (shift?_inPlace hfirst) (shift?_inPlace hlast), List.append_assoc]
      refine startsNumber_of_isNumber hnumber ?_ _
      simpa using Lexeme.unsigned_of_digits hdigits hne []

/-- A row of which a minus was taken off stands by itself. -/
theorem isBareRow_of_negated {n : RangeMention} {minus : Expression} {log log' : ReferenceLog}
    (h : Fold.range? log a b = some (some minus, n, log')) :
    Mention.IsBareRow n.first.target ∧ Mention.ofUnit? b = some n.last := by
  unfold Fold.range? at h
  split at h
  · cases h
  · split at h
    · rename_i hleft hright
      split at h
      · obtain ⟨rfl, rfl, -⟩ := h
        refine ⟨?_, hright⟩
        unfold Fold.leftCorner? at hleft
        split at hleft
        · cases hleft
        · obtain ⟨⟨_, m⟩, hnegated, heq⟩ := Option.map_eq_some_iff.1 hleft
          obtain ⟨rfl, rfl⟩ := heq
          unfold Fold.negatedRow? at hnegated
          split at hnegated
          · split at hnegated
            · obtain ⟨k, hk, heq⟩ := Option.map_eq_some_iff.1 hnegated
              obtain ⟨rfl, rfl⟩ := Prod.mk.inj heq
              refine ⟨Mention.isRow_of_number hk, sheet_of_rowNumber hk, ?_⟩
              unfold Mention.ofRowNumber? at hk
              simp only at hk
              split at hk
              · exact Option.some.inj hk ▸ rfl
              · cases hk
            · cases hnegated
          · cases hnegated
      · cases h
    · cases h

/-- A sign at the front of a stream is delivered with the number after it. -/
theorem Delivers.of_signedNumber {n : Nat} (hn : n = 45 ∨ n = 43) (hstarts : startsNumber locale us = true)
    (h : Delivers locale true (n :: us) (v :: vs) out) : v.isAnyOperator = false := by
  have hread (q : Nat) : Lexeme.read locale true q n us =
      (.atom (Lexeme.number locale q (n :: us)).1 none, (Lexeme.number locale q (n :: us)).2 - 1) := by
    unfold Lexeme.read
    rcases hn with rfl | rfl <;> simp [isSpaceUnit, unitOf, hstarts]
  generalize hall : v :: vs = all at h
  cases h with
  | nil => cases hall
  | space _ q _ _ _ _ _ h => cases (hread q).symm.trans h
  | atom _ q _ _ _ e _ _ h =>
    obtain ⟨rfl, -⟩ := List.cons.inj hall
    obtain ⟨hlexeme, -⟩ := Prod.mk.inj ((hread q).symm.trans h)
    obtain ⟨rfl, -⟩ := Lexeme.atom.inj hlexeme
    rcases number_kind locale q (n :: us) with ⟨_, _, _, h⟩ | ⟨_, _, _, h⟩ <;> rw [h] <;> rfl
  | operator _ q _ _ _ _ _ _ _ h => cases (hread q).symm.trans h
  | group | blank => simp at hn
  | call _ q _ _ _ _ _ _ _ _ _ h => cases (hread q).symm.trans h
  | array _ q _ _ _ _ _ _ _ h => cases (hread q).symm.trans h

/-- Where a sign is delivered with the number after it and yet stays an operator, the number was that of a row. -/
theorem aligns_negatedRows (hi : locale.imaginary = 'i' ∨ locale.imaginary = 'j') {q : Nat} {r : RangeMention}
    (hr : IsRange r) (hs : Operator.isSign s = true) (hrest : Stops rest) {n : RangeMention} {k k' j : Nat}
    {log log' : ReferenceLog} (hrange : Fold.range? log v b = some (some (.operator k s), n, log'))
    (hsame : (Expression.range k' n).sameStructure (.range q r) = true)
    (h : Delivers locale true (written inPlace locale (.unary p s (.range q r)) ++ rest)
      (v :: .operator j ":" :: b :: vs) out) :
    Legible inPlace (.unary p s (.range q r)) ∧ (Expression.unary p s (.range q r)).KeepsSign inPlace ∧
      Delivers locale false rest vs out := by
  obtain ⟨htarget, htarget'⟩ := same_range hsame
  obtain ⟨hfirst, hlast⟩ := hr.corners
  obtain ⟨hbare, hn⟩ := isBareRow_of_negated hrange
  rw [htarget] at hbare
  have hminus : s = "-" := by
    obtain ⟨_, heq⟩ := minus_of_range hrange
    exact (Expression.operator.inj heq).2
  have hnot (a : Expression) : ¬inPlace.Absorbs s (.range q r) a := by
    intro habsorbs
    cases habsorbs with
    | rows => exact absurd hminus (by decide)
  subst hminus
  have hminus : Text.units "-" = [45] := by decide
  obtain ⟨_, -, -, -, hnumber, hdigits, hne⟩ := Mention.isNumber_bareRow locale hbare
  have hunsigned : Unsigned (Text.units r.first.target.spelling) := by
    simpa using Lexeme.unsigned_of_digits hdigits hne []
  have hsigned : Reader.ReadsAs locale true (45 :: Text.units r.first.target.spelling) _ :=
    Reader.reads_number hi (hnumber.signed hunsigned hs hminus) (by simp)
  rw [Reader.written_unary p hminus, Reader.written_range q (shift?_inPlace hfirst) (shift?_inPlace hlast),
    ← List.cons_append, List.append_assoc, List.cons_append] at h
  obtain ⟨-, hcolon⟩ := h.of_reads hsigned (stops_mark (.inr (.inl rfl)) _)
  obtain ⟨hkept, hnext⟩ := (hcolon.of_colon rfl (by simp)).2.of_label hi hlast hrest (.inr hn) htarget'
  have hkept' : r.first.target.IsKept := by
    intro name hname
    rw [hbare.2.1] at hname
    cases hname
  refine ⟨.of_parts [.range q r] (by simp [Expression.units_unary]) (by simp) rfl (by simp [Expression.enclosed])
    (by simp [Expression.printed]) (by simpa using legible_range hr hkept' hkept q), ?_, hnext⟩
  rintro _ _ _ ⟨⟩ - a habsorbs
  exact absurd habsorbs (hnot a)

/-! ### Streams -/

/-- A unit of a stream, whose text is delivered as it is unless it is an operator. -/
structure AlignsUnit (locale : Locale) (first : Bool) (u : Expression) : Prop where
  unit : IsUnit locale first u
  settled : IsSettled locale u
  operand : u.isAnyOperator = false → Aligns locale first u

/-- All units of the stream are delivered as they are, each where it stands. -/
def AlignsEach (locale : Locale) : Bool → List Expression → Prop
  | _, [] => True
  | first, u :: us => AlignsUnit locale first u ∧ AlignsEach locale false us

theorem alignsEach_append : AlignsEach locale first (vs ++ ws) ↔
    AlignsEach locale first vs ∧ AlignsEach locale (first && vs.isEmpty) ws := by
  induction vs generalizing first with
  | nil => simp [AlignsEach]
  | cons u us ih => simp [AlignsEach, ih, and_assoc]

theorem AlignsEach.delimited (hi : locale.imaginary = 'i' ∨ locale.imaginary = 'j') (h : AlignsEach locale first vs) :
    ∀ u ∈ vs, u.isAnyOperator = false → IsDelimited locale u := by
  induction vs generalizing first with
  | nil => simp
  | cons u us ih => exact List.forall_mem_cons.2 ⟨delimited_of_isUnit hi h.1.unit h.1.settled, ih h.2⟩

/-- Where the text of the tree is delivered as units that have the structure of its stream, the tree can be read again,
and what is delivered next is what stands after the text. -/
def AlignsStream (locale : Locale) (first : Bool) (e : Expression) (stream : List Expression) : Prop :=
  ∀ rest out vs ws ws', Stops rest → Delivers locale first (written inPlace locale e ++ rest) vs out →
    Pieces locale vs (ws ++ ws') → List.Forall₂ (fun w u => w.sameStructure u = true) ws stream →
    Legible inPlace e ∧ (first = true → e.KeepsSign inPlace) ∧
      ∃ vs', Delivers locale false rest vs' out ∧ Pieces locale vs' ws'

/-- A tree under no operator whose stream starts with an operand is that operand. -/
theorem Arrange.Arranges.eq_operand {us : List Expression} (h : Arranges a (u :: us)) (hbinary : a.isBinary = false)
    (hu : u.isAnyOperator = false) : a = u ∧ us = [] := by
  generalize hall : u :: us = all at h
  cases h with
  | operand => exact ⟨(List.cons.inj hall).1.symm, (List.cons.inj hall).2⟩
  | unary =>
    rw [(List.cons.inj hall).1] at hu
    cases hu
  | binary => cases hbinary

theorem IsUnit.isRange {r : RangeMention} (h : IsUnit locale first (.range p r)) : IsRange r := by
  cases h with
  | range _ _ _ hr => exact hr

theorem IsUnit.symbol (h : IsUnit locale first (.operator p s)) : s ∈ Operator.longestFirst := by
  cases h with
  | operator _ _ _ hs => exact hs

theorem same_operator (h : w.sameStructure (.operator p s) = true) : ∃ q, w = .operator q s := by
  cases w with
  | operator q s' => exact ⟨q, by rw [eq_of_beq h]⟩
  | _ => cases h

theorem Pieces.exists_cons (h : Pieces locale vs (w :: ws)) : ∃ v vs', vs = v :: vs' := by
  cases h <;> exact ⟨_, _, rfl⟩

theorem legible_unary (h : Legible inPlace a) : Legible inPlace (.unary p s a) :=
  .of_parts [a] (by simp [Expression.units_unary]) (by simp) rfl (by simp [Expression.enclosed])
    (by simp [Expression.printed]) (by simpa using h)

theorem legible_binary (ha : Legible inPlace a) (hb : Legible inPlace b) : Legible inPlace (.binary p s a b) :=
  .of_parts [a, b] (by simp [Expression.units_binary]) (by simp) rfl (by simp [Expression.enclosed])
    (by simp [Expression.printed]) (by simpa using ⟨ha, hb⟩)

theorem alignsStream_operand (h : AlignsUnit locale first u) (hu : u.isOperand = true) :
    AlignsStream locale first u [u] := by
  intro rest out vs ws ws' hrest hd hpieces hsame
  obtain ⟨w, ws, hw, hnil, rfl⟩ := List.forall₂_cons_right_iff.1 hsame
  obtain rfl := List.forall₂_nil_right_iff.1 hnil
  obtain ⟨hgood, hnext⟩ := h.operand (Expression.not_of_isOperand hu).2 rest out vs w ws' hrest hd hpieces hw
  refine ⟨hgood, fun _ p s a hstart => ?_, hnext⟩
  cases u <;> simp_all [Expression.isOperand, Expression.start]

theorem alignsStream_unary (hi : locale.imaginary = 'i' ∨ locale.imaginary = 'j') (hs : Operator.isSign s = true)
    (hbinary : a.isBinary = false) (harranged : Arranges a stream) (hus : AlignsEach locale false stream)
    (ha : AlignsStream locale false a stream) : AlignsStream locale first (.unary p s a) (.operator p s :: stream) := by
  intro rest out vs ws ws' hrest hd hpieces hsame
  obtain ⟨w, ws, hw, hws, rfl⟩ := List.forall₂_cons_right_iff.1 hsame
  obtain ⟨q, rfl⟩ := same_operator hw
  obtain ⟨v, vs, rfl⟩ := hpieces.exists_cons
  obtain ⟨n, hn, hcode, hmem, -⟩ := sign_cases hs
  by_cases hstarts : first = true ∧ startsNumber locale (written inPlace locale a ++ rest) = true
  · obtain ⟨rfl, hstarts⟩ := hstarts
    have hsigned := hd
    rw [Reader.written_unary p hn] at hsigned
    obtain ⟨j, b, m, log, log', vs', made, rfl, hmade, hrange, hpieces'⟩ :=
      hpieces.of_minus (hsigned.of_signedNumber hcode.symm hstarts)
    cases hws with
    | nil => exact absurd rfl harranged.ne_nil
    | cons hw' hws =>
      rename_i w' u ws us
      obtain ⟨rfl, rfl⟩ := List.cons.inj hmade
      obtain ⟨k, r, rfl⟩ : ∃ k r, u = .range k r := by
        cases u <;> first | exact ⟨_, _, rfl⟩ | cases hw'
      obtain ⟨rfl, rfl⟩ := harranged.eq_operand hbinary rfl
      obtain rfl := List.forall₂_nil_right_iff.1 hws
      obtain ⟨hgood, hkeeps, hnext⟩ := aligns_negatedRows hi hus.1.unit.isRange hs hrest hrange hw' hd
      exact ⟨hgood, fun _ => hkeeps, vs', hnext, hpieces'⟩
  · have hdelimited : IsDelimited locale a := delimited_arranged harranged (hus.delimited hi)
    have hhead := (hdelimited.opening.append rest).head_ne
    rw [Reader.written_unary p hn] at hd
    obtain ⟨⟨j, rfl⟩, hd'⟩ := hd.of_sign hs hn hhead fun hf => Bool.eq_false_iff.2 fun h => hstarts ⟨hf, h⟩
    obtain ⟨-, hpieces'⟩ := hpieces.of_operator
    obtain ⟨hgood, -, hnext⟩ := ha rest out vs ws ws' hrest hd' hpieces' hws
    refine ⟨legible_unary hgood, fun hf => ?_, hnext⟩
    rintro _ _ _ ⟨⟩ - a' habsorbs
    cases harranged with
    | operand => exact absurd ⟨hf, startsNumber_of_absorbs hi hus.1.unit hgood habsorbs rest⟩ hstarts
    | unary => cases habsorbs
    | binary => cases hbinary

theorem alignsStream_binary {us us' : List Expression} (ha : AlignsStream locale first a us)
    (hb : AlignsStream locale false b us') (hne : us' ≠ [])
    (hoperator : AlignsUnit locale false (.operator p s)) :
    AlignsStream locale first (.binary p s a b) (us ++ .operator p s :: us') := by
  intro rest out vs ws ws' hrest hd hpieces hsame
  have hs := hoperator.unit.symbol
  have hleft := List.forall₂_take_append ws us _ hsame
  have hright := List.forall₂_drop_append ws us _ hsame
  obtain ⟨w, made, hw, hmade, hdrop⟩ := List.forall₂_cons_right_iff.1 hright
  obtain ⟨q, rfl⟩ := same_operator hw
  rw [← List.take_append_drop us.length ws, hdrop, List.append_assoc, List.cons_append] at hpieces
  have hwritten : written inPlace locale (.binary p s a b) ++ rest =
      written inPlace locale a ++ 32 :: (Text.units s ++ 32 :: (written inPlace locale b ++ rest)) := by
    rw [written_binary]
    simp
  rw [hwritten] at hd
  obtain ⟨hgood, hkeeps, vs₁, hd₁, hpieces₁⟩ := ha _ out vs _ _ (stops_operator hs _) hd hpieces hleft
  obtain ⟨v, vs₁, rfl⟩ := hpieces₁.exists_cons
  obtain ⟨⟨j, rfl⟩, hd₂⟩ := (hd₁.of_space rfl).of_operator hs (by simp) (by simp) (by simp)
  obtain ⟨-, hpieces₂⟩ := hpieces₁.of_operator
  obtain ⟨w', made, rfl⟩ : ∃ w' made', made = w' :: made' := by
    cases hmade with
    | nil => exact absurd rfl hne
    | cons => exact ⟨_, _, rfl⟩
  obtain ⟨v', vs₂, rfl⟩ := Pieces.exists_cons hpieces₂
  obtain ⟨hgood', -, hnext⟩ := hb rest out _ _ ws' hrest (hd₂.of_space rfl) hpieces₂ hmade
  exact ⟨legible_binary hgood hgood', hkeeps, hnext⟩

/-- The text of a tree is delivered as its stream is. -/
theorem aligns_arranged (hi : locale.imaginary = 'i' ∨ locale.imaginary = 'j') (h : Arranges e stream)
    (hus : AlignsEach locale first stream) : AlignsStream locale first e stream := by
  induction h generalizing first with
  | operand e he => exact alignsStream_operand hus.1 he
  | unary p s a us hs hbinary harranged ih => exact alignsStream_unary hi hs hbinary harranged hus.2 (ih hus.2)
  | binary p s a b us us' ha hb iha ihb =>
    obtain ⟨hleft, hoperator, hright⟩ := alignsEach_append.1 hus
    rw [Bool.and_eq_false_iff.2 (.inr (by simpa using ha.ne_nil))] at hoperator
    exact alignsStream_binary (iha hleft) (ihb hright) hb.ne_nil hoperator

/-! ### Trees -/

/-- Where the text of the tree makes what has the same structure, all of the text has been read, and the tree can be
read again. -/
def AlignsTree (locale : Locale) (e : Expression) : Prop :=
  ∀ rest out e', IsClosing locale rest → Closes locale [] (written inPlace locale e ++ rest) (some e') out →
    e'.sameStructure e = true → out = rest ∧ Legible inPlace e ∧ e.KeepsSign inPlace

theorem isFlat_cons (hu : u.isOperand = true ∨ u.isAnyOperator = true) (hus : Arrange.IsFlat vs) :
    Arrange.IsFlat (u :: vs) := List.forall_mem_cons.2 ⟨hu, hus⟩

/-- What is delivered are operators and operands. -/
theorem Delivers.isFlat {first : Bool} {us out : List Nat} {vs : List Expression}
    (h : Delivers locale first us vs out) : Arrange.IsFlat vs :=
  match h with
  | .nil _ _ => fun _ hu => absurd hu List.not_mem_nil
  | .space _ _ _ _ _ _ _ _ hrest => hrest.isFlat
  | .atom _ _ _ _ _ _ _ _ hread hrest => isFlat_cons (.inl (by cases Lexeme.atomAt_read hread <;> rfl)) hrest.isFlat
  | .operator _ _ _ _ _ _ _ _ _ _ _ hrest => isFlat_cons (.inr rfl) hrest.isFlat
  | .group _ _ _ _ _ _ _ _ hrest => isFlat_cons (.inl rfl) hrest.isFlat
  | .blank _ _ _ _ _ _ hrest => hrest.isFlat
  | .call _ _ _ _ _ _ _ _ _ _ _ _ _ hrest => isFlat_cons (.inl rfl) hrest.isFlat
  | .array _ _ _ _ _ _ _ _ _ _ _ hrest => isFlat_cons (.inl rfl) hrest.isFlat

/-- What is made of operators and operands are operators and operands. -/
theorem Pieces.isFlat (h : Pieces locale vs ws) (hvs : Arrange.IsFlat vs) : Arrange.IsFlat ws := by
  induction h with
  | nil => exact hvs
  | unit u vs ws _ ih =>
    obtain ⟨hu, hvs⟩ := List.forall_mem_cons.1 hvs
    exact isFlat_cons hu (ih hvs)
  | lone _ _ _ _ _ _ _ _ ih => exact isFlat_cons (.inl rfl) (ih (List.forall_mem_cons.1 hvs).2)
  | range _ _ _ _ _ _ _ _ _ _ ih =>
    simp only [Arrange.IsFlat, List.forall_mem_cons] at hvs
    exact isFlat_cons (.inl rfl) (ih hvs.2.2.2)
  | negated _ _ _ _ _ _ _ _ _ hrange _ ih =>
    simp only [Arrange.IsFlat, List.forall_mem_cons] at hvs
    obtain ⟨_, rfl⟩ := minus_of_range hrange
    exact isFlat_cons (.inr rfl) (isFlat_cons (.inl rfl) (ih hvs.2.2.2))
  | complex _ _ _ _ _ _ _ _ _ _ _ _ _ _ ih =>
    simp only [Arrange.IsFlat, List.forall_mem_cons] at hvs
    exact isFlat_cons (.inl rfl) (ih hvs.2.2.2)

theorem units_of_tree (h : Arrange.tree ws = .ok e) : Arrange.units ws = .ok e := by
  unfold Arrange.tree at h
  split at h
  · cases h
  · exact h

theorem alignsTree_of_stream (h : AlignsStream locale true e stream) (harranged : Arranges e stream) :
    AlignsTree locale e := by
  intro rest out e' hclosing hclosed hsame
  cases hclosed with
  | some _ _ vs ws _ _ hd _ hpieces htree =>
    have hmade := Arrange.arranges_units (units_of_tree htree) (hpieces.isFlat hd.isFlat)
    have hws := harranged.same hmade hsame
    obtain ⟨hgood, hkeeps, vs', hd', hpieces'⟩ := h rest out vs ws [] hclosing.stops hd (by simpa using hpieces) hws
    obtain rfl := hpieces'.of_nil
    exact ⟨(hclosing.delivers hd').2, hgood, hkeeps rfl⟩

/-- An argument that is left out, or a tree. -/
def AlignsArgument (locale : Locale) (a : Expression) : Prop :=
  ∀ rest out last i, IsClosing locale rest → Closes locale [] (written inPlace locale a ++ rest) last out →
    (last.getD (.missing i)).sameStructure a = true →
    out = rest ∧ (Legible inPlace a ∧ a.KeepsSign inPlace) ∧ ∀ q, a = .missing q → last = none

theorem alignsArgument_missing (p : Nat) : AlignsArgument locale (.missing p) := by
  intro rest out last i hclosing hclosed _
  have hgood : Legible inPlace (.missing p) := .of_unit rfl (by simp) rfl rfl (by simp [Expression.printed])
  have hkeeps : (Expression.missing p).KeepsSign inPlace := by
    intro _ _ _ h
    cases h
  have hwritten : written inPlace locale (.missing p) = [] := rfl
  rw [hwritten, List.nil_append] at hclosed
  cases hclosed with
  | none _ _ hd => exact ⟨(hclosing.delivers hd).2, ⟨hgood, hkeeps⟩, fun _ _ => rfl⟩
  | some _ _ vs _ _ _ hd hne =>
    obtain ⟨rfl, -⟩ := hclosing.delivers hd
    exact absurd rfl hne

theorem alignsArgument_tree (h : AlignsTree locale e) (hdelimited : IsDelimited locale e) :
    AlignsArgument locale e := by
  intro rest out last i hclosing hclosed hsame
  have hpresent (q : Nat) : e ≠ .missing q := by
    rintro rfl
    have hopening : IsOpening [] := hdelimited.opening
    cases hopening
  cases last with
  | none => cases e <;> first | exact absurd rfl (hpresent _) | cases hsame
  | some e' =>
    obtain ⟨hout, hgood⟩ := h rest out e' hclosing hclosed hsame
    exact ⟨hout, hgood, fun q hq => absurd hq (hpresent q)⟩

/-- Space in front of a stream that does not end there. -/
theorem Closes.of_space {last : Option Expression} (hout : ∀ us', out ≠ 32 :: us')
    (h : Closes locale [] (32 :: us) last out) : Closes locale [] us last out := by
  cases h with
  | none _ _ hd =>
    cases hd with
    | nil => exact absurd rfl (hout us)
    | space _ p _ n _ _ _ hread hd =>
      rw [read_space rfl] at hread
      obtain ⟨-, rfl⟩ := Prod.mk.inj hread
      exact .none us out hd
  | some _ _ vs ws e _ hd hne hpieces htree =>
    obtain ⟨v, vs, rfl⟩ := List.exists_cons_of_ne_nil hne
    exact .some [] us _ ws e out (hd.of_space rfl) hne hpieces htree

theorem Lists.of_space {args : List Expression} (h : Lists locale [] (32 :: us) args out) :
    Lists locale [] us args out := by
  cases h with
  | last _ _ last _ h => exact .last [] us last out (h.of_space (by simp))
  | next _ i _ us' last args _ h hrest =>
    refine .next [] i us us' last args out (h.of_space ?_) hrest
    rcases Reader.separatorUnit locale with hu | hu <;> simp [hu]

/-- Where the text of arguments makes as many of the same structure, all of it has been read, each of them can be read
again, and the last one is not left out. -/
theorem aligns_arguments {args made : List Expression} (hargs : ∀ a ∈ args, AlignsArgument locale a)
    (h : Lists locale [] (Reader.writtenArguments inPlace locale args ++ 41 :: rest) made out)
    (hsame : Expression.sameStructures made args = true) :
    out = rest ∧ (∀ a ∈ args, Legible inPlace a ∧ a.KeepsSign inPlace) ∧ ∀ q, args.getLast? ≠ some (.missing q) := by
  induction args generalizing made with
  | nil =>
    have hwritten : Reader.writtenArguments inPlace locale [] = [] := rfl
    rw [hwritten, List.nil_append] at h
    cases h with
    | last _ _ last _ hclosed =>
      cases hclosed with
      | none _ _ hd =>
        obtain ⟨-, hout⟩ := (IsClosing.parenthesis rest).delivers hd
        exact ⟨(List.cons.inj hout).2, by simp⟩
      | some => cases hsame
    | next => cases hsame
  | cons a args ih =>
    obtain ⟨ha, hargs⟩ := List.forall_mem_cons.1 hargs
    cases args with
    | nil =>
      rw [Reader.writtenArguments_singleton] at h
      cases h with
      | last _ _ last _ hclosed =>
        cases last with
        | none => cases hsame
        | some e' =>
          obtain ⟨hout, hgood, hlast⟩ := ha _ _ (some e') 0 (.parenthesis rest) hclosed (Bool.and_eq_true_iff.1 hsame).1
          refine ⟨(List.cons.inj hout).2, List.forall_mem_singleton.2 hgood, fun q hq => ?_⟩
          cases hlast q (Option.some.inj hq)
      | next _ i _ us' last _ _ hclosed =>
        obtain ⟨hout, -⟩ := ha _ _ last i (.parenthesis rest) hclosed (Bool.and_eq_true_iff.1 hsame).1
        rcases Reader.separatorUnit locale with hu | hu
        · cases hu.symm.trans (List.cons.inj hout).1
        · cases hu.symm.trans (List.cons.inj hout).1
    | cons b args =>
      rw [Reader.writtenArguments_cons, List.append_assoc, List.cons_append, List.cons_append] at h
      cases h with
      | last _ _ last _ hclosed => cases last <;> simp [Expression.sameStructures] at hsame
      | next _ i _ us' last args' _ hclosed hrest =>
        obtain ⟨hfirst, hsame'⟩ := Bool.and_eq_true_iff.1 hsame
        obtain ⟨hout, hgood, -⟩ := ha _ _ last i (.separator _) hclosed hfirst
        obtain ⟨-, rfl⟩ := List.cons.inj hout
        obtain ⟨hout', hgood', hlast⟩ := ih hargs hrest.of_space hsame'
        exact ⟨hout', List.forall_mem_cons.2 ⟨hgood, hgood'⟩, by simpa using hlast⟩

theorem aligns_call (p : Nat) {name : String} (hname : IsWord name) {args : List Expression}
    (hargs : ∀ a ∈ args, AlignsArgument locale a) : Aligns locale first (.call p name args) := by
  intro rest out vs w ws hrest hd hpieces hsame
  obtain ⟨vs', rfl, hpieces'⟩ := hpieces.of_plain (isJoint_eq_of_same hsame)
  obtain ⟨u, us, hunits, hstart, -⟩ := hname.spans
  rw [Reader.written_call, hunits, List.append_assoc, List.cons_append, List.cons_append, List.append_assoc,
    List.singleton_append] at hd
  have hread (k : Nat) (rest : List Nat) : ∃ openAt, Lexeme.read locale first k u (us ++ 40 :: rest) =
      (.call name openAt, us.length + 1) := by
    rw [Lexeme.read_word hstart]
    exact Lexeme.word_call hname hunits rest k
  obtain ⟨q, made, us', rfl, hmade, hnext⟩ := hd.of_call fun k => hread k _
  rw [← List.drop_drop, List.drop_left, List.drop_one, List.tail_cons] at hmade
  obtain ⟨rfl, hgood, hlast⟩ := aligns_arguments hargs hmade (Bool.and_eq_true_iff.1 hsame).2
  have hcall : (Expression.call p name args).endsInMissing = false := by
    cases hlast' : args.getLast? with
    | none => simp [Expression.endsInMissing, hlast']
    | some a => cases a <;> simp_all [Expression.endsInMissing]
  refine ⟨.of_parts args Expression.units_call (by simp) hcall ?_ (by simp [Expression.printed]) ?_, vs', hnext, ?_⟩
  · exact fun a ha => (hgood a ha).2
  · exact fun a ha => (hgood a ha).1
  · exact hpieces'

theorem aligns_group (p : Nat) (h : AlignsTree locale e) (hdelimited : IsDelimited locale e) :
    Aligns locale first (.group p [e] true) := by
  intro rest out vs w ws hrest hd hpieces hsame
  obtain ⟨vs', rfl, hpieces'⟩ := hpieces.of_plain (isJoint_eq_of_same hsame)
  rw [Reader.written_group, List.cons_append, List.append_assoc, List.singleton_append] at hd
  rcases hd.of_parenthesis with ⟨q, e', us', rfl, hclosed, hnext⟩ | ⟨us', hclosed, -⟩
  · have hsame' : e'.sameStructure e = true := by
      simpa [Expression.sameStructure, Expression.sameStructures] using hsame
    obtain ⟨hout, hgood, hkeeps⟩ := h _ _ e' (.parenthesis rest) hclosed hsame'
    obtain ⟨-, rfl⟩ := List.cons.inj hout
    refine ⟨.of_parts [e] Expression.units_group (by simp) rfl ?_ (by simp [Expression.printed]) ?_, vs', hnext, ?_⟩
    · exact List.forall_mem_singleton.2 hkeeps
    · exact List.forall_mem_singleton.2 hgood
    · exact hpieces'
  · cases hclosed with
    | none _ _ hd => exact absurd hd (hdelimited.opening.append _).not_closing

mutual

theorem aligns_of_isUnit (hi : locale.imaginary = 'i' ∨ locale.imaginary = 'j') {first : Bool} {u : Expression}
    (h : IsUnit locale first u) (hsettled : IsSettled locale u) (hplain : u.isAnyOperator = false) :
    Aligns locale first u :=
  match h with
  | .text _ p s => aligns_text p s
  | .boolean _ p b => aligns_boolean p b
  | .number _ p us x hx hfirst => aligns_number hi p hx hfirst
  | .imaginary _ p y spelling => nomatch hsettled.imaginary
  | .complex _ p z spelling hfirst => aligns_complex hi p spelling hfirst
  | .cell _ m hm => aligns_cell hi hm
  | .range _ p r hr => aligns_range hi p hr
  | .identifier _ p name hname hcell => aligns_identifier p hname hcell
  | .operator _ p s hs => nomatch hplain
  | .call _ p name args hname hargs => aligns_call p hname fun a ha => aligns_of_isArgument hi (hargs a ha)
  | .group _ p e he => aligns_group p (aligns_of_isTree hi he) (delimited_of_isTree hi he)
  | .array _ p _ _ harray => aligns_array hi p harray

theorem aligns_of_isStream (hi : locale.imaginary = 'i' ∨ locale.imaginary = 'j') {first : Bool}
    {us : List Expression} (h : IsStream locale first us) (hsettled : ∀ u ∈ us, IsSettled locale u) :
    AlignsEach locale first us :=
  match h with
  | .nil _ => trivial
  | .cons _ u us hu hus => by
    obtain ⟨hsettled, hrest⟩ := List.forall_mem_cons.1 hsettled
    exact ⟨⟨hu, hsettled, aligns_of_isUnit hi hu hsettled⟩, aligns_of_isStream hi hus hrest⟩

theorem aligns_of_isArgument (hi : locale.imaginary = 'i' ∨ locale.imaginary = 'j') {a : Expression}
    (h : IsArgument locale a) : AlignsArgument locale a :=
  match h with
  | .missing p => alignsArgument_missing p
  | .tree e he => alignsArgument_tree (aligns_of_isTree hi he) (delimited_of_isTree hi he)

/-- The text of a tree makes what has the same structure only if the tree can be read again. -/
theorem aligns_of_isTree (hi : locale.imaginary = 'i' ∨ locale.imaginary = 'j') {e : Expression}
    (h : IsTree locale e) : AlignsTree locale e :=
  match h with
  | .intro _ _ hstream hsettled hunits => by
    have harranged := Arrange.arranges_units hunits (isFlat_of_stream hstream)
    exact alignsTree_of_stream (aligns_arranged hi harranged (aligns_of_isStream hi hstream hsettled)) harranged

end

/-- An expression that its text gives back can be read again. -/
theorem legible_of_reproduced (hi : locale.imaginary = 'i' ∨ locale.imaginary = 'j') (he : IsTree locale e)
    (hvalid : (parse locale (e.render locale {})).error = none)
    (he' : (parse locale (e.render locale {})).expression = some e') (hsame : e'.sameStructure e = true) :
    Legible inPlace e ∧ e.KeepsSign inPlace := by
  have hclosed := closes_of_parse hi hvalid he'
  rw [(delimited_of_isTree hi he).framed.body_eq, ← List.append_nil (Text.units _)] at hclosed
  exact (aligns_of_isTree hi he [] [] e' .nil hclosed hsame).2

end Spreadsheet.Formula
