import Spreadsheet.Proofs.Formula.Precedence
import Spreadsheet.Proofs.Formula.Reproduced

/-!
Formulas that are written with another decimal mark. The text for another locale is the text that the formula with its
numbers respelled has there, and the formula stays one that can be read unless a mark is left without a digit after it.
-/

namespace Spreadsheet

namespace Formula.Lexeme

/-- Whether the first mark in the units has no digit after it. -/
def bareMark (mark : DecimalMark) (us : List Nat) : Bool :=
  match us.dropWhile (· != unitOf mark.char) with
  | [] => false
  | _ :: rest => !(rest.head?.map isDigitUnit).getD false

/-- The units with one mark in place of another. -/
def respell (old new : DecimalMark) (us : List Nat) : List Nat :=
  us.map fun u => if u = unitOf old.char then unitOf new.char else u

end Formula.Lexeme

namespace Expression

/-- Whether the unit is a number spelled with a decimal mark that no digit follows, such as `1.` or `1.e5`. -/
def hasBareMark (mark : DecimalMark) : Expression → Bool
  | .literal _ (.number _) (some spelling) => Formula.Lexeme.bareMark mark (Text.units spelling)
  | _ => false

mutual

/-- The expression with its numbers spelled with another decimal mark. -/
def respelled (old new : DecimalMark) : Expression → Expression
  | .literal p (.number x) (some spelling) => .literal p (.number x) (some (substitute old.char new.char spelling))
  | .unary p s a => .unary p s (respelled old new a)
  | .binary p s a b => .binary p s (respelled old new a) (respelled old new b)
  | .call p f as => .call p f (respelledAll old new as)
  | .group p as x => .group p (respelledAll old new as) x
  | e => e

/-- The expressions with their numbers spelled with another decimal mark. -/
def respelledAll (old new : DecimalMark) : List Expression → List Expression
  | [] => []
  | e :: es => respelled old new e :: respelledAll old new es

end

variable {d d' : DecimalMark} {e a : Expression} {p : Nat} {s : String}

theorem respelledAll_eq (es : List Expression) : respelledAll d d' es = es.map (respelled d d') := by
  induction es with
  | nil => rfl
  | cons e es ih => rw [respelledAll, ih, List.map_cons]

/-- Nothing but a number is spelled in another way. -/
theorem respelled_cases (d d' : DecimalMark) (e : Expression) :
    (∃ p x spelling, e = .literal p (.number x) (some spelling)) ∨ (∃ p s a, e = .unary p s a) ∨
      (∃ p s a b, e = .binary p s a b) ∨ (∃ p f as, e = .call p f as) ∨ (∃ p as x, e = .group p as x) ∨
      e.hasBareMark d = false ∧ respelled d d' e = e := by
  cases e with
  | literal p v spelling => cases v <;> cases spelling <;> simp [respelled, hasBareMark]
  | _ => simp [respelled, hasBareMark]

mutual

/-- The text for another locale is the text that the respelled expression has there. -/
theorem render_respelled (d d' : DecimalMark) (e : Expression) : (respelled d d' e).render (.ofDecimal d') {} =
    e.render (.ofDecimal d) (({} : RenderOptions).withLocale d') := by
  cases e with
  | literal p v spelling =>
    cases v with
    | number x =>
      cases spelling with
      | none => simp [respelled, render, RenderOptions.target, RenderOptions.withLocale, Locale.ofDecimal]
      | some spelling =>
        rw [respelled, render, render]
        exact substitute_self _ _
    | _ => simp [respelled, render, RenderOptions.target, RenderOptions.withLocale, Locale.ofDecimal]
  | unary p s a => rw [respelled, render, render, render_respelled d d' a]
  | binary p s a b => rw [respelled, render, render, render_respelled d d' a, render_respelled d d' b]
  | call p f as =>
    rw [respelled, render, render, renderAll_respelled d d' as]
    rfl
  | group p as x =>
    rw [respelled, render, render, renderAll_respelled d d' as]
    rfl
  | cell m => rfl
  | range p r => rfl
  | _ => simp [respelled, render, RenderOptions.target, RenderOptions.withLocale, Locale.ofDecimal]

theorem renderAll_respelled (d d' : DecimalMark) (es : List Expression) :
    renderAll (.ofDecimal d') {} (respelledAll d d' es) =
      renderAll (.ofDecimal d) (({} : RenderOptions).withLocale d') es := by
  cases es with
  | nil => rfl
  | cons e es => rw [respelledAll, renderAll, renderAll, render_respelled d d' e, renderAll_respelled d d' es]

end

/-! ### What is kept -/

mutual

theorem sameStructure_respelled (d d' : DecimalMark) (a e : Expression) :
    a.sameStructure (respelled d d' e) = a.sameStructure e := by
  rcases respelled_cases d d' e with ⟨p, x, spelling, rfl⟩ | ⟨p, s, b, rfl⟩ | ⟨p, s, b, c, rfl⟩ |
    ⟨p, f, as, rfl⟩ | ⟨p, as, x, rfl⟩ | ⟨-, h⟩
  · rw [respelled]
    cases a <;> rfl
  · rw [respelled]
    cases a <;> simp [sameStructure, sameStructure_respelled d d' _ b]
  · rw [respelled]
    cases a <;> simp [sameStructure, sameStructure_respelled d d' _ b, sameStructure_respelled d d' _ c]
  · rw [respelled]
    cases a <;> simp [sameStructure, sameStructures_respelled d d' _ as]
  · rw [respelled]
    cases a <;> simp [sameStructure, sameStructures_respelled d d' _ as]
  · rw [h]

theorem sameStructures_respelled (d d' : DecimalMark) (as es : List Expression) :
    sameStructures as (respelledAll d d' es) = sameStructures as es := by
  cases es with
  | nil => rfl
  | cons e es =>
    cases as with
    | nil => rfl
    | cons a as =>
      rw [respelledAll, sameStructures, sameStructures, sameStructure_respelled d d' a e,
        sameStructures_respelled d d' as es]

end

mutual

theorem moved_zero (e : Expression) : e.moved 0 0 = e := by
  cases e with
  | cell m => simp [moved, Mention.moved, Reference.moved_zero]
  | range p r => simp [moved, RangeMention.moved, Mention.moved, Reference.moved_zero]
  | unary p s a => rw [moved, moved_zero a]
  | binary p s a b => rw [moved, moved_zero a, moved_zero b]
  | call p f as => rw [moved, movedAll_zero as]
  | group p as x => rw [moved, movedAll_zero as]
  | _ => rfl

theorem movedAll_zero (es : List Expression) : movedAll 0 0 es = es := by
  cases es with
  | nil => rfl
  | cons e es => rw [movedAll, moved_zero e, movedAll_zero es]

end

mutual

theorem units_respelled (d d' : DecimalMark) (e : Expression) :
    (respelled d d' e).units = e.units.map (respelled d d') := by
  cases e with
  | literal p v spelling => cases v <;> cases spelling <;> rfl
  | unary p s a => rw [respelled, units_unary, units_unary, units_respelled d d' a, List.map_cons, respelled]
  | binary p s a b =>
    rw [respelled, units_binary, units_binary, units_respelled d d' a, units_respelled d d' b, List.map_cons,
      List.map_append, respelled]
  | call p f as => rw [respelled, units_call, units_call, units_respelledAll d d' as, List.map_cons, respelled]
  | group p as x => rw [respelled, units_group, units_group, units_respelledAll d d' as, List.map_cons, respelled]
  | _ => rfl

theorem units_respelledAll (d d' : DecimalMark) (es : List Expression) :
    (respelledAll d d' es).flatMap units = (es.flatMap units).map (respelled d d') := by
  cases es with
  | nil => rfl
  | cons e es =>
    rw [respelledAll, List.flatMap_cons, List.flatMap_cons, units_respelled d d' e, units_respelledAll d d' es,
      List.map_append]

end

theorem mem_units_respelled {u : Expression} (hu : u ∈ (respelled d d' e).units) :
    ∃ v ∈ e.units, respelled d d' v = u := List.mem_map.1 (units_respelled d d' e ▸ hu)

/-- Kinds of units do not depend on spellings. -/
theorem kind_respelled (e : Expression) : (respelled d d' e).isOperand = e.isOperand ∧
    (respelled d d' e).isBinary = e.isBinary ∧ (respelled d d' e).isAnyOperator = e.isAnyOperator ∧
    (respelled d d' e).printed = e.printed := by
  cases e with
  | literal p v spelling => cases v <;> cases spelling <;> exact ⟨rfl, rfl, rfl, rfl⟩
  | _ => exact ⟨rfl, rfl, rfl, rfl⟩

theorem enclosed_respelled (e : Expression) :
    (respelled d d' e).enclosed = e.enclosed.map (respelled d d') := by
  cases e with
  | literal p v spelling => cases v <;> cases spelling <;> rfl
  | call p f as => exact respelledAll_eq as
  | group p as x => exact respelledAll_eq as
  | _ => rfl

theorem mentions_respelled (e : Expression) : (respelled d d' e).mentions = e.mentions := by
  rw [mentions, mentions, units_respelled, List.filterMap_map]
  congr 1
  funext u
  cases u with
  | literal p v spelling => cases v <;> cases spelling <;> rfl
  | _ => rfl

theorem start_respelled (e : Expression) : (respelled d d' e).start = respelled d d' e.start := by
  induction e using start.induct with
  | case1 p s a b ih => exact ih
  | case2 e hnot =>
    cases e with
    | literal p v spelling => cases v <;> cases spelling <;> rfl
    | binary p s a b => exact absurd rfl (hnot p s a b)
    | _ => rfl

theorem endsInMissing_respelled (e : Expression) : (respelled d d' e).endsInMissing = e.endsInMissing := by
  cases e with
  | literal p v spelling => cases v <;> cases spelling <;> rfl
  | call p f as =>
    rw [respelled, respelledAll_eq]
    unfold endsInMissing
    simp only [List.getLast?_map]
    cases as.getLast? with
    | none => rfl
    | some a =>
      cases a with
      | literal p v spelling => cases v <;> cases spelling <;> rfl
      | _ => rfl
  | _ => rfl

theorem unary_of_respelled (h : respelled d d' e = .unary p s a) : ∃ b, e = .unary p s b ∧ respelled d d' b = a := by
  cases e with
  | literal p v spelling => cases v <;> cases spelling <;> cases h
  | unary q t b =>
    obtain ⟨rfl, rfl, rfl⟩ := Expression.unary.inj h
    exact ⟨b, rfl, rfl⟩
  | _ => cases h

theorem absorbs_of_respelled {t : Rereading} {a' : Expression} (h : t.Absorbs s (respelled d d' a) a') :
    ∃ b, t.Absorbs s a b := by
  rcases respelled_cases d d' a with ⟨p, x, spelling, rfl⟩ | ⟨p, s, b, rfl⟩ | ⟨p, s, b, c, rfl⟩ |
    ⟨p, f, as, rfl⟩ | ⟨p, as, x, rfl⟩ | ⟨-, heq⟩
  · exact ⟨_, .number p p s x spelling⟩
  · cases h
  · cases h
  · cases h
  · cases h
  · exact ⟨a', heq ▸ h⟩

/-- A respelled expression keeps its signs where the expression does. -/
theorem KeepsSign.respelled (h : e.KeepsSign Rereading.inPlace) : (respelled d d' e).KeepsSign Rereading.inPlace := by
  intro p s a hstart hs a' habsorbs
  rw [start_respelled] at hstart
  obtain ⟨b, hb, rfl⟩ := unary_of_respelled hstart
  obtain ⟨b', hb'⟩ := absorbs_of_respelled habsorbs
  exact h p s b hb hs b' hb'

/-- A respelled expression can be read again where the expression can. -/
theorem Legible.respelled (h : Legible Rereading.inPlace e) : Legible Rereading.inPlace (respelled d d' e) where
  arguments u hu := by
    obtain ⟨v, hv, rfl⟩ := mem_units_respelled hu
    exact (endsInMissing_respelled v).trans (h.arguments v hv)
  signs u hu a ha := by
    obtain ⟨v, hv, rfl⟩ := mem_units_respelled hu
    rw [enclosed_respelled] at ha
    obtain ⟨b, hb, rfl⟩ := List.mem_map.1 ha
    exact (h.signs v hv b hb).respelled
  sheets := by
    rw [mentions_respelled]
    exact h.sheets
  fits := by
    rw [mentions_respelled]
    exact h.fits
  finite u hu := by
    obtain ⟨v, hv, rfl⟩ := mem_units_respelled hu
    rw [(kind_respelled v).2.2.2]
    exact h.finite v hv
  digits u hu := by
    obtain ⟨v, hv, rfl⟩ := mem_units_respelled hu
    rw [(kind_respelled v).2.2.2]
    exact h.digits v hv

end Expression

namespace Formula

open Expression (Legible KeepsSign respelled respelledAll hasBareMark)
open Rereading (inPlace)
open Lexeme (respell bareMark DigitUnits Unsigned)

variable {d d' : DecimalMark} {first : Bool} {us : List Nat} {u a e : Expression} {stream : List Expression}

/-! ### Numbers -/

namespace Lexeme

theorem unitOf_mark (d : DecimalMark) : unitOf d.char = 46 ∨ unitOf d.char = 44 := decimalUnit (.ofDecimal d)

/-- Units that are no marks stay what they are. -/
theorem respell_of_ne (h : ∀ u ∈ us, u ≠ 46 ∧ u ≠ 44) : respell d d' us = us := by
  refine (List.map_congr_left fun u hu => if_neg ?_).trans us.map_id
  have hne := h u hu
  rcases unitOf_mark d with hd | hd <;> omega

theorem respell_digits (h : DigitUnits us) : respell d d' us = us := by
  refine respell_of_ne fun u hu => ?_
  have := isDigitUnit_iff.1 (h u hu)
  omega

theorem respell_append (us vs : List Nat) : respell d d' (us ++ vs) = respell d d' us ++ respell d d' vs :=
  List.map_append

theorem respell_sign {negative : Bool} (h : WritesSign us negative) : respell d d' us = us := by
  cases h <;> exact respell_of_ne (by simp [unitOf])

theorem respell_exponent {n : Option Int} (h : WritesExponent us n) : respell d d' us = us := by
  cases h with
  | none => rfl
  | mark u sign ds _ hu hsign hds =>
    have hmark : respell d d' [u] = [u] := by
      refine respell_of_ne fun v hv => ?_
      obtain rfl := List.mem_singleton.1 hv
      have := isExponentMark_iff.1 hu
      omega
    rw [← List.singleton_append, respell_append, respell_append, hmark, respell_sign hsign, respell_digits hds]

theorem respell_percent : respell d d' [unitOf '%'] = [unitOf '%'] := respell_of_ne (by simp [unitOf])

theorem head_exponent {n : Option Int} (h : WritesExponent us n) {rest : List Nat}
    (hrest : ∀ u ∈ rest.head?, isDigitUnit u = false) : ∀ u ∈ (us ++ rest).head?, isDigitUnit u = false := by
  cases h with
  | none => exact hrest
  | mark u _ _ _ hu =>
    rintro _ ⟨⟩
    rcases isExponentMark_iff.1 hu with rfl | rfl <;> rfl

/-- A mark in a number without digits after it is bare. -/
theorem places_of_bareMark {sign whole fraction places rest : List Nat} {negative : Bool}
    (hsign : WritesSign sign negative) (hwhole : DigitUnits whole)
    (hplaces : WritesPlaces (.ofDecimal d) fraction places) (hrest : ∀ u ∈ rest.head?, isDigitUnit u = false)
    (hbare : bareMark d (sign ++ (whole ++ (fraction ++ rest))) = false) (hne : fraction ≠ []) : places ≠ [] := by
  cases hplaces with
  | none => exact absurd rfl hne
  | mark =>
    rintro rfl
    have hfront : ∀ u ∈ sign ++ whole, (u != unitOf d.char) = true := by
      intro u hu
      have hd := unitOf_mark d
      rcases List.mem_append.1 hu with hu | hu
      · have hunit : u = 45 ∨ u = 43 := by
          cases hsign <;> simp_all [unitOf]
        simp
        omega
      · have := isDigitUnit_iff.1 (hwhole u hu)
        simp
        omega
    have hmark : (unitOf (Locale.ofDecimal d).decimal.char :: rest).dropWhile (· != unitOf d.char) =
        unitOf d.char :: rest := List.dropWhile_cons_of_neg (by simp [Locale.ofDecimal])
    rw [List.singleton_append, ← List.append_assoc, bareMark, List.dropWhile_append_of_pos hfront, hmark] at hbare
    cases rest with
    | nil => cases hbare
    | cons u rest => simp [hrest u rfl] at hbare

theorem WritesPlaces.respelled {fraction places : List Nat} (h : WritesPlaces (.ofDecimal d) fraction places)
    (hbare : d = .period → d' = .comma → fraction ≠ [] → places ≠ []) :
    WritesPlaces (.ofDecimal d') (respell d d' fraction) places := by
  cases h with
  | none => exact .none
  | mark _ hps hcomma =>
    have hmark : respell d d' (unitOf d.char :: places) = unitOf d'.char :: places := by
      rw [← List.singleton_append, respell_append, respell_digits hps]
      simp [respell]
    have hplaces : d' = .comma → places ≠ [] := by
      intro hd'
      cases d with
      | period => exact hbare rfl hd' (by simp)
      | comma => exact hcomma rfl
    exact hmark ▸ .mark places hps hplaces

/-- A number with another decimal mark is written as the same number. -/
theorem Writes.respelled {n : Numeral} (h : Writes (.ofDecimal d) us n) {rest : List Nat}
    (hrest : ∀ u ∈ rest.head?, isDigitUnit u = false)
    (hbare : d = .period → d' = .comma → bareMark d (us ++ rest) = false) :
    Writes (.ofDecimal d') (respell d d' us) n := by
  obtain ⟨sign, fraction, exponent, rfl, hsign, hwhole, hplaces, hexponent, hlength⟩ := h
  refine ⟨sign, respell d d' fraction, exponent, ?_, hsign, hwhole, hplaces.respelled fun hd hd' => ?_, hexponent, ?_⟩
  · rw [respell_append, respell_append, respell_append, respell_sign hsign, respell_digits hwhole,
      respell_exponent hexponent]
  · have hmark := hbare hd hd'
    simp only [List.append_assoc] at hmark
    exact places_of_bareMark hsign hwhole hplaces (head_exponent hexponent hrest) hmark
  · rw [hlength, respell, List.length_map]

/-- A number with another decimal mark, which needs a digit after it if it is a comma, is the same number. -/
theorem IsNumber.respelled {x : Float} (h : IsNumber (.ofDecimal d) us x)
    (hbare : d = .period → d' = .comma → bareMark d us = false) :
    IsNumber (.ofDecimal d') (respell d d' us) x := by
  obtain ⟨n, vs, hvs, hne, ⟨rfl, hx⟩ | ⟨rfl, hx⟩⟩ := h
  · rw [← List.append_nil us] at hbare
    exact ⟨n, _, hvs.respelled (by simp) hbare, hne, .inl ⟨rfl, hx⟩⟩
  · refine ⟨n, _, hvs.respelled (by simp [unitOf, isDigitUnit]) hbare, hne, .inr ⟨?_, hx⟩⟩
    rw [respell_append, respell_percent]

theorem Unsigned.respelled (h : Unsigned us) : Unsigned (respell d d' us) := by
  cases us with
  | nil => exact h
  | cons u us =>
    have hu : u ≠ 45 ∧ u ≠ 43 := by
      constructor <;> rintro rfl <;> cases h
    have hd := unitOf_mark d'
    have hhead : respell d d' (u :: us) = (if u = unitOf d.char then unitOf d'.char else u) :: respell d d' us := rfl
    rw [hhead]
    split
    · exact unsigned_cons (by omega) (by omega) _
    · exact unsigned_cons hu.1 hu.2 _

/-- The spelling with another decimal mark is that of the units with it. -/
theorem substitute_ofUnits (hus : ∀ u ∈ us, u < 0xD800) :
    Expression.substitute d.char d'.char (Text.ofUnits us) = Text.ofUnits (respell d d' us) := by
  have hrespelled : ∀ u ∈ respell d d' us, u < 0xD800 := by
    intro u hu
    obtain ⟨v, hv, rfl⟩ := List.mem_map.1 hu
    have := unitOf_mark d'
    split
    · omega
    · exact hus v hv
  rw [Expression.substitute, Text.ofUnits, Text.ofUnits, Text.charsOfUnits_eq_map hus,
    Text.charsOfUnits_eq_map hrespelled, String.toList_ofList, respell, List.map_map, List.map_map]
  congr 1
  refine List.map_congr_left fun u hu => ?_
  have hunit : Text.charOfUnit u = d.char ↔ u = unitOf d.char := by
    constructor
    · intro h
      have hu' := Text.unitsOfChar_charOfUnit (hus u hu)
      rw [h] at hu'
      cases d <;> exact (List.cons.inj hu').1.symm
    · rintro rfl
      cases d <;> rfl
  simp only [Function.comp, beq_iff_eq, hunit]
  split
  · cases d' <;> rfl
  · rfl

end Lexeme

/-! ### Trees -/

namespace Arrange

open Expression (kind_respelled)

theorem Arranges.respelled (h : Arranges e stream) : Arranges (respelled d d' e) (stream.map (respelled d d')) := by
  induction h with
  | operand e he => exact .operand _ ((kind_respelled e).1.trans he)
  | unary p s a us hs ha _ ih => exact .unary p s _ _ hs ((kind_respelled a).2.1.trans ha) ih
  | binary p s a b us vs _ _ iha ihb =>
    rw [List.map_append]
    exact .binary p s _ _ _ _ iha ihb

theorem Heads.respelled {P : Nat → Prop} (h : Heads P e) : Heads P (respelled d d' e) := by
  cases e with
  | binary => exact h
  | _ => exact heads_of_not_binary (kind_respelled _).2.1 P

theorem Ranked.respelled (h : Arranges e stream) (hranked : Ranked e) : Ranked (respelled d d' e) := by
  induction h with
  | operand e he =>
    have he' : (Expression.respelled d d' e).isOperand = true := (kind_respelled e).1.trans he
    exact ranked_of_arranges_not_binary (.operand _ he') (Expression.not_of_isOperand he').1
  | unary p s a us _ _ _ ih => exact ih hranked
  | binary p s a b us vs _ _ iha ihb =>
    obtain ⟨ha, hb, hleft, hright⟩ := hranked
    exact ⟨ha.respelled, hb.respelled, iha hleft, ihb hright⟩

/-- A respelled stream makes the respelled tree. -/
theorem units_respelled (h : units stream = .ok e) (hflat : IsFlat stream) :
    units (stream.map (respelled d d')) = .ok (respelled d d' e) := by
  have harranged := arranges_units h hflat
  rw [units_of_arranges harranged.respelled,
    grow_steps harranged.respelled (Ranked.respelled harranged (ranked_units h hflat))]

/-- The operands of a tree are units of it. -/
theorem Arranges.units_subset (h : Arranges e stream) :
    ∀ u ∈ stream, u.isAnyOperator = true ∨ u.units ⊆ e.units := by
  induction h with
  | operand e he => exact List.forall_mem_singleton.2 (.inr (List.Subset.refl _))
  | unary p s a us _ _ _ ih =>
    refine List.forall_mem_cons.2 ⟨.inl rfl, fun u hu => (ih u hu).imp_right fun h => ?_⟩
    exact List.Subset.trans h Expression.units_operand
  | binary p s a b us vs _ _ iha ihb =>
    intro u hu
    rcases List.mem_append.1 hu with hu | hu
    · exact (iha u hu).imp_right fun h => List.Subset.trans h Expression.units_left
    · rcases List.mem_cons.1 hu with rfl | hu
      · exact .inl rfl
      · exact (ihb u hu).imp_right fun h => List.Subset.trans h Expression.units_right

end Arrange

/-- No number of the expression has a decimal point without a digit after it that is to become a comma. -/
def KeepsMarks (d d' : DecimalMark) (e : Expression) : Prop :=
  d = .period → d' = .comma → ∀ u ∈ e.units, u.hasBareMark d = false

theorem KeepsMarks.mono (h : KeepsMarks d d' e) (ha : a.units ⊆ e.units) : KeepsMarks d d' a :=
  fun hd hd' u hu => h hd hd' u (ha hu)

theorem KeepsMarks.of_operator (hu : u.isAnyOperator = true) : KeepsMarks d d' u := by
  intro _ _ v hv
  cases u with
  | operator p s =>
    have hunits : (Expression.operator p s).units = [.operator p s] := rfl
    obtain rfl := List.mem_singleton.1 (hunits ▸ hv)
    rfl
  | _ => cases hu

theorem IsSettled.respelled (h : IsSettled (.ofDecimal d) u) : IsSettled (.ofDecimal d') (respelled d d' u) := by
  obtain ⟨himaginary, hcolon⟩ := h
  cases u with
  | literal p v spelling => cases v <;> cases spelling <;> exact ⟨rfl, rfl⟩
  | _ => exact ⟨himaginary, hcolon⟩

mutual

theorem isUnit_respelled {first : Bool} {u : Expression} (h : IsUnit (.ofDecimal d) first u)
    (hmarks : KeepsMarks d d' u) : IsUnit (.ofDecimal d') first (respelled d d' u) :=
  match h with
  | .text first p s => .text first p s
  | .boolean first p b => .boolean first p b
  | .number first p us x hx hunsigned => by
    have hus : ∀ u ∈ us, u < 0xD800 := by
      intro u hu
      have hunit := hx.isNumberUnit u hu
      unfold Lexeme.IsNumberUnit at hunit
      omega
    have hnumber : Lexeme.IsNumber (.ofDecimal d') (respell d d' us) x := hx.respelled fun hd hd' => by
      have hmark := hmarks hd hd' _ (Expression.mem_units _)
      rwa [hasBareMark, hx.units_ofUnits] at hmark
    rw [respelled, Lexeme.substitute_ofUnits hus]
    exact .number first p _ x hnumber fun hfirst => (hunsigned hfirst).respelled
  | .imaginary first p y spelling => .imaginary first p y spelling
  | .complex first p z spelling hfirst => .complex first p z spelling hfirst
  | .cell first m hm => .cell first m hm
  | .range first p r hr => .range first p r hr
  | .identifier first p name hname hcell => .identifier first p name hname hcell
  | .operator first p s hs => .operator first p s hs
  | .call first p name args hname hargs => by
    rw [respelled, Expression.respelledAll_eq]
    refine .call first p name _ hname fun a ha => ?_
    obtain ⟨b, hb, rfl⟩ := List.mem_map.1 ha
    exact isArgument_respelled (hargs b hb) (hmarks.mono (Expression.units_argument hb))
  | .group first p e he => .group first p (respelled d d' e)
      (isTree_respelled he (hmarks.mono (Expression.units_item (List.mem_singleton_self e))))
  | .array first p columns height harray => .array first p columns height harray

theorem isStream_respelled {first : Bool} {us : List Expression} (h : IsStream (.ofDecimal d) first us)
    (hmarks : ∀ u ∈ us, KeepsMarks d d' u) : IsStream (.ofDecimal d') first (us.map (respelled d d')) :=
  match h with
  | .nil first => .nil first
  | .cons first u us hu hus => .cons first (respelled d d' u) _ (isUnit_respelled hu (hmarks u List.mem_cons_self))
      (isStream_respelled hus fun v hv => hmarks v (List.mem_cons_of_mem u hv))

theorem isArgument_respelled {a : Expression} (h : IsArgument (.ofDecimal d) a) (hmarks : KeepsMarks d d' a) :
    IsArgument (.ofDecimal d') (respelled d d' a) :=
  match h with
  | .missing p => .missing p
  | .tree e he => .tree (respelled d d' e) (isTree_respelled he hmarks)

/-- A tree with its numbers respelled is a tree of formulas with the other decimal mark. -/
theorem isTree_respelled {e : Expression} (h : IsTree (.ofDecimal d) e) (hmarks : KeepsMarks d d' e) :
    IsTree (.ofDecimal d') (respelled d d' e) :=
  match h with
  | .intro stream e hstream hsettled hunits => by
    have hflat := isFlat_of_stream hstream
    have hstream' : ∀ u ∈ stream, KeepsMarks d d' u := by
      intro u hu
      rcases (Arrange.arranges_units hunits hflat).units_subset u hu with hoperator | hsubset
      · exact .of_operator hoperator
      · exact hmarks.mono hsubset
    refine .intro _ _ (isStream_respelled hstream hstream') (fun u hu => ?_) (Arrange.units_respelled hunits hflat)
    obtain ⟨v, hv, rfl⟩ := List.mem_map.1 hu
    exact (hsettled v hv).respelled

end

/-! ### Formulas -/

/-- A formula without faults that its text gives back is found again, too, where its text is written with the decimal
mark and the separator of another locale and read there. A decimal point that becomes a comma needs a digit after it. -/
theorem parse_render_withLocale {text : String} {e₁ : Expression} (hvalid : (parse (.ofDecimal d) text).error = none)
    (he : (parse (.ofDecimal d) text).expression = some e)
    (hvalid₁ : (parse (.ofDecimal d) (e.render (.ofDecimal d) {})).error = none)
    (he₁ : (parse (.ofDecimal d) (e.render (.ofDecimal d) {})).expression = some e₁)
    (hsame : e₁.sameStructure e = true)
    (hmarks : d = .period → d' = .comma → ∀ u ∈ e.units, u.hasBareMark d = false) :
    (parse (.ofDecimal d') (e.render (.ofDecimal d) (({} : RenderOptions).withLocale d'))).error = none ∧
      ∃ e', (parse (.ofDecimal d') (e.render (.ofDecimal d) (({} : RenderOptions).withLocale d'))).expression =
        some e' ∧ e'.sameStructure e = true := by
  have htree := isTree_of_parse (.inl rfl) hvalid he
  obtain ⟨hgood, hkeeps⟩ := legible_of_reproduced (.inl rfl) htree hvalid₁ he₁ hsame
  obtain ⟨stream, hstream, hreads⟩ := reads_of_isTree (.inl rfl) (isTree_respelled htree hmarks) hgood.respelled
    hkeeps.respelled
  have hparse := hreads.parse_eq hstream
  have htext : (respelled d d' e).render (.ofDecimal d') { rows := inPlace.rows, columns := inPlace.columns } =
      e.render (.ofDecimal d) (({} : RenderOptions).withLocale d') := Expression.render_respelled d d' e
  rw [htext] at hparse
  obtain ⟨herror, e', he', hmoves⟩ := hparse
  refine ⟨herror, e', he', ?_⟩
  have hsame' : e'.sameStructure ((respelled d d' e).moved 0 0) = true := hmoves.sameStructure
  rwa [Expression.moved_zero, Expression.sameStructure_respelled] at hsame'

/-- Marks in front of digits and between them, beside an exponent and a percent sign, in an argument and in an array. -/
theorem parse_render_withLocale_sum :
    ∃ e, (parse (.ofDecimal .period) "=SUM(1.5, .5e1%, \x7b0.5, 2\x7d)").expression = some e ∧
    e.render (.ofDecimal .period) (({} : RenderOptions).withLocale .comma) = "SUM(1,5; ,5e1%; \x7b0,5, 2\x7d)" ∧
    (parse (.ofDecimal .comma) (e.render (.ofDecimal .period) (({} : RenderOptions).withLocale .comma))).error = none ∧
      ∃ e', (parse (.ofDecimal .comma)
        (e.render (.ofDecimal .period) (({} : RenderOptions).withLocale .comma))).expression = some e' ∧
          e'.sameStructure e = true := by
  obtain ⟨e, he⟩ := Option.isSome_iff_exists.1 (show
    (parse (.ofDecimal .period) "=SUM(1.5, .5e1%, \x7b0.5, 2\x7d)").expression.isSome = true by decide +kernel)
  have hchecked : ∀ e ∈ (parse (.ofDecimal .period) "=SUM(1.5, .5e1%, \x7b0.5, 2\x7d)").expression,
      e.render (.ofDecimal .period) (({} : RenderOptions).withLocale .comma) = "SUM(1,5; ,5e1%; \x7b0,5, 2\x7d)" ∧
        (parse (.ofDecimal .period) (e.render (.ofDecimal .period) {})).error = none ∧
        (∃ e₁ ∈ (parse (.ofDecimal .period) (e.render (.ofDecimal .period) {})).expression,
          e₁.sameStructure e = true) ∧ ∀ u ∈ e.units, u.hasBareMark .period = false := by
    decide +kernel
  obtain ⟨htext, hvalid₁, ⟨e₁, he₁, hsame⟩, hmarks⟩ := hchecked e he
  exact ⟨e, he, htext, parse_render_withLocale (by decide +kernel) he hvalid₁ he₁ hsame fun _ _ => hmarks⟩

/-- A decimal point without digits after it is read, also from the text that gives the formula back; the comma in its
place is not. -/
theorem bareMark_unread : ∃ e, (parse (.ofDecimal .period) "=1.").expression = some e ∧
    (parse (.ofDecimal .period) "=1.").error = none ∧
    (parse (.ofDecimal .period) (e.render (.ofDecimal .period) {})).error = none ∧
    (∃ e₁ ∈ (parse (.ofDecimal .period) (e.render (.ofDecimal .period) {})).expression,
      e₁.sameStructure e = true) ∧
    e.render (.ofDecimal .period) (({} : RenderOptions).withLocale .comma) = "1," ∧
    (parse (.ofDecimal .comma)
      (e.render (.ofDecimal .period) (({} : RenderOptions).withLocale .comma))).error ≠ none := by
  obtain ⟨e, he⟩ := Option.isSome_iff_exists.1 (show (parse (.ofDecimal .period) "=1.").expression.isSome = true by
    decide +kernel)
  have hchecked : ∀ e ∈ (parse (.ofDecimal .period) "=1.").expression,
      (parse (.ofDecimal .period) (e.render (.ofDecimal .period) {})).error = none ∧
        (∃ e₁ ∈ (parse (.ofDecimal .period) (e.render (.ofDecimal .period) {})).expression,
          e₁.sameStructure e = true) ∧
        e.render (.ofDecimal .period) (({} : RenderOptions).withLocale .comma) = "1," ∧
        (parse (.ofDecimal .comma)
          (e.render (.ofDecimal .period) (({} : RenderOptions).withLocale .comma))).error ≠ none := by
    decide +kernel
  exact ⟨e, he, by decide +kernel, hchecked e he⟩

end Formula

end Spreadsheet
