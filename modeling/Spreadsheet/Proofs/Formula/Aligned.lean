import Spreadsheet.Proofs.Formula.Rendered
import Spreadsheet.Proofs.Formula.Single

/-!
Texts that are read as the expressions they were written for. A derivation of the text of an expression that gives the
same structure follows the units of the expression one by one, so nothing in them keeps the text from being read.
-/

namespace Spreadsheet

namespace Expression

variable {t : Rereading} {e : Expression}

/-- An expression can be read again if its parts and what holds them together can. -/
theorem Legible.of_parts (parts : List Expression) (hunits : e.units = e :: parts.flatMap units)
    (hcell : ∀ m, e ≠ .cell m) (hlast : e.endsInMissing = false) (hsigns : ∀ a ∈ e.enclosed, a.KeepsSign t)
    (hprinted : ∀ x ∈ e.printed, x.isFinite = true ∧ Number.ReadsBackAs t.number x)
    (hparts : ∀ a ∈ parts, Legible t a) : Legible t e := by
  have hcases {u : Expression} (hu : u ∈ e.units) : u = e ∨ ∃ a ∈ parts, u ∈ a.units := by
    rw [hunits, List.mem_cons, List.mem_flatMap] at hu
    exact hu
  have hmention {m : Mention} (hm : m ∈ e.mentions) : ∃ a ∈ parts, m ∈ a.mentions := by
    obtain ⟨u, hu, hum⟩ := List.mem_filterMap.1 hm
    rcases hcases hu with rfl | ⟨a, ha, hua⟩
    · split at hum
      · exact absurd rfl (hcell _)
      · cases hum
    · exact ⟨a, ha, List.mem_filterMap.2 ⟨u, hua, hum⟩⟩
  constructor
  · intro u hu
    rcases hcases hu with rfl | ⟨a, ha, hua⟩
    · exact hlast
    · exact (hparts a ha).arguments u hua
  · intro u hu
    rcases hcases hu with rfl | ⟨a, ha, hua⟩
    · exact hsigns
    · exact (hparts a ha).signs u hua
  · intro m hm
    obtain ⟨a, ha, hma⟩ := hmention hm
    exact (hparts a ha).sheets m hma
  · intro m hm
    obtain ⟨a, ha, hma⟩ := hmention hm
    exact (hparts a ha).fits m hma
  · intro u hu x hx
    rcases hcases hu with rfl | ⟨a, ha, hua⟩
    · exact (hprinted x hx).1
    · exact (hparts a ha).finite u hua x hx
  · intro u hu x hx
    rcases hcases hu with rfl | ⟨a, ha, hua⟩
    · exact (hprinted x hx).2
    · exact (hparts a ha).digits u hua x hx

/-- A unit that has no parts can be read again if its numbers can. -/
theorem Legible.of_unit (hunits : e.units = [e]) (hcell : ∀ m, e ≠ .cell m) (hlast : e.endsInMissing = false)
    (henclosed : e.enclosed = []) (hprinted : ∀ x ∈ e.printed, x.isFinite = true ∧ Number.ReadsBackAs t.number x) :
    Legible t e :=
  .of_parts [] hunits hcell hlast (by simp [henclosed]) hprinted (by simp)

theorem Legible.of_cell {m : Mention} (hkept : m.target.IsKept)
    (hfits : (m.target.shift? t.rows t.columns).isSome = true) : Legible t (.cell m) where
  arguments := by simp [units_cell, endsInMissing]
  signs := by simp [units_cell, enclosed]
  sheets := by simpa [mentions, units_cell] using hkept
  fits := by simpa [mentions, units_cell] using fun _ => hfits
  finite := by simp [units_cell, printed]
  digits := by simp [units_cell, printed]

end Expression

namespace Formula

open Expression (Legible renderNumber)
open Rereading (inPlace)
open Reader (written ReadsAs)
open Lexeme (Stops Writes IsWord startsNumber Unsigned)

/-! ### Streams of the same structure -/

namespace Arrange

variable {e e' : Expression} {us ws : List Expression}

theorem isOperand_eq_of_sameStructure (h : e'.sameStructure e = true) : e'.isOperand = e.isOperand := by
  cases e' <;> cases e <;> first | rfl | cases h

/-- Expressions of the same structure have streams of the same structure. -/
theorem Arranges.same (h : Arranges e us) (h' : Arranges e' ws) (hsame : e'.sameStructure e = true) :
    List.Forall₂ (fun w u => w.sameStructure u = true) ws us := by
  induction h generalizing e' ws with
  | operand e he =>
    have hoperand := (isOperand_eq_of_sameStructure hsame).trans he
    cases h' with
    | operand => exact .cons hsame .nil
    | unary => cases hoperand
    | binary => cases hoperand
  | unary p s a us _ _ _ ih =>
    cases h' with
    | operand e' he' => cases he'.symm.trans (isOperand_eq_of_sameStructure hsame)
    | unary q s' a' ws _ _ ha' =>
      obtain ⟨hs, ha⟩ := Bool.and_eq_true_iff.1 hsame
      exact .cons hs (ih ha' ha)
    | binary => cases hsame
  | binary p s a b us vs _ _ iha ihb =>
    cases h' with
    | operand e' he' => cases he'.symm.trans (isOperand_eq_of_sameStructure hsame)
    | unary => cases hsame
    | binary q s' a' b' us' vs' ha' hb' =>
      obtain ⟨hsa, hb⟩ := Bool.and_eq_true_iff.1 hsame
      obtain ⟨hs, ha⟩ := Bool.and_eq_true_iff.1 hsa
      exact List.rel_append (iha ha' ha) (.cons hs (ihb hb' hb))

end Arrange

variable {locale : Locale} {first : Bool} {us rest out : List Nat} {u v w a e : Expression}
  {vs ws stream : List Expression}

/-! ### Texts in front of what stops them -/

/-- The label of a mention that is delivered first keeps its sheet and is delivered as a whole. -/
theorem Delivers.of_label (hi : locale.imaginary = 'i' ∨ locale.imaginary = 'j') {b : Reference} {m : Mention}
    (hb : b.IsCell ∨ b.IsRow ∨ b.IsColumn) (hrest : Stops rest)
    (hm : v = .cell m ∨ Mention.ofUnit? v = some m) (htarget : m.target = b)
    (h : Delivers locale first (Text.units b.spelling ++ rest) (v :: vs) out) :
    b.IsKept ∧ Delivers locale false rest vs out := by
  have hkept := h.isKept (isPlaced hb) hm htarget
  refine ⟨hkept, ?_⟩
  rcases hb with hcell | haxis
  · exact (h.of_reads (Reader.reads_cell locale first hcell hkept) hrest).2
  · exact (h.of_reads (Reader.reads_axis first hi haxis hkept) hrest).2

/-- A word that starts with one of these capitals is no part of a complex number. -/
theorem Delivers.of_capital {n : Nat} (hi : locale.imaginary = 'i' ∨ locale.imaginary = 'j') (hn : n = 73 ∨ n = 78)
    (h : Delivers locale first (n :: us) (v :: vs) out) :
    v.isJoint = false ∧ Fold.imaginaryPart? locale v = none ∧ ∀ p x spelling, v ≠ .literal p (.number x) spelling := by
  have hstart : isWordStart n = true := by rcases hn with rfl | rfl <;> rfl
  have hword (p : Nat) : Lexeme.read locale first p n us = Lexeme.word p n us := Lexeme.read_word hstart p us
  have hnot {p k : Nat} {l : Lexeme} (hread : Lexeme.read locale first p n us = (l, k)) :
      (∃ e fault, l = .atom e fault) ∨ ∃ name openAt, l = .call name openAt := by
    rw [hword] at hread
    rcases Lexeme.word_cases hstart p us with ⟨_, _, _, h⟩ | ⟨_, _, h⟩ | ⟨_, _, -, h | ⟨_, h⟩⟩
    all_goals
      rw [h] at hread
      cases hread
      simp
  generalize hall : v :: vs = all at h
  cases h with
  | nil => cases hall
  | space _ p _ _ _ _ _ hread | operator _ p _ _ _ _ _ _ _ hread | array _ p _ _ _ _ _ _ _ hread =>
    rcases hnot hread with ⟨_, _, h⟩ | ⟨_, _, h⟩ <;> cases h
  | atom _ p _ k _ e _ _ hread =>
    obtain ⟨rfl, -⟩ := List.cons.inj hall
    rw [hword] at hread
    rcases (word_front hread hstart).2 with ⟨b, rfl⟩ | ⟨-, rfl⟩
    · exact ⟨rfl, rfl, by simp⟩
    · unfold Lexeme.wordAtom
      split
      · exact ⟨rfl, rfl, by simp⟩
      · refine ⟨rfl, if_neg fun hname => ?_, by simp⟩
        have hunits := congrArg Text.units (eq_of_beq hname)
        rw [Lexeme.units_word hstart] at hunits
        have hunit : Text.units locale.imaginary.toString = [unitOf locale.imaginary] := by
          rcases hi with h | h <;> rw [h] <;> rfl
        have hhead := (List.cons.inj (hunits.trans hunit)).1
        rcases hi with h | h <;> rcases hn with rfl | rfl <;> rw [h] at hhead <;> cases hhead
  | group | blank => simp at hn
  | call =>
    obtain ⟨rfl, -⟩ := List.cons.inj hall
    exact ⟨rfl, rfl, by simp⟩

/-! ### Units -/

/-- Where the text of the unit is delivered as what has the same structure, the unit can be read again, and what is
delivered next is what stands after the text. -/
def Aligns (locale : Locale) (first : Bool) (u : Expression) : Prop :=
  ∀ rest out vs w ws, Stops rest → Delivers locale first (written inPlace locale u ++ rest) vs out →
    Pieces locale vs (w :: ws) → w.sameStructure u = true →
    Legible inPlace u ∧ ∃ vs', Delivers locale false rest vs' out ∧ Pieces locale vs' ws

theorem isJoint_eq_of_same (h : w.sameStructure u = true) : w.isJoint = u.isJoint := by
  cases w <;> cases u <;> first | rfl | cases h

/-- A text that is read as one unit is delivered as one. -/
theorem aligns_of_reads {P : Expression → Prop} (hread : ReadsAs locale first (written inPlace locale u) P)
    (hplain : u.isJoint = false) (hgood : Legible inPlace u) : Aligns locale first u := by
  intro rest out vs w ws hrest hd hpieces hsame
  obtain ⟨vs', rfl, hpieces'⟩ := hpieces.of_plain ((isJoint_eq_of_same hsame).trans hplain)
  exact ⟨hgood, vs', (hd.of_reads hread hrest).2, hpieces'⟩

theorem aligns_text (p : Nat) (s : String) : Aligns locale first (.literal p (.text s) none) :=
  aligns_of_reads (Reader.reads_text locale first s) rfl (.of_unit rfl (by simp) rfl rfl (by simp [Expression.printed]))

theorem aligns_boolean (p : Nat) (b : Bool) : Aligns locale first (.literal p (.boolean b) none) := by
  refine aligns_of_reads (Reader.reads_boolean locale first b) rfl ?_
  exact .of_unit rfl (by simp) rfl rfl (by simp [Expression.printed])

theorem aligns_number (hi : locale.imaginary = 'i' ∨ locale.imaginary = 'j') (p : Nat) {x : Float}
    (hx : Lexeme.IsNumber locale us x) (hfirst : first = false → Unsigned us) :
    Aligns locale first (.literal p (.number x) (some (Text.ofUnits us))) := by
  have hread := Reader.reads_number hi hx hfirst
  rw [← Reader.written_number (t := inPlace) p hx] at hread
  exact aligns_of_reads hread rfl (.of_unit rfl (by simp) rfl rfl (by simp [Expression.printed]))

theorem aligns_identifier (p : Nat) {name : String} (hname : IsWord name)
    (hcell : ∀ q, Mention.ofCellWord? name.toList q = none) : Aligns locale first (.identifier p name) :=
  aligns_of_reads (Reader.reads_identifier hname hcell) rfl
    (.of_unit rfl (by simp) rfl rfl (by simp [Expression.printed]))

theorem legible_cell {m : Mention} (hkept : m.target.IsKept)
    (hm : m.target.IsCell ∨ m.target.IsRow ∨ m.target.IsColumn) : Legible inPlace (.cell m) :=
  .of_cell hkept (Option.isSome_of_eq_some (shift?_inPlace hm))

theorem aligns_cell (hi : locale.imaginary = 'i' ∨ locale.imaginary = 'j') {m : Mention} (hm : m.target.IsCell) :
    Aligns locale first (.cell m) := by
  intro rest out vs w ws hrest hd hpieces hsame
  obtain ⟨vs', rfl, hpieces'⟩ := hpieces.of_plain (isJoint_eq_of_same hsame)
  obtain ⟨n, rfl, htarget⟩ : ∃ n, w = .cell n ∧ n.target = m.target := by
    cases w <;> first | exact ⟨_, rfl, eq_of_beq hsame⟩ | cases hsame
  rw [Reader.written_cell (shift?_inPlace (.inl hm))] at hd
  obtain ⟨hkept, hnext⟩ := hd.of_label hi (.inl hm) hrest (.inl rfl) htarget
  exact ⟨legible_cell hkept (.inl hm), vs', hnext, hpieces'⟩

/-- The corners of a range that has been delivered, and the text after the colon. -/
theorem Delivers.of_first (hi : locale.imaginary = 'i' ∨ locale.imaginary = 'j') {b : Reference} {m : Mention} {q : Nat}
    (hb : b.IsCell ∨ b.IsRow ∨ b.IsColumn) (hm : v = .cell m ∨ Mention.ofUnit? v = some m) (htarget : m.target = b)
    (h : Delivers locale first (Text.units b.spelling ++ 58 :: us) (v :: .operator q ":" :: vs) out) :
    b.IsKept ∧ Delivers locale false us vs out := by
  obtain ⟨hkept, hcolon⟩ := h.of_label hi hb (stops_mark (.inr (.inl rfl)) us) hm htarget
  exact ⟨hkept, (hcolon.of_colon rfl (by simp)).2⟩

theorem legible_range {r : RangeMention} (hr : IsRange r) (hfirst : r.first.target.IsKept) (hlast : r.last.target.IsKept)
    (p : Nat) : Legible inPlace (.range p r) := by
  refine .of_parts [.cell r.first, .cell r.last] rfl (by simp) rfl (by simp [Expression.enclosed])
    (by simp [Expression.printed]) ?_
  rw [List.forall_mem_cons, List.forall_mem_singleton]
  exact ⟨legible_cell hfirst hr.corners.1, legible_cell hlast hr.corners.2⟩

theorem same_range {p q : Nat} {r r' : RangeMention} (h : (Expression.range q r').sameStructure (.range p r) = true) :
    r'.first.target = r.first.target ∧ r'.last.target = r.last.target := by
  obtain ⟨hfirst, hlast⟩ := Bool.and_eq_true_iff.1 h
  exact ⟨eq_of_beq hfirst, eq_of_beq hlast⟩

theorem aligns_range (hi : locale.imaginary = 'i' ∨ locale.imaginary = 'j') (p : Nat) {r : RangeMention}
    (hr : IsRange r) : Aligns locale first (.range p r) := by
  intro rest out vs w ws hrest hd hpieces hsame
  obtain ⟨q, r', rfl⟩ : ∃ q r', w = .range q r' := by
    cases w <;> first | exact ⟨_, _, rfl⟩ | cases hsame
  obtain ⟨htarget, htarget'⟩ := same_range hsame
  obtain ⟨hfirst, hlast⟩ := hr.corners
  rw [Reader.written_range p (shift?_inPlace hfirst) (shift?_inPlace hlast), List.append_assoc,
    List.cons_append] at hd
  rcases hpieces.of_range with ⟨vs', rfl, -⟩ | ⟨k, a, b, log, log', vs', rfl, hrange, hpieces'⟩
  · obtain ⟨u, us, hunits, hspace, hu⟩ := head_label (isPlaced hfirst)
    rw [hunits, List.cons_append] at hd
    exact absurd hd (Delivers.not_range hspace fun h => hu (by simp [h]))
  · obtain ⟨m, n, rfl, hm, hn⟩ := mentions_of_range hrange
    obtain ⟨hkept, hd'⟩ := hd.of_first hi hfirst hm htarget
    obtain ⟨hkept', hnext⟩ := hd'.of_label hi hlast hrest hn htarget'
    exact ⟨legible_range hr hkept hkept' p, vs', hnext, hpieces'⟩

/-! ### Complex numbers -/

/-- A sign that belongs to no number is delivered as an operator. -/
theorem Delivers.of_sign {s : String} {n : Nat} (hs : Operator.isSign s = true) (hn : Text.units s = [n])
    (hhead : us.head? ≠ some 61 ∧ us.head? ≠ some 62) (hfirst : first = true → startsNumber locale us = false)
    (h : Delivers locale first (n :: us) (v :: vs) out) :
    (∃ p, v = .operator p s) ∧ Delivers locale false us vs out := by
  have hmem : s ∈ Operator.longestFirst := by
    have hcases : s = "-" ∨ s = "+" := by simpa [Operator.isSign] using hs
    rcases hcases with rfl | rfl <;> simp [Operator.longestFirst]
  refine Delivers.of_operator hmem hhead.1 hhead.2 (fun hf _ => hfirst hf) ?_
  rwa [hn]

/-- The text of a number that is not finite starts, perhaps behind a minus, with a capital letter. -/
theorem units_renderNumber_of_not_finite (locale : Locale) {x : Float} (hx : x.isFinite = false) :
    (∃ n us, Text.units (renderNumber locale x) = n :: us ∧ n = 78 ∧ ¬0 ≤ x) ∨
      (∃ n us, Text.units (renderNumber locale x) = n :: us ∧ n = 73 ∧ 0 ≤ x) ∨
      ∃ us, Text.units (renderNumber locale x) = 45 :: 73 :: us ∧ ¬0 ≤ x := by
  rcases Expression.renderNumber_of_not_finite locale hx with ⟨h, hle⟩ | ⟨h, hle⟩ | ⟨h, hle⟩
  · exact .inl ⟨_, _, congrArg Text.units h, rfl, hle⟩
  · exact .inr (.inl ⟨_, _, congrArg Text.units h, rfl, hle⟩)
  · exact .inr (.inr ⟨_, congrArg Text.units h, hle⟩)

/-- No complex number is made of the text of a number that is not finite. -/
theorem finite_real (hi : locale.imaginary = 'i' ∨ locale.imaginary = 'j') {x : Float} {p : Nat} {z : Complex}
    {spelling : Option String} (h : Delivers locale first (Text.units (renderNumber locale x) ++ us) vs out)
    (hpieces : Pieces locale vs (.complex p z spelling :: ws)) : x.isFinite = true := by
  by_contra hx
  rw [Bool.not_eq_true] at hx
  cases vs with
  | nil => cases hpieces
  | cons v vs =>
    have hnot {n : Nat} {ns : List Nat} (hn : n = 73 ∨ n = 78)
        (hd : Delivers locale first (n :: ns) (v :: vs) out) : False := by
      obtain ⟨hjoint, hpart, hnumber⟩ := hd.of_capital hi hn
      rcases hpieces.of_complex with hsome | ⟨z, rfl⟩ | ⟨k, y, spelling', _, _, _, _, rfl, -⟩
      · rw [hpart] at hsome
        cases hsome
      · cases hjoint
      · exact hnumber k y spelling' rfl
    rcases units_renderNumber_of_not_finite locale hx with ⟨n, ns, hns, rfl, -⟩ | ⟨n, ns, hns, rfl, -⟩ | ⟨ns, hns, -⟩
    · rw [hns] at h
      exact hnot (.inr rfl) h
    · rw [hns] at h
      exact hnot (.inl rfl) h
    · rw [hns] at h
      have hcapital : startsNumber locale ([73] ++ (ns ++ us)) = false :=
        startsNumber_of_plain ⟨73, rfl, by simp [IsPlain, isDigitUnit]⟩ _
      obtain ⟨⟨q, rfl⟩, -⟩ := h.of_sign (s := "-") rfl rfl (by simp) fun _ => hcapital
      obtain ⟨h, -⟩ := hpieces.of_operator
      cases h

/-- The text after the real part of a complex number. -/
def writtenImaginary (locale : Locale) (y : Float) : List Nat :=
  Text.units (if 0 ≤ y then "+" else "") ++ (Text.units (renderNumber locale y) ++ [unitOf locale.imaginary])

theorem written_complex_eq (hi : locale.imaginary = 'i' ∨ locale.imaginary = 'j') (p : Nat) (z : Complex)
    (spelling : Option String) : written inPlace locale (.complex p z spelling) =
      Text.units (renderNumber locale z.real) ++ writtenImaginary locale z.imaginary := by
  have hunit : Text.units locale.imaginary.toString = [unitOf locale.imaginary] := by
    rcases hi with h | h <;> rw [h] <;> rfl
  have htext : written inPlace locale (.complex p z spelling) = Text.units (Expression.renderComplex locale z) := rfl
  simp only [htext, Expression.renderComplex, Text.units_append, hunit, writtenImaginary, List.append_assoc]

/-- What follows a real part is a sign, or the capital letter of what is no number. -/
theorem head_writtenImaginary (locale : Locale) (y : Float) :
    ∃ n ns, writtenImaginary locale y = n :: ns ∧ (n = unitOf '+' ∨ n = unitOf '-' ∨ n = unitOf 'N') := by
  by_cases hle : 0 ≤ y
  · exact ⟨_, _, by rw [writtenImaginary, if_pos hle]; rfl, .inl rfl⟩
  rw [writtenImaginary, if_neg hle]
  cases hy : y.isFinite with
  | true =>
    have hback : Number.ReadsBackAs inPlace.number y := Number.readsBack_of_isFinite hy
    obtain ⟨whole, places, -, -, -, htext, -⟩ := Expression.renderNumber_eq locale hback hy
    have hnegative : y < 0 := by simpa [Number.le_iff_of_isFinite hy] using hle
    rw [decide_eq_true hnegative] at htext
    exact ⟨_, _, by rw [Text.units, Text.units, htext]; rfl, .inr (.inl rfl)⟩
  | false =>
    rcases units_renderNumber_of_not_finite locale hy with ⟨n, ns, hns, rfl, -⟩ | ⟨_, _, -, -, hle'⟩ | ⟨ns, hns, -⟩
    · exact ⟨_, _, by rw [hns]; rfl, .inr (.inr rfl)⟩
    · exact absurd hle' hle
    · exact ⟨_, _, by rw [hns]; rfl, .inr (.inl rfl)⟩

/-- No complex number has an imaginary part that is not finite. -/
theorem finite_imaginary (hi : locale.imaginary = 'i' ∨ locale.imaginary = 'j') {y : Float} {p : Nat} {s : String}
    (hpart : (Fold.imaginaryPart? locale w).isSome = true)
    (h : Delivers locale false (writtenImaginary locale y ++ us) (.operator p s :: w :: vs) out) :
    y.isFinite = true := by
  by_contra hy
  rw [Bool.not_eq_true] at hy
  have hcapital {n : Nat} {ns : List Nat} (hn : n = 73 ∨ n = 78)
      (hd : Delivers locale false (n :: ns) (w :: vs) out) : False := by
    rw [(hd.of_capital hi hn).2.1] at hpart
    cases hpart
  rw [writtenImaginary] at h
  rcases units_renderNumber_of_not_finite locale hy with ⟨n, ns, hns, rfl, hle⟩ | ⟨n, ns, hns, rfl, hle⟩ |
    ⟨ns, hns, hle⟩
  · rw [hns, if_neg hle] at h
    cases (h.of_capital hi (.inr rfl)).1
  · rw [hns, if_pos hle] at h
    exact hcapital (.inl rfl) (h.of_sign (s := "+") rfl rfl (by simp) (by simp)).2
  · rw [hns, if_neg hle] at h
    exact hcapital (.inl rfl) (h.of_sign (s := "-") rfl rfl (by simp) (by simp)).2

/-- A real part is delivered as a number. -/
theorem Delivers.of_realPart (hi : locale.imaginary = 'i' ∨ locale.imaginary = 'j') {n : Lexeme.Numeral} {ns : List Nat}
    {m : Nat} (hns : Writes locale ns n) (hne : n.whole ++ n.places ≠ []) (hexponent : n.exponent = none)
    (hfirst : first = false → Unsigned ns) (hm : m = unitOf '+' ∨ m = unitOf '-' ∨ m = unitOf 'N')
    (h : Delivers locale first (ns ++ m :: us) (v :: vs) out) :
    (∃ q x spelling, v = .literal q (.number x) spelling) ∧ Delivers locale false (m :: us) vs out := by
  obtain ⟨k, ks, rfl, -⟩ := Reader.read_realPart first hi hns hne hexponent hfirst hm us 0
  have hatom := h.of_atom (n := ks.length) (P := fun e => ∃ q x spelling, e = .literal q (.number x) spelling)
    fun p => by
      obtain ⟨_, _, hunits, hread⟩ := Reader.read_realPart first hi hns hne hexponent hfirst hm us p
      obtain ⟨rfl, rfl⟩ := List.cons.inj hunits
      exact ⟨_, hread, _, _, _, rfl⟩
  have hrest : ks.append (m :: us) = ks ++ m :: us := rfl
  rwa [hrest, List.drop_left] at hatom

/-- An imaginary part is delivered as a whole. -/
theorem Delivers.of_imaginaryPart (hi : locale.imaginary = 'i' ∨ locale.imaginary = 'j') {n : Lexeme.Numeral}
    {ns : List Nat} (hns : Writes locale ns n) (hne : n.whole ++ n.places ≠ []) (hexponent : n.exponent = none)
    (hunsigned : Unsigned ns) (h : Delivers locale first (ns ++ unitOf locale.imaginary :: us) (v :: vs) out) :
    Delivers locale false us vs out := by
  obtain ⟨k, ks, rfl, -⟩ := Reader.read_imaginaryPart first hi hns hne hexponent hunsigned us 0
  have hatom := h.of_atom (n := ks.length + 1) (P := fun _ => True) fun p => by
    obtain ⟨_, _, hunits, hread⟩ := Reader.read_imaginaryPart first hi hns hne hexponent hunsigned us p
    obtain ⟨rfl, rfl⟩ := List.cons.inj hunits
    exact ⟨_, hread, trivial⟩
  have hrest : ks.append (unitOf locale.imaginary :: us) = ks ++ unitOf locale.imaginary :: us := rfl
  rw [hrest, ← List.drop_drop, List.drop_left] at hatom
  exact hatom.2

theorem aligns_complex (hi : locale.imaginary = 'i' ∨ locale.imaginary = 'j') (p : Nat) {z : Complex}
    (spelling : Option String) (hfirst : first = false → Number.sign? z.real = some .positive) :
    Aligns locale first (.complex p z spelling) := by
  intro rest out vs w ws hrest hd hpieces hsame
  obtain ⟨k, z', spelling', rfl⟩ : ∃ k z' spelling', w = .complex k z' spelling' := by
    cases w <;> first | exact ⟨_, _, _, rfl⟩ | cases hsame
  cases vs with
  | nil => cases hpieces
  | cons v vs =>
    have hparts (h : ∃ q x spelling, v = .literal q (.number x) spelling) : ∃ q s c vs', vs = .operator q s :: c :: vs' ∧
        Operator.isSign s = true ∧ (Fold.imaginaryPart? locale c).isSome = true ∧ Pieces locale vs' ws := by
      obtain ⟨q, x, spelling, rfl⟩ := h
      rcases hpieces.of_complex with hpart | ⟨_, h⟩ | ⟨_, _, _, q, s, c, vs', -, hvs, hsign, hpart, hpieces'⟩
      · cases hpart
      · cases h
      · exact ⟨q, s, c, vs', hvs, hsign, hpart, hpieces'⟩
    have hunsigned {ns : List Nat} (h : ¬z.real < 0 → Unsigned ns) (hf : first = false) : Unsigned ns :=
      h (Number.not_lt_of_positive (hfirst hf))
    -- both parts are finite, for the texts of other numbers are words
    have hreal : z.real.isFinite = true := by
      rw [written_complex_eq hi, List.append_assoc] at hd
      exact finite_real hi hd hpieces
    have hback : Number.ReadsBackAs inPlace.number z.real := Number.readsBack_of_isFinite hreal
    have himaginary : z.imaginary.isFinite = true := by
      obtain ⟨n, hns, hne, hexponent, -, hpositive⟩ := Lexeme.writes_renderNumber locale hback hreal
      obtain ⟨m, ms, hms, hm⟩ := head_writtenImaginary locale z.imaginary
      rw [written_complex_eq hi, List.append_assoc, hms] at hd
      obtain ⟨hnumber, hd'⟩ := hd.of_realPart hi hns hne hexponent (hunsigned hpositive) hm
      obtain ⟨q, s, c, vs', rfl, -, hpart, -⟩ := hparts hnumber
      exact finite_imaginary hi hpart (by rw [hms]; exact hd')
    have hback' : Number.ReadsBackAs inPlace.number z.imaginary := Number.readsBack_of_isFinite himaginary
    refine ⟨.of_unit rfl (by simp) rfl rfl ?_, ?_⟩
    · simp [Expression.printed, hreal, himaginary, hback, hback']
    · obtain ⟨n, m, ns, ms, u, s, hwritten, ⟨hns, hne, hexponent, hpositive⟩, ⟨hms, hne', hexponent', hpositive'⟩, hs, hu,
        -, -⟩ := Reader.written_complex hi p spelling hback hreal hback' himaginary
      have hsign : u = unitOf '+' ∨ u = unitOf '-' := by
        have hcases : s = "-" ∨ s = "+" := by simpa [Operator.isSign] using hs
        rcases hcases with rfl | rfl
        · exact .inr (List.cons.inj hu).1.symm
        · exact .inl (List.cons.inj hu).1.symm
      have hhead : ∀ us, (ms ++ us).head? ≠ some 61 ∧ (ms ++ us).head? ≠ some 62 := by
        obtain ⟨m, ms, rfl, -⟩ := Reader.read_imaginaryPart false hi hms hne' hexponent' hpositive' [] 0
        have hunit := hms.isNumberUnit m List.mem_cons_self
        unfold Lexeme.IsNumberUnit at hunit
        simp
        omega
      rw [hwritten, List.append_assoc, List.cons_append, List.append_assoc] at hd
      obtain ⟨hnumber, hd'⟩ := hd.of_realPart hi hns hne hexponent (hunsigned hpositive) (hsign.imp_right .inl)
      obtain ⟨q, s', c, vs', rfl, -, -, hpieces'⟩ := hparts hnumber
      exact ⟨vs', (hd'.of_sign hs hu (hhead _) (by simp)).2.of_imaginaryPart hi hms hne' hexponent' hpositive', hpieces'⟩

/-! ### Arrays -/

open Reader (IsArray IsMember memberAt rowText rowsText)

/-- A text that is read as one unit is a literal where the members of an array are enumerated. -/
theorem Enumerates.of_reads {P : Expression → Prop} (hread : ReadsAs locale first us P) (hrest : Stops rest)
    (h : Enumerates locale first (us ++ rest) out) :
    (∃ p x spelling, P (.literal p x spelling)) ∧ Enumerates locale first rest out := by
  obtain ⟨u, us', _, rfl, -⟩ := hread rest hrest 0
  have hatom (p : Nat) : ∃ e, Lexeme.read locale first p u (us' ++ rest) = (.atom e none, us'.length) ∧ P e := by
    obtain ⟨_, _, e, hunits, hread, he⟩ := hread rest hrest p
    obtain ⟨rfl, rfl⟩ := List.cons.inj hunits
    exact ⟨e, hread, he⟩
  choose e hread hP using hatom
  rw [List.cons_append] at h
  cases h with
  | close =>
    have hbrace : Lexeme.read locale first 0 125 (us' ++ rest) = (.mark 125, 0) :=
      Reader.read_plain (by simp) (by simp) (by simp) 0
    cases hbrace.symm.trans (hread 0)
  | space p _ _ _ _ h => cases (hread p).symm.trans h
  | mark p _ _ _ _ h => cases (hread p).symm.trans h
  | literal p _ n q x spelling _ _ h hnext =>
    obtain ⟨hlexeme, rfl⟩ := Prod.mk.inj ((hread p).symm.trans h)
    obtain ⟨hliteral, -⟩ := Lexeme.atom.inj hlexeme
    rw [List.drop_left] at hnext
    exact ⟨⟨q, x, spelling, hliteral ▸ hP p⟩, hnext⟩

/-- Space in front of a member. -/
theorem Enumerates.of_space (h : Enumerates locale first (32 :: us) out) : Enumerates locale first us out := by
  have hread (p : Nat) : Lexeme.read locale first p 32 us = (.space, 0) := read_space rfl first p us
  cases h with
  | space p _ n _ _ h hrest =>
    obtain ⟨-, rfl⟩ := Prod.mk.inj ((hread p).symm.trans h)
    exact hrest
  | mark p _ _ _ _ h => cases (hread p).symm.trans h
  | literal p _ _ _ _ _ _ _ h => cases (hread p).symm.trans h

/-- A mark in an array closes it or stands between two members. -/
theorem Enumerates.of_mark {n : Nat} (hread : ∀ p, Lexeme.read locale first p n us = (.mark n, 0))
    (h : Enumerates locale first (n :: us) out) :
    n = 125 ∧ out = us ∨ (n = 44 ∨ n = 59) ∧ Enumerates locale first us out := by
  cases h with
  | close => exact .inl ⟨rfl, rfl⟩
  | space p _ _ _ _ h => cases (hread p).symm.trans h
  | mark _ _ _ _ _ _ hmark hrest => exact .inr ⟨hmark, hrest⟩
  | literal p _ _ _ _ _ _ _ h => cases (hread p).symm.trans h

/-- A mark between members, and the space after it. -/
theorem Enumerates.of_separator {n : Nat} (hn : n = 44 ∨ n = 59) (h : Enumerates locale first (n :: 32 :: us) out) :
    Enumerates locale first us out := by
  have hread := h.of_mark fun p => Reader.read_plain (by rcases hn with rfl | rfl <;> simp) (by simp)
    (by rcases hn with rfl | rfl <;> simp) p
  rcases hread with ⟨rfl, -⟩ | ⟨-, hrest⟩
  · simp at hn
  · exact hrest.of_space

theorem Enumerates.of_close (h : Enumerates locale first (125 :: us) out) : out = us := by
  rcases h.of_mark fun p => Reader.read_plain (by simp) (by simp) (by simp) p with ⟨-, rfl⟩ | ⟨h, -⟩
  · rfl
  · simp at h

theorem isWord_notFinite : IsWord "NaN" ∧ IsWord "Infinity" :=
  ⟨⟨⟨78, _, rfl, rfl, rfl⟩, rfl, rfl⟩, ⟨⟨73, _, rfl, rfl, rfl⟩, rfl, rfl⟩⟩

/-- The number of a member is finite, for the texts of other numbers are no literals. -/
theorem Enumerates.of_number (hi : locale.imaginary = 'i' ∨ locale.imaginary = 'j') {x : Float} (hrest : Stops rest)
    (h : Enumerates locale true (Text.units (renderNumber locale x) ++ rest) out) :
    x.isFinite = true ∧ Enumerates locale true rest out := by
  cases hx : x.isFinite with
  | true =>
    have hback : Number.ReadsBackAs inPlace.number x := Number.readsBack_of_isFinite hx
    obtain ⟨n, hn, hne, -⟩ := Lexeme.writes_renderNumber locale hback hx
    exact ⟨rfl, (h.of_reads (Reader.reads_number hi ⟨n, _, hn, hne, .inl ⟨rfl, rfl⟩⟩ (by simp)) hrest).2⟩
  | false =>
    have hword {name : String} (hname : IsWord name) (hcell : ∀ q, Mention.ofCellWord? name.toList q = none)
        (h : Enumerates locale true (Text.units name ++ rest) out) : False := by
      obtain ⟨⟨_, _, _, _, hliteral⟩, -⟩ := h.of_reads (Reader.reads_identifier hname hcell) hrest
      cases hliteral
    exfalso
    rcases Expression.renderNumber_of_not_finite locale hx with ⟨hs, -⟩ | ⟨hs, -⟩ | ⟨hs, -⟩
    · rw [hs] at h
      exact hword isWord_notFinite.1 (fun _ => rfl) h
    · rw [hs] at h
      exact hword isWord_notFinite.2 (fun _ => rfl) h
    · have hunits : Text.units "-Infinity" = 45 :: Text.units "Infinity" := rfl
      rw [hs, hunits, List.cons_append] at h
      have hplain : startsNumber locale (Text.units "Infinity" ++ rest) = false :=
        startsNumber_of_plain ⟨73, rfl, by simp [IsPlain, isDigitUnit]⟩ _
      rcases h.of_mark fun p => Reader.read_plain (by simp) (by simp) (fun _ _ => hplain) p with ⟨h, -⟩ | ⟨h, -⟩
      · cases h
      · simp at h

theorem Enumerates.of_member (hi : locale.imaginary = 'i' ∨ locale.imaginary = 'j') {x : Value} (hx : IsMember x)
    (hrest : Stops rest) (h : Enumerates locale true (Text.units (Expression.renderValue locale x) ++ rest) out) :
    (∀ y, x = .number y → y.isFinite = true) ∧ Enumerates locale true rest out := by
  cases x with
  | undefined => exact ⟨by simp, h⟩
  | text s => exact ⟨by simp, (h.of_reads (Reader.reads_text locale true s) hrest).2⟩
  | boolean b => exact ⟨by simp, (h.of_reads (Reader.reads_boolean locale true b) hrest).2⟩
  | number y =>
    obtain ⟨hfinite, hnext⟩ := Enumerates.of_number hi hrest h
    exact ⟨by simp [hfinite], hnext⟩
  | complex | error | metadata | array => exact hx.elim

theorem units_rowText_cons (locale : Locale) (row : Nat) (c d : List Value) (columns : List (List Value)) :
    Text.units (rowText locale row (c :: d :: columns)) =
      Text.units (Expression.renderValue locale (c.getD row .undefined)) ++
        44 :: 32 :: Text.units (rowText locale row (d :: columns)) := by
  simp only [rowText, List.map_cons, String.intercalate_cons_cons, Text.units_append, List.append_assoc]
  rfl

theorem Enumerates.of_row (hi : locale.imaginary = 'i' ∨ locale.imaginary = 'j') {row : Nat}
    {columns : List (List Value)} (hcolumns : ∀ c ∈ columns, IsMember (c.getD row .undefined)) (hne : columns ≠ [])
    (hrest : Stops rest) (h : Enumerates locale true (Text.units (rowText locale row columns) ++ rest) out) :
    (∀ c ∈ columns, ∀ y, c.getD row .undefined = .number y → y.isFinite = true) ∧ Enumerates locale true rest out := by
  induction columns with
  | nil => exact absurd rfl hne
  | cons c columns ih =>
    obtain ⟨hc, hcolumns⟩ := List.forall_mem_cons.1 hcolumns
    cases columns with
    | nil =>
      rw [rowText, List.map_singleton, String.intercalate_singleton] at h
      obtain ⟨hfinite, hnext⟩ := h.of_member hi hc hrest
      exact ⟨List.forall_mem_singleton.2 hfinite, hnext⟩
    | cons d columns =>
      rw [units_rowText_cons, List.append_assoc, List.cons_append, List.cons_append] at h
      obtain ⟨hfinite, hnext⟩ := h.of_member hi hc (stops_comma _)
      obtain ⟨hfinite', hnext'⟩ := ih hcolumns (by simp) (hnext.of_separator (.inl rfl))
      exact ⟨List.forall_mem_cons.2 ⟨hfinite, hfinite'⟩, hnext'⟩

theorem units_rowsText_succ (locale : Locale) (columns : List (List Value)) (row left : Nat) :
    Text.units (rowsText locale columns (List.range' row (left + 1 + 1))) =
      Text.units (rowText locale row columns) ++
        59 :: 32 :: Text.units (rowsText locale columns (List.range' (row + 1) (left + 1))) := by
  simp only [rowsText, List.range'_succ, List.map_cons, String.intercalate_cons_cons, Text.units_append,
    List.append_assoc]
  rfl

theorem Enumerates.of_rows (hi : locale.imaginary = 'i' ∨ locale.imaginary = 'j') {columns : List (List Value)}
    (hmember : ∀ c r, IsMember (memberAt columns c r)) (hne : columns ≠ []) (left row : Nat) (hrest : Stops rest)
    (h : Enumerates locale true (Text.units (rowsText locale columns (List.range' row (left + 1))) ++ rest) out) :
    (∀ r, row ≤ r → r ≤ row + left → ∀ c ∈ columns, ∀ y, c.getD r .undefined = .number y → y.isFinite = true) ∧
      Enumerates locale true rest out := by
  have hcolumns (r : Nat) : ∀ c ∈ columns, IsMember (c.getD r .undefined) := by
    intro c hc
    obtain ⟨k, -, rfl⟩ := Reader.mem_getD hc
    exact hmember k r
  induction left generalizing row with
  | zero =>
    rw [rowsText, List.range'_one, List.map_singleton, String.intercalate_singleton] at h
    obtain ⟨hfinite, hnext⟩ := h.of_row hi (hcolumns row) hne hrest
    refine ⟨fun r hrow hr => ?_, hnext⟩
    obtain rfl : r = row := by omega
    exact hfinite
  | succ left ih =>
    rw [units_rowsText_succ, List.append_assoc, List.cons_append, List.cons_append] at h
    obtain ⟨hfinite, hnext⟩ := h.of_row hi (hcolumns row) hne (stops_mark (.inr (.inr (.inl rfl))) _)
    obtain ⟨hfinite', hnext'⟩ := ih (row + 1) (hnext.of_separator (.inr rfl))
    refine ⟨fun r hrow hr => ?_, hnext'⟩
    by_cases heq : r = row
    · rw [heq]
      exact hfinite
    · exact hfinite' r (by omega) (by omega)

theorem aligns_array (hi : locale.imaginary = 'i' ∨ locale.imaginary = 'j') (p : Nat) {members : List (List Value)}
    {height : Nat} (harray : IsArray members height) : Aligns locale first (.array p members) := by
  intro rest out vs w ws hrest hd hpieces hsame
  obtain ⟨vs', rfl, hpieces'⟩ := hpieces.of_plain (isJoint_eq_of_same hsame)
  rw [Reader.written_array p harray, List.cons_append, List.append_assoc, List.singleton_append] at hd
  obtain ⟨us', hmembers, hnext⟩ := hd.of_brace
  have hread : (∀ r < height, ∀ c ∈ members, ∀ y, c.getD r .undefined = .number y → y.isFinite = true) ∧ us' = rest := by
    by_cases hne : members = []
    · rw [if_pos hne] at hmembers
      exact ⟨by simp [hne], hmembers.of_close⟩
    · obtain ⟨left, rfl⟩ : ∃ left, height = left + 1 := by
        obtain ⟨k, hk⟩ := harray.lastColumn hne
        obtain ⟨hc, hk⟩ := Reader.lt_of_defined hk
        rw [harray.length _ hc] at hk
        exact ⟨height - 1, by omega⟩
      rw [if_neg hne] at hmembers
      obtain ⟨hfinite, hclose⟩ := hmembers.of_rows hi harray.member hne left 0 (stops_mark (.inr (.inr (.inr rfl))) rest)
      exact ⟨fun r hr => hfinite r (Nat.zero_le r) (by omega), hclose.of_close⟩
  obtain ⟨hfinite, rfl⟩ := hread
  refine ⟨.of_unit rfl (by simp) rfl rfl fun x hx => ?_, vs', hnext, hpieces'⟩
  have hx' : x.isFinite = true := by
    obtain ⟨v, hv, hvx⟩ := List.mem_filterMap.1 hx
    obtain ⟨c, hc, hvc⟩ := List.mem_flatten.1 hv
    obtain ⟨r, hr, hget⟩ := List.getElem_of_mem hvc
    obtain ⟨k, hk, rfl⟩ := Reader.mem_getD hc
    refine hfinite r (harray.length k hk ▸ hr) _ hc x ?_
    rw [List.getD_eq_getElem _ _ hr, hget]
    cases v <;> simp_all
  exact ⟨hx', Number.readsBack_of_isFinite hx'⟩

end Formula

end Spreadsheet
