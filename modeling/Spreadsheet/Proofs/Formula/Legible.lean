import Spreadsheet.Proofs.Expression.Units
import Spreadsheet.Proofs.Formula.Signed
import Spreadsheet.Proofs.Number.Shortest

/-!
Expressions that can be written out and read again. The text of a tree is read as the stream of the tree, unless an
argument at the end of a call is left out; a sign at the front of a stream may be taken by the number after it. Reading
the text of a formula at another place gives an expression that means what the formula means there.
-/

namespace Spreadsheet

namespace Expression

variable {e a b : Expression} {p : Nat} {s : String} {t : Rereading}

/-! ### Expressions that can be read again -/

/-- The numbers of a unit that are written by their value; other numbers keep their spelling. -/
def printed : Expression → List Float
  | .complex _ z _ => [z.real, z.imaginary]
  | .array _ columns => columns.flatten.filterMap fun
    | .number x => some x
    | _ => none
  | _ => []

/-- Whether a sign in front of the unit would be read as a part of it: a number, a complex number, whole rows. -/
def takesSign : Expression → Bool
  | .literal _ (.number _) _ | .complex _ _ _ => true
  | .range _ r => r.first.target.column.isNone && r.last.target.column.isNone
  | _ => false

/-- Whether the unit is a call whose last argument is left out. -/
def endsInMissing : Expression → Bool
  | .call _ _ args =>
    match args.getLast? with
    | some (.missing _) => true
    | _ => false
  | _ => false

/-- The expressions that stand in the parentheses of a unit: items and arguments. -/
def enclosed : Expression → List Expression
  | .call _ _ args => args
  | .group _ items _ => items
  | _ => []

/-- What an expression starts with, a sign and its operand counting as one. -/
def start : Expression → Expression
  | .binary _ _ a _ => start a
  | e => e

theorem start_mem_units (e : Expression) : e.start ∈ e.units := by
  induction e using start.induct with
  | case1 p s a b ih => exact units_left ih
  | case2 e hnot =>
    rw [start]
    · exact mem_units e
    · exact hnot

theorem units_enclosed (ha : a ∈ e.enclosed) : a.units ⊆ e.units := by
  unfold enclosed at ha
  split at ha
  · exact units_argument ha
  · exact units_item ha
  · cases ha

/-- If the expression starts with a sign, what may be read in the place of the sign and its operand does so. -/
def KeepsSign (t : Rereading) (e : Expression) : Prop :=
  ∀ p s a, e.start = .unary p s a → Operator.isSign s = true → ∀ a', t.Absorbs s a a' → t.signed s a a'

/-- The cells that an expression mentions, also as corners of ranges. -/
def mentions (e : Expression) : List Mention :=
  e.units.filterMap fun
    | .cell m => some m
    | _ => none

theorem mem_mentions {m : Mention} (h : .cell m ∈ e.units) : m ∈ e.mentions := List.mem_filterMap.2 ⟨_, h, rfl⟩

theorem corners_mem (p : Nat) (r : RangeMention) : r.first ∈ (range p r).mentions ∧ r.last ∈ (range p r).mentions := by
  simp [mentions, units_range]

/-- What makes sure that the text of an expression at another place is read as something in its place. -/
structure Legible (t : Rereading) (e : Expression) : Prop where
  arguments : ∀ u ∈ e.units, u.endsInMissing = false
  signs : ∀ u ∈ e.units, ∀ a ∈ u.enclosed, a.KeepsSign t
  sheets : ∀ m ∈ e.mentions, m.target.IsKept
  fits : ∀ m ∈ e.mentions, m.target.IsCell ∨ m.target.IsRow ∨ m.target.IsColumn →
    (m.target.shift? t.rows t.columns).isSome = true
  finite : ∀ u ∈ e.units, ∀ x ∈ u.printed, x.isFinite = true
  digits : ∀ u ∈ e.units, ∀ x ∈ u.printed, Number.ReadsBackAs t.number x

theorem Legible.mono (h : Legible t e) (ha : a.units ⊆ e.units) : Legible t a where
  arguments u hu := h.arguments u (ha hu)
  signs u hu := h.signs u (ha hu)
  sheets m hm := h.sheets m (List.filterMap_subset _ ha hm)
  fits m hm := h.fits m (List.filterMap_subset _ ha hm)
  finite u hu := h.finite u (ha hu)
  digits u hu := h.digits u (ha hu)

/-- A call whose last argument is left out is no call that can be read again. -/
theorem Legible.last {name : String} {args : List Expression} (h : Legible t (.call p name args)) (q : Nat) :
    args.getLast? ≠ some (.missing q) := by
  intro hlast
  have hcall := h.arguments _ (mem_units _)
  simp [endsInMissing, hlast] at hcall

/-- What can take a sign is a unit that takes signs. -/
theorem takesSign_of_absorbs {a' : Expression} (h : t.Absorbs s a a') : a.takesSign = true := by
  cases h with
  | number => rfl
  | complex => rfl
  | rows p q r r' hfirst hlast =>
    obtain ⟨⟨_, -, -, hcolumn, -⟩, -⟩ := hfirst
    obtain ⟨_, -, -, hcolumn', -⟩ := hlast
    simp [takesSign, hcolumn, hcolumn']

end Expression

namespace Formula

open Expression (Legible MovesTo)
open Lexeme (IsNumber IsWord Unsigned startsNumber Stops)
open Reader (Scans written Rereads RereadsArgument IsArray)
open Arrange (Opens)

variable {t : Rereading} {locale : Locale} {first : Bool} {p : Nat} {s : String} {a b e u : Expression}
  {us vs : List Expression}

/-! ### Texts of units -/

/-- The text of the expression is read as the units of the stream, and what it starts and ends with fits in a text
of a larger one. -/
structure Reads (t : Rereading) (locale : Locale) (first : Bool) (e : Expression) (us : List Expression) : Prop where
  scans : Scans locale first (written t locale e) (Spelled t locale us)
  bordered : Bordered (written t locale e)
  plain : e.takesSign = false → e.isBinary = false → ∃ u ∈ (written t locale e).head?, IsPlain u

theorem reads_text (p : Nat) (s : String) :
    Reads t locale first (.literal p (.text s) none) [.literal p (.text s) none] := by
  have hunits : written t locale (.literal p (.text s) none) = 34 :: (Lexeme.escaped s.toList ++ [34]) := by
    rw [written, Expression.render]
    · exact Reader.units_renderText locale s
    · simp
  refine ⟨Reader.scans_text p s, ?_, fun _ _ => ?_⟩
  · rw [hunits]
    exact bordered_between (by simp [IsLead, IsSolid]) (by simp [IsSolid]) _
  · rw [hunits]
    exact ⟨34, rfl, by simp [IsPlain, isDigitUnit]⟩

theorem reads_boolean (p : Nat) (b : Bool) :
    Reads t locale first (.literal p (.boolean b) none) [.literal p (.boolean b) none] := by
  have hunits : written t locale (.literal p (.boolean b) none) =
      Text.units (if b then "TRUE" else "FALSE") := by
    rw [written, Expression.render]
    · rfl
    · simp
  refine ⟨Reader.scans_boolean p b, ?_, fun _ _ => ?_⟩
  · rw [hunits]
    cases b
    · exact ⟨⟨70, rfl, by simp [IsLead, IsSolid]⟩, ⟨69, rfl, by simp [IsSolid]⟩⟩
    · exact ⟨⟨84, rfl, by simp [IsLead, IsSolid]⟩, ⟨69, rfl, by simp [IsSolid]⟩⟩
  · rw [hunits]
    cases b <;> exact ⟨_, rfl, isPlain_of_wordStart (by decide)⟩

theorem reads_number (hi : locale.imaginary = 'i' ∨ locale.imaginary = 'j') (p : Nat) {ns : List Nat} {x : Float}
    (hx : IsNumber locale ns x) (hfirst : first = false → Unsigned ns) :
    Reads t locale first (.literal p (.number x) (some (Text.ofUnits ns)))
      [.literal p (.number x) (some (Text.ofUnits ns))] := by
  refine ⟨Reader.scans_number hi p hx hfirst, ?_, nofun⟩
  rw [Reader.written_number p hx]
  exact bordered_number hx

theorem reads_complex (hi : locale.imaginary = 'i' ∨ locale.imaginary = 'j') (p : Nat) {z : Complex}
    {spelling : Option String} (hgood : Legible t (.complex p z spelling))
    (hfirst : first = false → Number.sign? z.real = some .positive) :
    Reads t locale first (.complex p z spelling) [.complex p z spelling] := by
  have hself := Expression.mem_units (.complex p z spelling)
  have hreal := hgood.digits _ hself z.real List.mem_cons_self
  have himaginary := hgood.digits _ hself z.imaginary (List.mem_cons_of_mem _ List.mem_cons_self)
  have hreal' := hgood.finite _ hself z.real List.mem_cons_self
  have himaginary' := hgood.finite _ hself z.imaginary (List.mem_cons_of_mem _ List.mem_cons_self)
  refine ⟨Reader.scans_complex hi p spelling hreal hreal' himaginary himaginary' hfirst, ?_, nofun⟩
  obtain ⟨n, m, ns, ms, u, hunits, ⟨hns, hne, -⟩, -⟩ :=
    Lexeme.units_renderComplex hi hreal hreal' himaginary himaginary'
  have hwritten : written t locale (.complex p z spelling) =
      ns ++ ((u :: ms) ++ [unitOf locale.imaginary]) := hunits
  have hlast : Bordered [unitOf locale.imaginary] :=
    bordered_of_forall (by simp) fun v hv => isLead_of_wordStart (by
      obtain rfl := List.mem_singleton.1 hv
      rcases hi with h | h <;> rw [h] <;> rfl)
  rw [hwritten]
  exact (bordered_number ⟨n, ns, hns, hne, .inl ⟨rfl, rfl⟩⟩).append _ hlast

theorem reads_cell {m : Mention} (hcell : m.target.IsCell) (hgood : Legible t (.cell m)) :
    Reads t locale first (.cell m) [.cell m] := by
  have hself := Expression.mem_mentions (Expression.mem_units (.cell m))
  obtain ⟨b, hb⟩ := Option.isSome_iff_exists.1 (hgood.fits m hself (.inl hcell))
  have hword := Mention.isWord_cell (hcell.shift? hb) ((hgood.sheets m hself).shift? hb)
  have hunits : written t locale (.cell m) = Text.units b.spelling := Reader.written_cell hb
  refine ⟨Reader.scans_cell hcell (hgood.sheets m hself) hb, ?_, fun _ _ => ?_⟩
  · rw [hunits]
    exact bordered_word hword
  · rw [hunits]
    simpa using plain_word hword []

/-- Where the corners of a range are moved to. -/
theorem exists_corners {r : RangeMention} (hrange : IsRange r) (hgood : Legible t (.range p r)) :
    (r.first.target.IsKept ∧ ∃ a, r.first.target.shift? t.rows t.columns = some a) ∧
      r.last.target.IsKept ∧ ∃ b, r.last.target.shift? t.rows t.columns = some b := by
  obtain ⟨hfirst, hlast⟩ := Expression.corners_mem p r
  have hplaces : (r.first.target.IsCell ∨ r.first.target.IsRow ∨ r.first.target.IsColumn) ∧
      (r.last.target.IsCell ∨ r.last.target.IsRow ∨ r.last.target.IsColumn) := by
    rcases hrange with h | h | h
    · exact ⟨.inl h.1, .inl h.2⟩
    · exact ⟨.inr (.inl h.1), .inr (.inl h.2)⟩
    · exact ⟨.inr (.inr h.1), .inr (.inr h.2)⟩
  exact ⟨⟨hgood.sheets _ hfirst, Option.isSome_iff_exists.1 (hgood.fits _ hfirst hplaces.1)⟩,
    hgood.sheets _ hlast, Option.isSome_iff_exists.1 (hgood.fits _ hlast hplaces.2)⟩

theorem reads_range (hi : locale.imaginary = 'i' ∨ locale.imaginary = 'j') (p : Nat) {r : RangeMention}
    (hrange : IsRange r) (hgood : Legible t (.range p r)) :
    Reads t locale first (.range p r) [.range p r] := by
  obtain ⟨⟨hself, a, ha⟩, hself', b, hb⟩ := exists_corners hrange hgood
  have hsheet := hself.shift? ha
  have hsheet' := hself'.shift? hb
  have hunits : written t locale (.range p r) = Text.units a.spelling ++ ([58] ++ Text.units b.spelling) :=
    Reader.written_range p ha hb
  have hcorner : a.IsCell ∨ a.IsRow ∨ a.IsColumn :=
    hrange.imp (fun h => h.1.shift? ha) (Or.imp (fun h => h.1.shift? ha) fun h => h.1.shift? ha)
  have hcorner' : b.IsCell ∨ b.IsRow ∨ b.IsColumn :=
    hrange.imp (fun h => h.2.shift? hb) (Or.imp (fun h => h.2.shift? hb) fun h => h.2.shift? hb)
  refine ⟨Reader.scans_range hi p hrange hself hself' ha hb, ?_, fun hsign _ => ?_⟩
  · rw [hunits]
    exact (bordered_label hcorner hsheet).append _ (bordered_label hcorner' hsheet')
  · have hword : IsWord a.spelling := by
      rcases hrange with h | h | h
      · exact Mention.isWord_cell (h.1.shift? ha) hsheet
      · obtain ⟨⟨_, -, -, hr, -⟩, ⟨_, -, -, hr', -⟩⟩ := h
        simp [Expression.takesSign, hr, hr'] at hsign
      · have hcolumn := h.1.shift? ha
        refine Mention.isWord_axis (.inr hcolumn) (fun hbare => ?_) hsheet
        obtain ⟨c, hc, -⟩ := hcolumn
        obtain ⟨⟨_, -, -, hnone, -⟩, -⟩ := hbare
        rw [hc] at hnone
        cases hnone
    rw [hunits]
    exact plain_word hword _

theorem reads_identifier (p : Nat) {name : String} (hname : IsWord name)
    (hcell : ∀ q, Mention.ofCellWord? name.toList q = none) (hsettled : IsSettled locale (.identifier p name)) :
    Reads t locale first (.identifier p name) [.identifier p name] := by
  have hunits : written t locale (.identifier p name) = Text.units name := by
    rw [written, Expression.render]
  refine ⟨Reader.scans_identifier p hname hcell hsettled, ?_, fun _ _ => ?_⟩
  · rw [hunits]
    exact bordered_word hname
  · rw [hunits]
    simpa using plain_word hname []

theorem reads_call (p : Nat) {name : String} (hname : IsWord name) {args : List Expression}
    (hargs : ∀ a ∈ args, RereadsArgument t locale a) (hlast : ∀ q, args.getLast? ≠ some (.missing q)) :
    Reads t locale first (.call p name args) [.call p name args] := by
  have hunits : written t locale (.call p name args) =
      Text.units name ++ ((40 :: Reader.writtenArguments t locale args) ++ [41]) := Reader.written_call p name args
  refine ⟨Reader.scans_call p hname hargs hlast, ?_, fun _ _ => ?_⟩
  · rw [hunits]
    exact (bordered_word hname).append _ (bordered_of_forall (by simp) (by simp [IsLead, IsSolid]))
  · rw [hunits]
    exact plain_word hname _

theorem reads_group (p : Nat) (he : Rereads t locale e) :
    Reads t locale first (.group p [e] true) [.group p [e] true] := by
  have hunits : written t locale (.group p [e] true) = 40 :: (written t locale e ++ [41]) := Reader.written_group p e
  refine ⟨Reader.scans_group he p, ?_, fun _ _ => ?_⟩
  · rw [hunits]
    exact bordered_between (by simp [IsLead, IsSolid]) (by simp [IsSolid]) _
  · rw [hunits]
    exact ⟨40, rfl, by simp [IsPlain, isDigitUnit]⟩

theorem reads_array (hi : locale.imaginary = 'i' ∨ locale.imaginary = 'j') (p : Nat) {members : List (List Value)}
    {height : Nat} (harray : IsArray members height)
    (hgood : Legible t (.array p members)) :
    Reads t locale first (.array p members) [.array p members] := by
  have hself := Expression.mem_units (.array p members)
  have hread (c r : Nat) : Reader.ReadsMember t (Reader.memberAt members c r) := by
    intro x hx
    have hdefined : (Reader.memberAt members c r).isUndefined = false := by
      rw [hx]
      rfl
    obtain ⟨hc, hr⟩ := Reader.lt_of_defined hdefined
    have hmem : Value.number x ∈ members.flatten := by
      refine List.mem_flatten.2 ⟨_, Reader.getD_mem hc, ?_⟩
      rw [← hx, Reader.memberAt, List.getD_eq_getElem _ _ hr]
      exact List.getElem_mem hr
    have hprinted : x ∈ (Expression.array p members).printed := List.mem_filterMap.2 ⟨_, hmem, rfl⟩
    exact ⟨hgood.finite _ hself x hprinted, hgood.digits _ hself x hprinted⟩
  have hunits : written t locale (.array p members) = 123 :: (Text.units (Reader.rowsText locale members
      (List.range' 0 (if members = [] then 0 else height))) ++ [125]) := Reader.written_array p harray
  refine ⟨Reader.scans_array hi p harray hread, ?_, fun _ _ => ?_⟩
  · rw [hunits]
    exact bordered_between (by simp [IsLead, IsSolid]) (by simp [IsSolid]) _
  · rw [hunits]
    exact ⟨123, rfl, by simp [IsPlain, isDigitUnit]⟩

/-! ### Texts of trees -/

theorem head_ne {ns : List Nat} (h : Bordered ns) (rest : List Nat) :
    (ns ++ rest).head? ≠ some 61 ∧ (ns ++ rest).head? ≠ some 62 := by
  obtain ⟨u, hu, -, hequals, hgreater⟩ := h.first
  obtain ⟨ms, rfl⟩ := List.head?_eq_some_iff.1 hu
  simp [hequals, hgreater]

theorem spelled_operator (p q : Nat) (hs : s ≠ ":") (h : Spelled t locale us vs) :
    Spelled t locale (.operator p s :: us) (.operator q s :: vs) := by
  refine .unit _ _ us vs (Expression.movesTo_operator.2 ⟨q, rfl⟩) ⟨rfl, ?_⟩ h
  simpa [Expression.isOperator] using hs

/-- A sign is one unit, and an operator but no colon. -/
theorem sign_cases (hs : Operator.isSign s = true) :
    ∃ u, Text.units s = [u] ∧ (u = 43 ∨ u = 45) ∧ s ∈ Operator.longestFirst ∧ s ≠ ":" := by
  have hcases : s = "-" ∨ s = "+" := by simpa [Operator.isSign] using hs
  rcases hcases with rfl | rfl
  · exact ⟨45, rfl, .inr rfl, by simp [Operator.longestFirst], by simp⟩
  · exact ⟨43, rfl, .inl rfl, by simp [Operator.longestFirst], by simp⟩

/-- What a sign and an operand are read as, the text of both being read as that. -/
theorem reads_sign (p : Nat) (hs : Operator.isSign s = true) (ha : Bordered (written t locale a))
    (hscans : Scans locale first (written t locale (.unary p s a)) (Spelled t locale us)) :
    Reads t locale first (.unary p s a) us := by
  obtain ⟨u, hu, hcode, -⟩ := sign_cases hs
  have hunits : written t locale (.unary p s a) = [u] ++ ([] ++ written t locale a) := Reader.written_unary p hu a
  refine ⟨hscans, ?_, fun _ _ => ?_⟩
  · rw [hunits]
    refine Bordered.append (bordered_of_forall (by simp) fun v hv => ?_) [] ha
    obtain rfl := List.mem_singleton.1 hv
    exact isLead_of_numberUnit (.inr (.inl (by omega)))
  · rw [hunits]
    refine ⟨u, rfl, ?_⟩
    rcases hcode with rfl | rfl <;> simp [IsPlain, isDigitUnit]

/-- A sign in front of an operand is read as a sign if something stands before it or no number follows it. -/
theorem reads_unary (p : Nat) (hs : Operator.isSign s = true)
    (hplain : first = true → ∃ u ∈ (written t locale a).head?, IsPlain u) (ha : Reads t locale false a us) :
    Reads t locale first (.unary p s a) (.operator p s :: us) := by
  obtain ⟨u, hu, -, hmem, hcolon⟩ := sign_cases hs
  refine reads_sign p hs ha.bordered ?_
  intro source r i rest hopen hfirst hrest
  obtain ⟨hequals, hgreater⟩ := head_ne ha.bordered rest
  obtain ⟨j, hj⟩ := Reader.takeAll_operator locale source _ (i := i) hopen hmem hequals hgreater
    fun hempty _ => startsNumber_of_plain (hplain (hfirst.symm.trans hempty)) rest
  obtain ⟨vs, log, k, hvs, hk⟩ := ha.scans source (r.grown [.operator i s] r.log) j rest hopen (by simp) hrest
  refine ⟨.operator i s :: vs, log, k, spelled_operator p i hcolon hvs, ?_⟩
  rw [hu] at hj
  rw [Reader.written_unary p hu]
  exact hj.trans (hk.trans (by simp))

/-- A sign at the front of a stream is read as a part of the number after it. -/
theorem reads_signed (hi : locale.imaginary = 'i' ∨ locale.imaginary = 'j') (h : IsUnit locale false u)
    (hsign : u.takesSign = true) (hgood : Legible t u) (p : Nat) (hs : Operator.isSign s = true)
    (hkeeps : ∀ e, t.Absorbs s u e → t.signed s u e) :
    ∃ vs, Opens [.operator p s, u] vs ∧ Reads t locale true (.unary p s u) vs := by
  obtain ⟨c, hc, -⟩ := sign_cases hs
  have hself := Expression.mem_units u
  cases h with
  | number _ q ns x hx hunsigned =>
    have hborder := (reads_number (t := t) hi q hx hunsigned).bordered
    exact ⟨_, .sign p s _ [] hs rfl,
      reads_sign p hs hborder (Reader.scans_signedNumber hi p q hs hc hx (hunsigned rfl) hkeeps)⟩
  | complex _ q z spelling hpositive =>
    have hborder := (reads_complex hi q hgood hpositive).bordered
    have hreal : z.real ∈ (Expression.complex q z spelling).printed := List.mem_cons_self
    have himaginary : z.imaginary ∈ (Expression.complex q z spelling).printed :=
      List.mem_cons_of_mem _ List.mem_cons_self
    exact ⟨_, .sign p s _ [] hs rfl, reads_sign p hs hborder (Reader.scans_signedComplex hi p q hs hc spelling
      (hgood.digits _ hself _ hreal) (hgood.finite _ hself _ hreal) (hgood.digits _ hself _ himaginary)
      (hgood.finite _ hself _ himaginary) (hpositive rfl) hkeeps)⟩
  | range _ q m hm =>
    obtain ⟨⟨hfirst, a, ha⟩, hlast, b, hb⟩ := exists_corners hm hgood
    have hread : Reads t locale false (.range q m) [.range q m] := reads_range hi q hm hgood
    obtain ⟨hrow, hrow'⟩ : m.first.target.IsRow ∧ m.last.target.IsRow := by
      rcases hm with ⟨⟨_, _, -, hcolumn, -⟩, -⟩ | hrows | ⟨⟨_, hcolumn, -⟩, -⟩
      · simp [Expression.takesSign, hcolumn] at hsign
      · exact hrows
      · simp [Expression.takesSign, hcolumn] at hsign
    by_cases hbare : Mention.IsBareRow a
    · obtain ⟨vs, hvs, hscans⟩ :=
        Reader.scans_signedRows hi p q hs hc hrow hrow' hlast ha hb hbare hkeeps
      exact ⟨vs, hvs, reads_sign p hs hread.bordered hscans⟩
    · refine ⟨_, .same _, reads_unary p hs (fun _ => ?_) hread⟩
      have hword := Mention.isWord_axis (.inl (hrow.shift? ha)) hbare (hfirst.shift? ha)
      rw [Reader.written_range q ha hb]
      exact plain_word hword _
  | _ => cases hsign

theorem written_binary (p : Nat) (s : String) (a b : Expression) : written t locale (.binary p s a b) =
    written t locale a ++ ((32 :: (Text.units s ++ [32])) ++ written t locale b) := by
  have hspace : Text.units " " = [32] := rfl
  simp only [written, Expression.render, Text.units_append, hspace, List.append_assoc]
  simp

/-- A lexeme ends before the space in front of an operator. -/
theorem stops_operator (hs : s ∈ Operator.longestFirst) (rest : List Nat) : Stops (32 :: (Text.units s ++ rest)) := by
  obtain ⟨u, ns, hunits, hu, -⟩ := units_symbol hs
  refine stops_space ?_
  rw [hunits, List.cons_append, List.dropWhile_cons_of_neg]
  · rintro ⟨⟩
    simp at hu
  · intro hspace
    simp [isSpaceUnit] at hspace
    simp only [List.mem_cons, List.not_mem_nil, or_false] at hu
    omega

/-- Around an operator stand spaces. -/
theorem reads_binary (p : Nat) (hs : s ∈ Operator.longestFirst) (hcolon : s ≠ ":")
    (ha : Reads t locale first a us) (hb : Reads t locale false b vs) (hne : us ≠ []) :
    Reads t locale first (.binary p s a b) (us ++ .operator p s :: vs) := by
  refine ⟨?_, ?_, fun _ hbinary => by cases hbinary⟩
  · intro source r i rest hopen hempty hrest
    obtain ⟨ws, log, j, hws, hj⟩ := ha.scans source r i _ hopen hempty
      (stops_operator hs (32 :: (written t locale b ++ rest)))
    have hgrown : (r.grown ws log).top.stream.isEmpty = false := by
      have hws' : ws ≠ [] := fun h => hne (hws.eq_nil.2 h)
      simp [hws']
    obtain ⟨k, hk⟩ := Reader.takeAll_operator locale source (32 :: (written t locale b ++ rest))
      (r := r.grown ws log) (i := j + 1) hopen hs (by simp) (by simp) fun h => by
        rw [hgrown] at h
        cases h
    obtain ⟨ws', log', l, hws', hl⟩ := hb.scans source ((r.grown ws log).grown [.operator (j + 1) s] log) (k + 1) rest
      hopen (by simp) hrest
    refine ⟨ws ++ .operator (j + 1) s :: ws', log', l, hws.append (spelled_operator p (j + 1) hcolon hws'), ?_⟩
    have hsplit : written t locale (.binary p s a b) ++ rest =
        written t locale a ++ 32 :: (Text.units s ++ 32 :: (written t locale b ++ rest)) := by
      rw [written_binary]
      simp
    rw [hsplit, hj, Reader.takeAll_space]
    refine hk.trans ?_
    rw [Reader.takeAll_space]
    exact hl.trans (by simp)
  · rw [written_binary]
    exact ha.bordered.append _ hb.bordered

/-- A unit of a stream can be read where it stands, also with a sign before it. -/
structure ReadsUnit (t : Rereading) (locale : Locale) (first : Bool) (u : Expression) : Prop where
  operand : u.isAnyOperator = false → Legible t u → Reads t locale first u [u]
  signed : first = false → u.takesSign = true → Legible t u → ∀ p s, Operator.isSign s = true →
    (∀ e, t.Absorbs s u e → t.signed s u e) →
    ∃ vs, Opens [.operator p s, u] vs ∧ Reads t locale true (.unary p s u) vs
  operator : ∀ p s, u = .operator p s → s ∈ Operator.longestFirst ∧ s ≠ ":"

/-- All units of the stream can be read, each where it stands. -/
def ReadsEach (t : Rereading) (locale : Locale) : Bool → List Expression → Prop
  | _, [] => True
  | first, u :: us => ReadsUnit t locale first u ∧ ReadsEach t locale false us

theorem readsEach_append : ReadsEach t locale first (us ++ vs) ↔
    ReadsEach t locale first us ∧ ReadsEach t locale (first && us.isEmpty) vs := by
  induction us generalizing first with
  | nil => simp [ReadsEach]
  | cons u us ih => simp [ReadsEach, ih, and_assoc]

theorem Arrange.Arranges.ne_nil (h : Arrange.Arranges e us) : us ≠ [] := by
  cases h <;> simp

/-- The text of a tree is read as the stream of the tree, a sign at its front being perhaps a part of its operand. -/
theorem reads_arranged (h : Arrange.Arranges e us) (hus : ReadsEach t locale first us) (hgood : Legible t e)
    (hkeeps : first = true → e.KeepsSign t) :
    ∃ vs, Opens us vs ∧ (first = false → vs = us) ∧ Reads t locale first e vs := by
  induction h generalizing first with
  | operand e he =>
    exact ⟨_, .same _, fun _ => rfl, hus.1.operand (Expression.not_of_isOperand he).2 hgood⟩
  | unary p s a us hs hbinary harranged ih =>
    have ha : a.units ⊆ (Expression.unary p s a).units := Expression.units_operand
    by_cases hsign : first = true ∧ a.takesSign = true
    · obtain ⟨rfl, hsign⟩ := hsign
      cases harranged with
      | operand =>
        obtain ⟨vs, hvs, hreads⟩ := hus.2.1.signed rfl hsign (hgood.mono ha) p s hs (hkeeps rfl p s a rfl hs)
        exact ⟨vs, hvs, nofun, hreads⟩
      | unary => cases hsign
      | binary => cases hbinary
    · obtain ⟨vs, -, hvs, hreads⟩ := ih hus.2 (hgood.mono ha) nofun
      obtain rfl := hvs rfl
      refine ⟨_, .same _, fun _ => rfl, reads_unary p hs (fun hfirst => hreads.plain ?_ hbinary) hreads⟩
      simpa [hfirst] using hsign
  | binary p s a b us vs ha _ iha ihb =>
    obtain ⟨hleft, hoperator, hright⟩ := readsEach_append.1 hus
    obtain ⟨hs, hcolon⟩ := hoperator.operator p s rfl
    have hleft' : a.units ⊆ (Expression.binary p s a b).units := Expression.units_left
    have hright' : b.units ⊆ (Expression.binary p s a b).units := Expression.units_right
    obtain ⟨us', hus', hsame, hreads⟩ := iha hleft (hgood.mono hleft') hkeeps
    obtain ⟨vs', -, hsame', hreads'⟩ := ihb hright (hgood.mono hright') nofun
    obtain rfl := hsame' rfl
    exact ⟨_, hus'.append _, fun hfirst => by rw [hsame hfirst],
      reads_binary p hs hcolon hreads hreads' (hus'.ne_nil ha.ne_nil)⟩

/-! ### Formulas without faults -/

theorem isFlat_of_stream (h : IsStream locale first us) : Arrange.IsFlat us := by
  induction us generalizing first with
  | nil => exact fun _ he => absurd he List.not_mem_nil
  | cons u us ih =>
    obtain ⟨hu, hus⟩ := isStream_cons.1 h
    refine List.forall_mem_cons.2 ⟨?_, ih hus⟩
    cases hu <;> simp [Expression.isOperand, Expression.isAnyOperator]

theorem Reads.rereads {stream : List Expression} (h : Reads t locale true e stream)
    (hunits : Arrange.units stream = .ok e) : Rereads t locale e := by
  intro source r i rest hopen hempty hrest
  obtain ⟨vs, log, j, hvs, hj⟩ := h.scans source r i rest hopen hempty hrest
  exact ⟨vs, log, j, ⟨stream, hunits, hvs⟩, hj⟩

mutual

theorem reads_of_isUnit (hi : locale.imaginary = 'i' ∨ locale.imaginary = 'j') {first : Bool} {u : Expression}
    (h : IsUnit locale first u) (hsettled : IsSettled locale u) (hplain : u.isAnyOperator = false)
    (hgood : Legible t u) : Reads t locale first u [u] :=
  match h with
  | .text _ p s => reads_text p s
  | .boolean _ p b => reads_boolean p b
  | .number _ p us x hx hfirst => reads_number hi p hx hfirst
  | .imaginary _ p y spelling => nomatch hsettled.imaginary
  | .complex _ p z spelling hfirst => reads_complex hi p hgood hfirst
  | .cell _ m hm => reads_cell hm hgood
  | .range _ p r hr => reads_range hi p hr hgood
  | .identifier _ p name hname hcell => reads_identifier p hname hcell hsettled
  | .operator _ p s hs => nomatch hplain
  | .call _ p name args hname hargs => reads_call p hname
      (fun a ha => reads_of_isArgument hi (hargs a ha) (hgood.mono (Expression.units_argument ha))
        (hgood.signs _ (Expression.mem_units _) a ha))
      hgood.last
  | .group _ p e he => by
    have hunits : e.units ⊆ (Expression.group p [e] true).units := Expression.units_item (List.mem_singleton_self e)
    obtain ⟨stream, hstream, hreads⟩ := reads_of_isTree hi he (hgood.mono hunits)
      (hgood.signs _ (Expression.mem_units _) e (List.mem_singleton_self e))
    exact reads_group p (hreads.rereads hstream)
  | .array _ p members height harray => reads_array hi p harray hgood

theorem reads_of_isStream (hi : locale.imaginary = 'i' ∨ locale.imaginary = 'j') {first : Bool} {us : List Expression}
    (h : IsStream locale first us) (hsettled : ∀ u ∈ us, IsSettled locale u) : ReadsEach t locale first us :=
  match h with
  | .nil _ => trivial
  | .cons _ u us hu hus => by
    obtain ⟨hsettled, hrest⟩ := List.forall_mem_cons.1 hsettled
    refine ⟨⟨fun hplain hgood => reads_of_isUnit hi hu hsettled hplain hgood, ?_, ?_⟩, reads_of_isStream hi hus hrest⟩
    · rintro rfl hsign hgood p s hs hkeeps
      exact reads_signed hi hu hsign hgood p hs hkeeps
    · rintro p s rfl
      have hmem : s ∈ Operator.longestFirst := by
        cases hu with
        | operator _ _ _ hs => exact hs
      exact ⟨hmem, by simpa [Expression.isOperator] using hsettled.colon⟩

theorem reads_of_isArgument (hi : locale.imaginary = 'i' ∨ locale.imaginary = 'j') {a : Expression}
    (h : IsArgument locale a) (hgood : Legible t a) (hkeeps : a.KeepsSign t) : RereadsArgument t locale a :=
  match h with
  | .missing p => .inl ⟨p, rfl⟩
  | .tree e he => by
    obtain ⟨stream, hstream, hreads⟩ := reads_of_isTree hi he hgood hkeeps
    exact .inr (hreads.rereads hstream)

/-- The text of a tree is read as a stream that makes the tree. -/
theorem reads_of_isTree (hi : locale.imaginary = 'i' ∨ locale.imaginary = 'j') {e : Expression} (h : IsTree locale e)
    (hgood : Legible t e) (hkeeps : e.KeepsSign t) :
    ∃ stream, Arrange.units stream = .ok e ∧ Reads t locale true e stream :=
  match h with
  | .intro stream e hstream hsettled hunits => by
    obtain ⟨vs, hvs, -, hreads⟩ := reads_arranged (Arrange.arranges_units hunits (isFlat_of_stream hstream))
      (reads_of_isStream hi hstream hsettled) hgood fun _ => hkeeps
    exact ⟨vs, hvs.units_eq.trans hunits, hreads⟩

end

/-- A text that is read as a stream is read as a tree in the place of that of the stream. -/
theorem Reads.parse_eq {stream : List Expression} (h : Reads t locale true e stream)
    (hunits : Arrange.units stream = .ok e) :
    (parse locale (e.render locale { rows := t.rows, columns := t.columns })).error = none ∧
      ∃ e', (parse locale (e.render locale { rows := t.rows, columns := t.columns })).expression = some e' ∧
        MovesTo t e e' := by
  have hbody : Text.units (body (e.render locale { rows := t.rows, columns := t.columns })) = written t locale e :=
    congrArg Text.units ((framed_of_bordered h.bordered).body_eq)
  obtain ⟨vs, log, j, hvs, hj⟩ := h.scans (written t locale e) {} 0 [] trivial rfl stops_nil
  rw [List.append_nil, Reader.takeAll] at hj
  obtain ⟨e', log', hclose, he'⟩ := closeStream_spelled (r := ({} : Reader).grown vs log) hvs hunits (by simp)
    (written t locale e)
  unfold parse
  simp only [hbody, hj]
  change ((({} : Reader).grown vs log).closeStream locale (written t locale e)).2.error = none ∧
    ∃ e', ((({} : Reader).grown vs log).closeStream locale (written t locale e)).1 = some e' ∧ _
  rw [hclose]
  exact ⟨rfl, e', rfl, he'⟩

/-- A formula without faults whose text can be read again is read as something in its place. -/
theorem parse_legible {text : String} (hi : locale.imaginary = 'i' ∨ locale.imaginary = 'j')
    (hvalid : (parse locale text).error = none) (he : (parse locale text).expression = some e)
    (hgood : Legible t e) (hkeeps : e.KeepsSign t) :
    (parse locale (e.render locale { rows := t.rows, columns := t.columns })).error = none ∧
      ∃ e', (parse locale (e.render locale { rows := t.rows, columns := t.columns })).expression = some e' ∧
        MovesTo t e e' := by
  obtain ⟨stream, hstream, hreads⟩ := reads_of_isTree hi (isTree_of_parse hi hvalid he) hgood hkeeps
  exact hreads.parse_eq hstream

end Formula

end Spreadsheet

/-! ### Formulas that are moved, written out and read again -/

namespace Spreadsheet

namespace Expression

variable {e a b : Expression} {p : Nat} {s : String}

/-- Whether the unit is a sign before a unit that takes signs. -/
def signsNumber : Expression → Bool
  | .unary _ _ a => a.takesSign
  | _ => false

/-- What makes sure that the text of an expression at another place is read as the expression. -/
structure Rereadable (rows columns : Int) (e : Expression) : Prop where
  arguments : ∀ u ∈ e.units, u.endsInMissing = false
  signs : ∀ u ∈ e.units, u.signsNumber = false
  sheets : ∀ m ∈ e.mentions, m.target.IsReadable
  fits : ∀ m ∈ e.mentions, (m.target.shift? rows columns).isSome = true
  finite : ∀ u ∈ e.units, ∀ x ∈ u.printed, x.isFinite = true

/-- The digits of the numbers that are written by their value are those of the numbers. -/
def PrintsBack (e : Expression) : Prop := ∀ u ∈ e.units, ∀ x ∈ u.printed, Number.ReadsBack x

variable {rows columns : Int}

instance : Decidable (Rereadable rows columns e) :=
  decidable_of_iff ((∀ u ∈ e.units, u.endsInMissing = false) ∧ (∀ u ∈ e.units, u.signsNumber = false) ∧
      (∀ m ∈ e.mentions, m.target.IsReadable) ∧ (∀ m ∈ e.mentions, (m.target.shift? rows columns).isSome = true) ∧
      ∀ u ∈ e.units, ∀ x ∈ u.printed, x.isFinite = true)
    ⟨fun ⟨harguments, hsigns, hsheets, hfits, hfinite⟩ => ⟨harguments, hsigns, hsheets, hfits, hfinite⟩,
      fun h => ⟨h.arguments, h.signs, h.sheets, h.fits, h.finite⟩⟩

instance : Decidable (PrintsBack e) :=
  inferInstanceAs (Decidable (∀ u ∈ e.units, ∀ x ∈ u.printed, Number.ReadsBack x))

/-- Where no sign stands before a number, none is read as a part of one. -/
theorem Rereadable.keepsSign (h : Rereadable rows columns e) (ha : a.units ⊆ e.units) :
    a.KeepsSign (.ofOffset rows columns) := by
  intro p s b hstart _ a' habsorbs
  have hmem : Expression.unary p s b ∈ e.units := ha (hstart ▸ a.start_mem_units)
  have hsign := h.signs _ hmem
  rw [signsNumber, takesSign_of_absorbs habsorbs] at hsign
  cases hsign

theorem Rereadable.legible (h : Rereadable rows columns e) (hback : PrintsBack e) :
    Legible (.ofOffset rows columns) e where
  arguments := h.arguments
  signs _ hu _ ha := h.keepsSign fun _ hv => units_subset e hu (units_enclosed ha hv)
  sheets m hm name hname := Mention.isKept_of_isReadable (h.sheets m hm name hname)
  fits m hm _ := h.fits m hm
  finite := h.finite
  digits := hback

/-- Finite numbers have digits that are read again, so no more has to be known of the numbers. -/
theorem Rereadable.printsBack (h : Rereadable rows columns e) : PrintsBack e :=
  fun u hu x hx => Number.readsBack_of_isFinite (h.finite u hu x hx)

end Expression

namespace Formula

open Expression (Rereadable PrintsBack)

variable {locale : Locale} {rows columns : Int} {e : Expression}

/-- A formula without faults that is moved and written out is read as the formula moved, unless a call ends in an
argument that is left out, a sign stands before a number, a sheet has a name that labels do not keep, a number that is
written by its value is not finite, or a reference leaves the sheet. -/
theorem parse_render {text : String} (hi : locale.imaginary = 'i' ∨ locale.imaginary = 'j')
    (hvalid : (parse locale text).error = none) (he : (parse locale text).expression = some e)
    (hgood : Rereadable rows columns e) (hback : PrintsBack e) :
    (parse locale (e.render locale { rows, columns })).error = none ∧
      ∃ e', (parse locale (e.render locale { rows, columns })).expression = some e' ∧
        e'.sameStructure (e.moved rows columns) = true := by
  obtain ⟨hparse, e', he', hmoves⟩ :=
    parse_legible hi hvalid he (hgood.legible hback) (hgood.keepsSign (List.Subset.refl _))
  exact ⟨hparse, e', he', hmoves.sameStructure⟩

theorem parse_render_sum : ∃ e, (parse {} "=SUM(A1:B2, -$C3, \x7b2\x7d) + 3-2i").expression = some e ∧
    e.render {} { rows := 1, columns := 2 } = "SUM(C2:D3, -$C4, \x7b2\x7d) + 3-2i" ∧
    (parse {} (e.render {} { rows := 1, columns := 2 })).error = none ∧
      ∃ e', (parse {} (e.render {} { rows := 1, columns := 2 })).expression = some e' ∧
        e'.sameStructure (e.moved 1 2) = true := by
  obtain ⟨e, he⟩ := Option.isSome_iff_exists.1 (show
    (parse {} "=SUM(A1:B2, -$C3, \x7b2\x7d) + 3-2i").expression.isSome = true by decide +kernel)
  have hchecked : ∀ e ∈ (parse {} "=SUM(A1:B2, -$C3, \x7b2\x7d) + 3-2i").expression,
      e.render {} { rows := 1, columns := 2 } = "SUM(C2:D3, -$C4, \x7b2\x7d) + 3-2i" ∧
        Expression.Rereadable 1 2 e ∧ Expression.PrintsBack e := by decide +kernel
  obtain ⟨htext, hgood, hback⟩ := hchecked e he
  exact ⟨e, he, htext, parse_render (.inl rfl) (by decide +kernel) he hgood hback⟩

end Formula

end Spreadsheet
