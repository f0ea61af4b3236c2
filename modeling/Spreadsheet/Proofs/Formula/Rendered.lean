import Spreadsheet.Proofs.Formula.Delivered
import Spreadsheet.Proofs.Number.Shortest

/-!
Texts of expressions where they stand, whatever is in them. No text has blanks at its ends, and each starts with a
lexeme that is no closing parenthesis; numbers that are not finite are written as words.
-/

namespace Spreadsheet

/-- Expressions that are written where they stand. -/
abbrev Rereading.inPlace : Rereading := .ofOffset 0 0

namespace Expression

open Float.Model (UnpackedFloat)

/-- Numbers that are not finite are written as words, perhaps behind a minus. -/
theorem renderNumber_of_not_finite (locale : Locale) {x : Float} (hx : x.isFinite = false) :
    renderNumber locale x = "NaN" ∧ ¬0 ≤ x ∨ renderNumber locale x = "Infinity" ∧ 0 ≤ x ∨
      renderNumber locale x = "-Infinity" ∧ ¬0 ≤ x := by
  have hle : (0 ≤ x) ↔ UnpackedFloat.le (.zero .positive) x.toModel.unpack = true := decide_eq_true_iff
  change x.toModel.unpack.isFinite = false at hx
  have hformat (s : String) (hs : substitute '.' ',' s = s) (h : Number.format x = s) : renderNumber locale x = s := by
    unfold renderNumber
    rw [h, hs]
    cases locale.decimal <;> rfl
  cases hu : x.toModel.unpack with
  | notANumber =>
    refine .inl ⟨hformat _ rfl ?_, ?_⟩
    · rw [Number.format, Number.Exact.ofFloat, hu]
    · rw [hle, hu]
      simp [UnpackedFloat.le, UnpackedFloat.compare]
  | infinity s =>
    cases s
    · refine .inr (.inr ⟨hformat _ rfl ?_, ?_⟩)
      · rw [Number.format, Number.Exact.ofFloat, hu]
        rfl
      · rw [hle, hu]
        simp [UnpackedFloat.le, UnpackedFloat.compare]
    · refine .inr (.inl ⟨hformat _ rfl ?_, ?_⟩)
      · rw [Number.format, Number.Exact.ofFloat, hu]
        rfl
      · rw [hle, hu]
        simp [UnpackedFloat.le, UnpackedFloat.compare]
  | zero s => simp [hu, UnpackedFloat.isFinite] at hx
  | finite s m e hm => simp [hu, UnpackedFloat.isFinite] at hx

end Expression

namespace Formula

open Expression (renderNumber)
open Rereading (inPlace)
open Reader (written)

variable {locale : Locale} {first : Bool} {us : List Nat} {s s' : String} {u e : Expression} {stream : List Expression}

/-! ### Ends of texts -/

theorem Framed.append (h : Framed s) (m : String) (h' : Framed s') : Framed (s ++ m ++ s') where
  first := by
    obtain ⟨c, cs, hs, hc⟩ := h.first
    exact ⟨c, cs ++ (m.toList ++ s'.toList), by simp [hs], hc⟩
  last := by
    obtain ⟨cs, c, hs, hc⟩ := h'.last
    exact ⟨s.toList ++ (m.toList ++ cs), c, by simp [hs], hc⟩

theorem IsOpening.of_lead {u : Nat} (h : IsLead u) (hu : u ≠ 40 ∧ u ≠ 41) (us : List Nat) : IsOpening (u :: us) := by
  obtain ⟨⟨_, _, _, _⟩, _, _⟩ := h
  refine .unit u us ?_ ?_
  · simp [isSpaceUnit]
    omega
  · simp
    omega

/-- A text without blanks at its ends that starts with a lexeme. -/
structure Delimited (s : String) : Prop where
  opening : IsOpening (Text.units s)
  framed : Framed s

theorem Delimited.append (h : Delimited s) (m : String) (h' : Delimited s') : Delimited (s ++ m ++ s') where
  opening := by
    rw [Text.units_append, Text.units_append, List.append_assoc]
    exact h.opening.append _
  framed := h.framed.append m h'.framed

theorem delimited_of_bordered (h : Bordered (Text.units s)) (hne : ∀ u ∈ (Text.units s).head?, u ≠ 40 ∧ u ≠ 41) :
    Delimited s where
  opening := by
    obtain ⟨u, hu, hlead⟩ := h.first
    obtain ⟨us, hus⟩ := List.head?_eq_some_iff.1 hu
    rw [hus]
    exact .of_lead hlead (hne u hu) us
  framed := framed_of_bordered h

theorem delimited_word {name : String} (h : Lexeme.IsWord name) : Delimited name := by
  obtain ⟨u, us, hunits, hstart, -⟩ := h.spans
  refine delimited_of_bordered (bordered_word h) ?_
  rw [hunits]
  rintro v ⟨⟩
  constructor <;> rintro rfl <;> cases hstart

theorem delimited_number {x : Float} (h : Lexeme.IsNumber locale us x) (hs : Text.units s = us) : Delimited s := by
  subst hs
  refine delimited_of_bordered (bordered_number h) fun u hu => ?_
  have hunit := h.isNumberUnit u (List.mem_of_mem_head? hu)
  unfold Lexeme.IsNumberUnit at hunit
  omega

theorem delimited_label {a : Reference} (h : a.row ≠ none ∨ a.column ≠ none) : Delimited a.spelling where
  opening := isOpening_label h
  framed := by
    obtain ⟨c, cs, hfirst, hblank, hc⟩ := head_spelling h
    refine ⟨⟨c, cs, hfirst, hblank, ?_⟩, last_spelling h⟩
    rintro rfl
    simp at hc

/-- The text of a number starts with a digit, a minus or one of two capitals. -/
theorem delimited_renderNumber (locale : Locale) (x : Float) : Delimited (renderNumber locale x) := by
  cases hx : x.isFinite with
  | true =>
    have hback : Number.ReadsBackAs inPlace.number x := Number.readsBack_of_isFinite hx
    obtain ⟨n, hn, hne, -⟩ := Lexeme.writes_renderNumber locale hback hx
    exact delimited_number ⟨n, _, hn, hne, .inl ⟨rfl, rfl⟩⟩ rfl
  | false =>
    have hword (s : String) (hlead : ∀ u ∈ Text.units s, IsLead u) (hne : Text.units s ≠ [])
        (hhead : ∀ u ∈ (Text.units s).head?, u ≠ 40 ∧ u ≠ 41) : Delimited s :=
      delimited_of_bordered (bordered_of_forall hne hlead) hhead
    rcases Expression.renderNumber_of_not_finite locale hx with ⟨h, -⟩ | ⟨h, -⟩ | ⟨h, -⟩
    all_goals
      rw [h]
      refine hword _ (fun u hu => ?_) nofun (by rintro u ⟨⟩; decide)
      unfold IsLead IsSolid
      revert u
      decide

/-! ### Texts of units -/

theorem shift?_inPlace {a : Reference} (h : a.IsCell ∨ a.IsRow ∨ a.IsColumn) :
    a.shift? inPlace.rows inPlace.columns = some a := Reference.shift?_zero h

theorem isPlaced {a : Reference} (h : a.IsCell ∨ a.IsRow ∨ a.IsColumn) : a.row ≠ none ∨ a.column ≠ none := by
  rcases h with ⟨r, -, hr, -⟩ | ⟨r, hr, -⟩ | ⟨c, hc, -⟩ <;> simp [*]

/-- The corners of a range lie on the sheet. -/
theorem IsRange.corners {r : RangeMention} (h : IsRange r) :
    (r.first.target.IsCell ∨ r.first.target.IsRow ∨ r.first.target.IsColumn) ∧
      (r.last.target.IsCell ∨ r.last.target.IsRow ∨ r.last.target.IsColumn) := by
  rcases h with h | h | h
  · exact ⟨.inl h.1, .inl h.2⟩
  · exact ⟨.inr (.inl h.1), .inr (.inl h.2)⟩
  · exact ⟨.inr (.inr h.1), .inr (.inr h.2)⟩

/-- The text of an expression where it stands. -/
def IsDelimited (locale : Locale) (e : Expression) : Prop := Delimited (e.render locale {})

theorem delimited_enclosed {v w : Nat} (hv : IsLead v) (hw : IsSolid w) (hne : v ≠ 40 ∧ v ≠ 41)
    (h : written inPlace locale e = v :: (us ++ [w])) : IsDelimited locale e := by
  have hunits : Text.units (e.render locale {}) = v :: (us ++ [w]) := h
  refine delimited_of_bordered (hunits ▸ bordered_between hv hw us) ?_
  rw [hunits]
  rintro u ⟨⟩
  exact hne

theorem delimited_complex (hi : locale.imaginary = 'i' ∨ locale.imaginary = 'j') (z : Complex) :
    Delimited (Expression.renderComplex locale z) := by
  have hunit : Delimited locale.imaginary.toString := by
    have hword : ∀ u ∈ (Text.units locale.imaginary.toString), isWordStart u = true ∧ u ≠ 40 ∧ u ≠ 41 := by
      rcases hi with h | h <;> rw [h] <;> decide
    refine delimited_of_bordered (bordered_of_forall ?_ fun u hu => isLead_of_wordStart (hword u hu).1) fun u hu =>
      (hword u (List.mem_of_mem_head? hu)).2
    rcases hi with h | h <;> rw [h] <;> decide
  have hparts := (delimited_renderNumber locale z.real).append (if 0 ≤ z.imaginary then "+" else "")
    (delimited_renderNumber locale z.imaginary)
  have hwhole := hparts.append "" hunit
  rwa [String.append_empty] at hwhole

/-! ### Texts of trees -/

/-- A sign in front changes only what the text starts with. -/
theorem delimited_sign (hs : Operator.isSign s = true) (p : Nat) (he : IsDelimited locale e) :
    IsDelimited locale (.unary p s e) := by
  have hcases : s = "-" ∨ s = "+" := by simpa [Operator.isSign] using hs
  have hsign : Delimited s := by
    rcases hcases with rfl | rfl <;>
      exact delimited_of_bordered (bordered_of_forall (by decide)
        (by simp [Text.units, Text.unitsOfChar, IsLead, IsSolid])) (by simp [Text.units, Text.unitsOfChar])
  have hwhole := hsign.append "" he
  rw [String.append_empty] at hwhole
  rwa [IsDelimited, Expression.render]

/-- The text of a tree is delimited if those of its units are. -/
theorem delimited_arranged (h : Arrange.Arranges e stream)
    (hus : ∀ u ∈ stream, u.isAnyOperator = false → IsDelimited locale u) : IsDelimited locale e := by
  induction h with
  | operand e he => exact hus e List.mem_cons_self (Expression.not_of_isOperand he).2
  | unary p s a us hs _ _ ih => exact delimited_sign hs p (ih fun u hu => hus u (List.mem_cons_of_mem _ hu))
  | binary p s a b us vs _ _ iha ihb =>
    have hleft := iha fun u hu => hus u (List.mem_append_left _ hu)
    have hright := ihb fun u hu => hus u (List.mem_append_right _ (List.mem_cons_of_mem _ hu))
    have hwhole := hleft.append (" " ++ s ++ " ") hright
    rw [IsDelimited, Expression.render]
    simpa only [String.append_assoc] using hwhole

mutual

theorem delimited_of_isUnit (hi : locale.imaginary = 'i' ∨ locale.imaginary = 'j') {first : Bool} {u : Expression}
    (h : IsUnit locale first u) (hsettled : IsSettled locale u) (hplain : u.isAnyOperator = false) :
    IsDelimited locale u :=
  match h with
  | .text _ p s => by
    have hunits : written inPlace locale (.literal p (.text s) none) = 34 :: (Lexeme.escaped s.toList ++ [34]) := by
      rw [written, Expression.render]
      · exact Reader.units_renderText locale s
      · simp
    exact delimited_enclosed (by simp [IsLead, IsSolid]) (by simp [IsSolid]) (by simp) hunits
  | .boolean first p b => by
    have hunits : Text.units ((Expression.literal p (.boolean b) none).render locale {}) =
        Text.units (if b then "TRUE" else "FALSE") := by
      rw [Expression.render]
      · rfl
      · simp
    have hreads : Reads inPlace locale first (.literal p (.boolean b) none) _ := reads_boolean p b
    refine delimited_of_bordered hreads.bordered ?_
    rw [hunits]
    cases b <;>
    · rintro u ⟨⟩
      decide
  | .number _ p us x hx _ => delimited_number hx (Reader.written_number (t := inPlace) p hx)
  | .imaginary _ p y spelling => nomatch hsettled.imaginary
  | .complex _ p z spelling _ => delimited_complex hi z
  | .cell _ m hm => by
    have hlabel : (Expression.cell m).render locale {} = m.target.spelling :=
      Reader.renderMention_eq (shift?_inPlace (.inl hm))
    rw [IsDelimited, hlabel]
    exact delimited_label (isPlaced (.inl hm))
  | .range _ p r hr => by
    obtain ⟨hfirst, hlast⟩ := hr.corners
    have hlabel : (Expression.range p r).render locale {} =
        r.first.target.spelling ++ ":" ++ r.last.target.spelling := by
      rw [Expression.render]
      exact congrArg₂ (· ++ ":" ++ ·) (Reader.renderMention_eq (shift?_inPlace hfirst))
        (Reader.renderMention_eq (shift?_inPlace hlast))
    rw [IsDelimited, hlabel]
    exact (delimited_label (isPlaced hfirst)).append _ (delimited_label (isPlaced hlast))
  | .identifier _ p name hname _ => delimited_word hname
  | .operator _ p s hs => nomatch hplain
  | .call _ p name args hname _ => by
    obtain ⟨u, us, hunits, hstart, -⟩ := hname.spans
    have hwritten : written inPlace locale (.call p name args) = _ := Reader.written_call p name args
    rw [hunits, List.cons_append, ← List.cons_append (a := 40), ← List.append_assoc] at hwritten
    refine delimited_enclosed (isLead_of_wordStart hstart) (by simp [IsSolid]) ?_ hwritten
    constructor <;> rintro rfl <;> cases hstart
  | .group _ p e he => by
    have hopening := (delimited_of_isTree hi he).opening
    have hwritten : written inPlace locale (.group p [e] true) = _ := Reader.written_group p e
    have hunits : Text.units ((Expression.group p [e] true).render locale {}) =
        40 :: (written inPlace locale e ++ [41]) := hwritten
    refine ⟨?_, framed_of_bordered ?_⟩
    · rw [hunits]
      exact .parenthesis _ (hopening.append [41])
    · rw [hunits]
      exact bordered_between (by simp [IsLead, IsSolid]) (by simp [IsSolid]) _
  | .array _ p members height harray =>
    delimited_enclosed (by simp [IsLead, IsSolid]) (by simp [IsSolid]) (by simp)
      (Reader.written_array (t := inPlace) p harray)

theorem delimited_of_isStream (hi : locale.imaginary = 'i' ∨ locale.imaginary = 'j') {first : Bool}
    {us : List Expression} (h : IsStream locale first us) (hsettled : ∀ u ∈ us, IsSettled locale u) :
    ∀ u ∈ us, u.isAnyOperator = false → IsDelimited locale u :=
  match h with
  | .nil _ => fun _ hu => absurd hu List.not_mem_nil
  | .cons _ u us hu hus => by
    obtain ⟨hsettled, hrest⟩ := List.forall_mem_cons.1 hsettled
    exact List.forall_mem_cons.2 ⟨delimited_of_isUnit hi hu hsettled, delimited_of_isStream hi hus hrest⟩

/-- The text of a tree starts with a lexeme and has no blanks at its ends. -/
theorem delimited_of_isTree (hi : locale.imaginary = 'i' ∨ locale.imaginary = 'j') {e : Expression}
    (h : IsTree locale e) : IsDelimited locale e :=
  match h with
  | .intro _ _ hstream hsettled hunits => delimited_arranged (Arrange.arranges_units hunits (isFlat_of_stream hstream))
      (delimited_of_isStream hi hstream hsettled)

end

end Formula

end Spreadsheet
