import Spreadsheet.Proofs.Formula.Bordered
import Spreadsheet.Proofs.Number.Negative

/-!
Signs directly before numbers. Where no operand stands before a sign it is read as a part of the number after it, also
of the real part of a complex number and of the number of a row.
-/

namespace Spreadsheet

/-- A number with a sign before it. -/
def Number.signedBy (s : String) (x : Float) : Float := if s == "-" then -x else x

open Number (signedBy)

/-- What is read where a sign stands directly before an operand that takes it. -/
inductive Rereading.Absorbs (t : Rereading) : String → Expression → Expression → Prop
  | number (p q : Nat) (s : String) (x : Float) (spelling : String) :
      t.Absorbs s (.literal p (.number x) (some spelling)) (.literal q (.number (signedBy s x)) (some (s ++ spelling)))
  | complex (p q : Nat) (s : String) (z w : Complex) (spelling spelling' : Option String) : t.number w.real z.real →
      t.number w.imaginary z.imaginary →
      t.Absorbs s (.complex p z spelling) (.complex q ⟨signedBy s w.real, w.imaginary⟩ spelling')
  | rows (p q : Nat) (r r' : RangeMention) : Mention.IsBareRow r.first.target → r.last.target.IsRow →
      r'.first.target = r.first.target.moved t.rows t.columns → r'.last.target = r.last.target.moved t.rows t.columns →
      t.Absorbs "+" (.range p r) (.range q r')

namespace Formula

variable {t : Rereading} {locale : Locale} {us : List Nat} {x : Float} {s : String} {u : Nat}

/-! ### Numbers with a sign before them -/

namespace Lexeme

variable {n : Numeral}

theorem sign_cases (hs : Operator.isSign s = true) (hu : Text.units s = [u]) : WritesSign [u] (s == "-") := by
  have hcases : s = "-" ∨ s = "+" := by simpa [Operator.isSign] using hs
  rcases hcases with rfl | rfl
  · obtain rfl := (List.cons.inj hu).1
    exact .minus
  · obtain rfl := (List.cons.inj hu).1
    exact .plus

/-- A number without a sign is a number with one, too. -/
theorem Writes.signed (h : Writes locale us n) (hus : Unsigned us) {negative : Bool} (hu : WritesSign [u] negative) :
    Writes locale (u :: us) { n with negative, length := us.length + 1 } := by
  obtain ⟨sign, fraction, exponent, rfl, hsign, hwhole, hplaces, hexponent, -⟩ := h
  generalize n.negative = b at hsign
  cases hsign with
  | none => exact ⟨[u], fraction, exponent, rfl, hu, hwhole, hplaces, hexponent, rfl⟩
  | minus => cases hus
  | plus => cases hus

theorem value_signed (h : n.negative = false) (s : String) (length : Nat) :
    { n with negative := s == "-", length }.value = signedBy s n.value := by
  unfold Numeral.value signedBy
  rw [h]
  cases hs : s == "-" <;> simp [Number.ofDecimal]

/-- A sign before a number makes another number. -/
theorem IsNumber.signed (h : IsNumber locale us x) (hus : Unsigned us) (hs : Operator.isSign s = true)
    (hu : Text.units s = [u]) : IsNumber locale (u :: us) (signedBy s x) := by
  have hsign := sign_cases hs hu
  obtain ⟨n, vs, hvs, hne, ⟨rfl, rfl⟩ | ⟨rfl, rfl⟩⟩ := h
  · exact ⟨_, _, hvs.signed hus hsign, hne, .inl ⟨rfl, (value_signed (hvs.negative_eq hus) s _).symm⟩⟩
  · have hvs' := hus.of_append
    refine ⟨_, _, hvs.signed hvs' hsign, hne, .inr ⟨rfl, ?_⟩⟩
    rw [value_signed (hvs.negative_eq hvs'), signedBy, signedBy]
    split
    · exact (Number.neg_div _ _).symm
    · rfl

theorem ofUnits_signed (hus : Text.units (Text.ofUnits us) = us) (hu : Text.units s = [u]) :
    Text.ofUnits (u :: us) = s ++ Text.ofUnits us := by
  have hunits : Text.units (s ++ Text.ofUnits us) = u :: us := by
    rw [Text.units_append, hu, hus]
    rfl
  rw [← hunits, Text.ofUnits_units]

end Lexeme

/-! ### Rows with a sign before them -/

namespace Mention

open Fold (leftCorner?)

variable {r : Nat}

theorem name_plus (hr : r ≤ Row.last) (p : Nat) :
    Mention.ofUnit? (.literal p (.number (Number.floatOfNat (r + 1))) (some ("+" ++ Row.name r))) =
      some { target := { row := some r }, label := Row.name r, position := p } := by
  refine Mention.ofRowNumber?_floatOfNat hr ?_ p
  rw [String.toList_append, List.mem_append]
  rintro (h | h)
  · exact absurd h (by decide)
  · exact Mention.point_not_mem_name r h

/-- A negative number before a colon is a minus before a row. -/
theorem leftCorner?_minus (hr : r ≤ Row.last) (p : Nat) :
    leftCorner? (.literal p (.number (-Number.floatOfNat (r + 1))) (some ("-" ++ Row.name r))) =
      some (some (.operator p "-"), { target := { row := some r }, label := Row.name r, position := p + 1 }) := by
  have hbound : r + 1 < 2 ^ 53 := by
    have : r ≤ 4294967294 := hr
    omega
  obtain ⟨hlt, hnot⟩ := Number.neg_lt_zero (Number.zero_lt_floatOfNat (Nat.succ_pos r) hbound)
  have hdrop : String.ofList ((("-" ++ Row.name r) : String).toList.dropWhile (· == '-')) = Row.name r := by
    have hname : (Row.name r).toList.dropWhile (· == '-') = (Row.name r).toList := by
      cases hcs : (Row.name r).toList with
      | nil => rfl
      | cons c cs =>
        refine List.dropWhile_cons_of_neg fun hc => ?_
        have hdigit := Row.digits_name r c (hcs ▸ List.mem_cons_self)
        rw [eq_of_beq hc] at hdigit
        cases hdigit
    rw [String.toList_append]
    change String.ofList ((Row.name r).toList.dropWhile (· == '-')) = _
    rw [hname, String.ofList_toList]
  have hnone : Mention.ofUnit? (.literal p (.number (-Number.floatOfNat (r + 1))) (some ("-" ++ Row.name r))) =
      none := by
    unfold Mention.ofUnit? Mention.ofRowNumber?
    simp [hnot]
  unfold leftCorner?
  rw [hnone]
  simp only [Fold.negatedRow?, hlt, if_true, Option.map_some, hdrop, Number.neg_neg,
    Mention.ofRowNumber?_floatOfNat hr (Mention.point_not_mem_name r)]

end Mention

/-! ### Streams with a sign in front -/

namespace Arrange

variable {vs ws : List Expression}

/-- The second stream is the first one, perhaps with the sign in front and its operand as one unit. -/
inductive Opens : List Expression → List Expression → Prop
  | same (us : List Expression) : Opens us us
  | sign (p : Nat) (s : String) (u : Expression) (us : List Expression) : Operator.isSign s = true →
      u.isAnyOperator = false → Opens (.operator p s :: u :: us) (.unary p s u :: us)

theorem Opens.append (h : Opens vs ws) (us : List Expression) : Opens (vs ++ us) (ws ++ us) := by
  cases h with
  | same => exact .same _
  | sign p s u vs hs hu => exact .sign p s u _ hs hu

theorem Opens.ne_nil (h : Opens vs ws) (hvs : vs ≠ []) : ws ≠ [] := by
  cases h with
  | same => exact hvs
  | sign => exact List.cons_ne_nil _ _

/-- Both streams make the same tree. -/
theorem Opens.units_eq (h : Opens vs ws) : units ws = units vs := by
  cases h with
  | same => rfl
  | sign p s u vs hs hu =>
    have htake : takeOperand [] (.operator p s :: u :: vs) = takeOperand [] (.unary p s u :: vs) := by
      rw [takeOperand, if_pos hs, takeOperand, takeOperand]
      · rfl
      · rintro q symbol ⟨⟩
      · rintro q symbol rfl
        cases hu
    rw [units, units, htake]

end Arrange

/-! ### Operands that take signs -/

namespace Reader

open Lexeme (IsNumber Unsigned)
open Number (ReadsBackAs)
open Arrange (Opens)

variable {a b : Reference} {e : Expression}

theorem written_unary (p : Nat) (hu : Text.units s = [u]) (e : Expression) :
    written t locale (.unary p s e) = u :: written t locale e := by
  rw [written, Expression.render, Text.units_append, hu]
  rfl

/-- Where nothing stands before it, a sign belongs to the number after it. -/
theorem scans_signedNumber (hi : locale.imaginary = 'i' ∨ locale.imaginary = 'j') (p q : Nat)
    (hs : Operator.isSign s = true) (hu : Text.units s = [u]) (hx : IsNumber locale us x) (hus : Unsigned us)
    (hsigned : ∀ e, t.Absorbs s (.literal q (.number x) (some (Text.ofUnits us))) e →
      t.signed s (.literal q (.number x) (some (Text.ofUnits us))) e) :
    Scans locale true (written t locale (.unary p s (.literal q (.number x) (some (Text.ofUnits us)))))
      (Spelled t locale [.unary p s (.literal q (.number x) (some (Text.ofUnits us)))]) := by
  rw [written_unary p hu, written_number q hx]
  refine (reads_number hi (hx.signed hus hs hu) (by rintro ⟨⟩)).scans ?_
  rintro _ ⟨k, rfl⟩
  rw [Lexeme.ofUnits_signed hx.units_ofUnits hu]
  exact spelled_unit (.signed p s _ _ rfl (hsigned _ (.number q k s x _))) ⟨rfl, rfl⟩

/-- Where nothing stands before it, a sign belongs to the real part of the complex number after it. -/
theorem scans_signedComplex (hi : locale.imaginary = 'i' ∨ locale.imaginary = 'j') (p q : Nat)
    (hs : Operator.isSign s = true) (hu : Text.units s = [u]) {z : Complex} (spelling : Option String)
    (hreal : ReadsBackAs t.number z.real) (hreal' : z.real.isFinite = true)
    (himaginary : ReadsBackAs t.number z.imaginary) (himaginary' : z.imaginary.isFinite = true)
    (hpositive : Number.sign? z.real = some .positive)
    (hsigned : ∀ e, t.Absorbs s (.complex q z spelling) e → t.signed s (.complex q z spelling) e) :
    Scans locale true (written t locale (.unary p s (.complex q z spelling)))
      (Spelled t locale [.unary p s (.complex q z spelling)]) := by
  obtain ⟨n, m, vs, ws, v, s', hwritten, ⟨hvs, hne, hexponent, hunsigned⟩, ⟨hws, hne', hexponent', hunsigned'⟩, hs', hv,
    hvalue, hvalue'⟩ := written_complex hi q spelling hreal hreal' himaginary himaginary'
  have hplain := hunsigned (Number.not_lt_of_positive hpositive)
  have hsignedValue := Lexeme.value_signed (hvs.negative_eq hplain) s (vs.length + 1)
  rw [written_unary p hu, hwritten, ← List.cons_append]
  refine (scans_parts hi (hvs.signed hplain (Lexeme.sign_cases hs hu)) hne hexponent (by rintro ⟨⟩) hs' hv hws hne'
    hexponent' hunsigned').imp ?_
  rintro _ ⟨k, k', k'', spelling', spelling'', rfl⟩
  rw [hsignedValue]
  refine .complex k k' k'' _ _ _ s' _ _ [] [] hs' (fun r spelling₀ => .signed p s _ _ rfl (hsigned _ ?_)) .nil
  exact .complex q r s z (joinedComplex n.value s' m.value) spelling spelling₀ hvalue hvalue'

/-- Where nothing stands before it, a sign belongs to the number of the row after it. A plus does not keep the number
from being a row; a minus is taken off it again. -/
theorem scans_signedRows (hi : locale.imaginary = 'i' ∨ locale.imaginary = 'j') (p q : Nat)
    (hs : Operator.isSign s = true) (hu : Text.units s = [u]) {m : RangeMention} (hrow : m.first.target.IsRow)
    (hrow' : m.last.target.IsRow) (hlast : m.last.target.IsKept)
    (ha : m.first.target.shift? t.rows t.columns = some a) (hb : m.last.target.shift? t.rows t.columns = some b)
    (hbare : Mention.IsBareRow a)
    (hsigned : ∀ e, t.Absorbs s (.range q m) e → t.signed s (.range q m) e) :
    ∃ vs, Opens [.operator p s, .range q m] vs ∧
      Scans locale true (written t locale (.unary p s (.range q m))) (Spelled t locale vs) := by
  obtain ⟨r, hr, heq, hspelling, hnumber, hdigits, hne⟩ := Mention.isNumber_bareRow locale hbare
  have hunsigned : Unsigned (Text.units a.spelling) := by simpa using Lexeme.unsigned_of_digits hdigits hne []
  have hunits : written t locale (.unary p s (.range q m)) =
      u :: Text.units a.spelling ++ 58 :: Text.units b.spelling := by
    rw [written_unary p hu, written_range q ha hb, List.cons_append]
  have hlabel : Text.ofUnits (u :: Text.units a.spelling) = s ++ Row.name r := by
    rw [Lexeme.ofUnits_signed (by rw [Text.ofUnits_units]) hu, Text.ofUnits_units, hspelling]
  have hleft : ReadsAs locale true _ _ := reads_number hi (hnumber.signed hunsigned hs hu) (by simp)
  rw [hlabel] at hleft
  obtain ⟨v, ws, -, -, hws, hstart, -⟩ :=
    Mention.read_axis false hi (.inl (hrow'.shift? hb)) (hlast.shift? hb) stops_nil 0
  have hright := reads_axis false hi (.inl (hrow'.shift? hb)) (hlast.shift? hb)
  rw [hws] at hright hunits
  rw [hunits]
  have haxis {k n : Mention} (hk : k.target = a) (hn : n.target = b) : Fold.sameAxis k n = true :=
    sameAxis_of (.inl ⟨hk ▸ hrow.shift? ha, hn ▸ hrow'.shift? hb⟩)
  have hcases : s = "-" ∨ s = "+" := by simpa [Operator.isSign] using hs
  rcases hcases with rfl | rfl
  · refine ⟨_, .same _, scans_colon hleft hright (ne_of_label (hstart.imp And.left id)) ?_⟩
    rintro _ f j ⟨i, rfl⟩ ⟨n, hn, htarget, -⟩
    refine .negated p j _ _ f [] [] ⟨rfl, fun log => ?_⟩ .nil
    have hrange := range?_axes (Mention.leftCorner?_minus hr i) (by simp) hn (haxis heq.symm htarget) log
    exact ⟨i, _, _, hrange, movesTo_between q _ (by rw [ha, heq]) (by rw [hb, htarget])⟩
  · refine ⟨_, .sign p "+" (.range q m) [] rfl rfl, scans_colon hleft hright (ne_of_label (hstart.imp And.left id)) ?_⟩
    rintro _ f j ⟨i, rfl⟩ ⟨n, hn, htarget, -⟩
    refine .range j _ _ f [] [] ⟨rfl, fun log => ?_⟩ .nil
    obtain ⟨hcorner, hcell⟩ := leftCorner?_unit (Mention.name_plus hr i)
    refine ⟨_, _, range?_axes hcorner hcell hn (haxis heq.symm htarget) log, .signed p "+" _ _ rfl (hsigned _ ?_)⟩
    exact .rows q _ m _ (hbare.of_shift? hrow ha) hrow' ((moved_eq ha).trans heq).symm
      (htarget.trans (moved_eq hb).symm)

end Reader

end Formula

end Spreadsheet
