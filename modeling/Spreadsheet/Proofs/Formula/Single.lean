import Spreadsheet.Proofs.Formula.CellLabel
import Spreadsheet.Proofs.Formula.Delivered
import Spreadsheet.Proofs.Formula.WellFormed

/-!
Formulas that are a single reference. Apart from empty parentheses, which leave no trace, their texts are the text of a
reference, or two of them around a colon, with space between.
-/

namespace Spreadsheet

namespace Text

/-! ### Quotes -/

/-- The characters of a text but its single quotes, each with whether it stands between two of them. The text starts
between quotes or not. -/
def placed : Bool → List Char → List (Char × Bool)
  | _, [] => []
  | quoted, c :: cs => if c = '\x27' then placed (!quoted) cs else (c, quoted) :: placed quoted cs

theorem placed_cons {c : Char} (hc : c ≠ '\x27') (quoted : Bool) (cs : List Char) :
    placed quoted (c :: cs) = (c, quoted) :: placed quoted cs := if_neg hc

theorem placed_quote (quoted : Bool) (cs : List Char) : placed quoted ('\x27' :: cs) = placed (!quoted) cs := rfl

theorem placed_append {cs : List Char} (h : '\x27' ∉ cs) (quoted : Bool) (ds : List Char) :
    placed quoted (cs ++ ds) = cs.map (·, quoted) ++ placed quoted ds := by
  induction cs with
  | nil => rfl
  | cons c cs ih =>
    obtain ⟨hc, hcs⟩ := not_or.1 (mt List.mem_cons.2 h)
    rw [List.cons_append, placed_cons (Ne.symm hc), ih hcs, List.map_cons, List.cons_append]

/-- The front of a text is placed as it is by itself. -/
theorem placed_front (quoted : Bool) (cs ds : List Char) :
    ∃ quoted', placed quoted (cs ++ ds) = placed quoted cs ++ placed quoted' ds := by
  induction cs generalizing quoted with
  | nil => exact ⟨quoted, rfl⟩
  | cons c cs ih =>
    by_cases hc : c = '\x27'
    · obtain rfl := hc
      exact ih (!quoted)
    · obtain ⟨quoted', h⟩ := ih quoted
      exact ⟨quoted', by rw [List.cons_append, placed_cons hc, placed_cons hc, h, List.cons_append]⟩

/-! ### Blanks around a text -/

theorem trimChars_pad {before after : List Char} (hbefore : ∀ c ∈ before, isBlank c = true)
    (hafter : ∀ c ∈ after, isBlank c = true) (cs : List Char) :
    trimChars (before ++ (cs ++ after)) = trimChars cs := by
  have hend : trimEnd (cs ++ after) = trimEnd cs := by
    rw [trimEnd, List.reverse_append, List.dropWhile_append_of_pos fun c hc => hafter c (List.mem_reverse.1 hc)]
    rfl
  calc trimChars (before ++ (cs ++ after)) = trimChars (cs ++ after) := by
        rw [trimChars, trimStart, List.dropWhile_append_of_pos hbefore]
        rfl
    _ = trimChars (trimEnd (cs ++ after)) := (trimChars_trimEnd _).symm
    _ = trimChars cs := by rw [hend, trimChars_trimEnd]

/-- A text is what is left of it when it is trimmed, with blanks around. -/
theorem exists_pad (cs : List Char) : ∃ before after, cs = before ++ (trimChars cs ++ after) ∧
    (∀ c ∈ before, isBlank c = true) ∧ ∀ c ∈ after, isBlank c = true := by
  have hsplit (ds : List Char) : ∃ after, ds = trimEnd ds ++ after ∧ ∀ c ∈ after, isBlank c = true := by
    refine ⟨(ds.reverse.takeWhile isBlank).reverse, ?_, fun c hc => ?_⟩
    · rw [trimEnd, ← List.reverse_append, List.takeWhile_append_dropWhile, List.reverse_reverse]
    · exact List.mem_takeWhile_imp (List.mem_reverse.1 hc)
  obtain ⟨after, hend, hafter⟩ := hsplit (trimStart cs)
  refine ⟨cs.takeWhile isBlank, after, ?_, fun c hc => List.mem_takeWhile_imp hc, hafter⟩
  rw [trimChars, ← hend]
  exact List.takeWhile_append_dropWhile.symm

/-- Characters whose units are divided where no character is torn apart. -/
theorem split_flatMap {cs : List Char} {us vs : List Nat} (h : cs.flatMap unitsOfChar = us ++ vs)
    (hus : ∀ u ∈ us.getLast?, u < 0xD800) :
    ∃ ds es, cs = ds ++ es ∧ ds.flatMap unitsOfChar = us ∧ es.flatMap unitsOfChar = vs := by
  induction cs generalizing us with
  | nil =>
    obtain ⟨rfl, rfl⟩ := List.append_eq_nil_iff.1 h.symm
    exact ⟨[], [], rfl, rfl, rfl⟩
  | cons c cs ih =>
    cases us with
    | nil => exact ⟨[], c :: cs, rfl, rfl, h⟩
    | cons u us =>
      have htail {rest : List Nat} (hrest : cs.flatMap unitsOfChar = rest ++ vs)
          (hlast : ∀ v ∈ rest.getLast?, v < 0xD800) (hu : unitsOfChar c ++ rest = u :: us) :
          ∃ ds es, c :: cs = ds ++ es ∧ ds.flatMap unitsOfChar = u :: us ∧ es.flatMap unitsOfChar = vs := by
        obtain ⟨ds, es, rfl, rfl, hes⟩ := ih hrest hlast
        exact ⟨c :: ds, es, rfl, by rw [List.flatMap_cons, hu], hes⟩
      rw [List.flatMap_cons] at h
      by_cases hc : c.toNat < 0x10000
      · rw [unitsOfChar_of_lt hc] at h htail
        obtain ⟨rfl, hrest⟩ := List.cons.inj h
        refine htail hrest (fun v hv => hus v ?_) rfl
        rw [List.getLast?_cons_of_ne_nil fun hnil => ?_]
        · exact hv
        · rw [hnil] at hv
          cases hv
      · rw [unitsOfChar_of_le (by omega)] at h htail
        obtain ⟨rfl, hrest⟩ := List.cons.inj h
        cases us with
        | nil =>
          have hhigh : 0xD800 + (c.toNat - 0x10000) / 0x400 < 0xD800 := hus _ rfl
          omega
        | cons v us =>
          obtain ⟨rfl, hlow⟩ := List.cons.inj hrest
          refine htail hlow (fun w hw => hus w ?_) rfl
          have hne : us ≠ [] := by
            rintro rfl
            cases hw
          rwa [List.getLast?_cons_of_ne_nil (by simp), List.getLast?_cons_of_ne_nil hne]

end Text

namespace Formula

variable {locale : Locale} {e root : Expression} {vs ws stream rest : List Expression}

/-! ### Trees of one unit -/

namespace Arrange

theorem isBinary_attach (node : Expression) (symbol : String) (p : Nat) (operand : Expression) :
    (attach node symbol p operand).isBinary = true := by
  unfold attach
  split
  · split <;> rfl
  · rfl

/-- What is built of more than one operand is an operation. -/
theorem eq_of_build {pending : Option (String × Nat × List (String × Nat))} (h : build root pending stream = .ok e)
    (hbinary : e.isBinary = false) : pending = none ∧ stream = [] ∧ root = e := by
  fun_induction build root pending stream with
  | case1 root => exact ⟨rfl, rfl, Except.ok.inj h⟩
  | case2 => cases h
  | case3 root rest p symbol ih => cases (ih h).1
  | case4 => cases h
  | case5 root rest symbol p signs q s hsign ih => cases (ih h).1
  | case6 => cases h
  | case7 root rest symbol p signs u hu ih =>
    have hroot := (ih h).2.2
    rw [← hroot, isBinary_attach] at hbinary
    cases hbinary

theorem eq_of_takeOperand {signs : List (String × Nat)} (h : takeOperand signs stream = .ok (e, rest))
    (hunary : ∀ p s a, e ≠ .unary p s a) : signs = [] ∧ stream = e :: rest := by
  fun_induction takeOperand signs stream with
  | case1 => cases h
  | case2 signs p symbol rest' hsign ih => cases (ih h).1
  | case3 => cases h
  | case4 signs u rest' hu =>
    obtain ⟨rfl, rfl⟩ := Prod.mk.inj (Except.ok.inj h)
    cases hsigns : signs.reverse with
    | nil => exact ⟨List.reverse_eq_nil_iff.1 hsigns, by rw [applySigns]⟩
    | cons sign signs' =>
      rw [hsigns] at hunary
      exact absurd rfl (hunary _ _ _)

/-- A tree that is no operation has one unit. -/
theorem eq_singleton_of_tree (h : tree stream = .ok e) (hbinary : e.isBinary = false)
    (hunary : ∀ p s a, e ≠ .unary p s a) : stream = [e] := by
  unfold tree at h
  split at h
  · cases h
  · unfold units at h
    cases hfirst : takeOperand [] stream with
    | error err =>
      rw [hfirst] at h
      cases h
    | ok first =>
      obtain ⟨root, rest⟩ := first
      rw [hfirst] at h
      obtain ⟨-, rfl, rfl⟩ := eq_of_build h hbinary
      exact (eq_of_takeOperand hfirst hunary).2

end Arrange

/-! ### Texts of references -/

section

open Spreadsheet.Mention
open Lexeme hiding read

variable {first : Bool} {cs ds blanks : List Char} {a : Reference} {m : Mention} {v : Expression} {out us : List Nat}
  {u n p : Nat} {name : String}

theorem ofAxisWord?_eq (cs : List Char) (p q : Nat) :
    ofAxisWord? cs p = (ofAxisWord? cs q).map fun m => { m with position := p } := by
  unfold ofAxisWord?
  simp only
  split
  · rfl
  · split <;> rfl

theorem ofRowNumber?_eq (x : Float) (spelling : Option String) (p q : Nat) :
    ofRowNumber? x spelling p = (ofRowNumber? x spelling q).map fun m => { m with position := p } := by
  unfold ofRowNumber?
  simp only
  split <;> rfl

/-- The reference that a word stands for is the one that its mention names, wherever the word stands. -/
theorem referenceOfWord?_of_wordAtom (h : wordAtom name p = .cell m ∨ ofUnit? (wordAtom name p) = some m) :
    referenceOfWord? name = some m.target := by
  unfold wordAtom at h
  unfold referenceOfWord?
  rw [ofCellWord?_eq _ 0 p, ofAxisWord?_eq _ 0 p]
  cases hcell : ofCellWord? name.toList p with
  | some k =>
    rw [hcell] at h
    rcases h with h | h
    · obtain rfl := Expression.cell.inj h
      rfl
    · cases h
  | none =>
    rw [hcell] at h
    rcases h with h | h
    · cases h
    · have haxis : ofAxisWord? name.toList p = some m := h
      rw [haxis]
      rfl

/-- The characters are the text of the reference and can stand next to others: quotes in them come in pairs, and a colon
stands between two quotes. -/
structure StandsFor (locale : Locale) (cs : List Char) (a : Reference) : Prop where
  reads : parseReference locale (String.ofList cs) = some a
  quotes : ∀ ds, Text.placed false (cs ++ ds) = Text.placed false cs ++ Text.placed false ds
  colon : (':', true) ∉ Text.placed false cs → ':' ∉ cs

/-- Characters without quotes and colons. -/
def IsUnquoted (cs : List Char) : Prop := '\x27' ∉ cs ∧ ':' ∉ cs

theorem IsUnquoted.standsFor (h : IsUnquoted cs) (hreads : parseReference locale (String.ofList cs) = some a) :
    StandsFor locale cs a where
  reads := hreads
  quotes ds := by
    have hcs := Text.placed_append h.1 false []
    rw [List.append_nil] at hcs
    rw [Text.placed_append h.1, hcs, Text.placed, List.append_nil]
  colon _ := h.2

theorem standsFor_quoted {inner after : List Char} (hinner : '\x27' ∉ inner) (hafter : IsUnquoted after)
    (hreads : parseReference locale (String.ofList ('\x27' :: (inner ++ '\x27' :: after))) = some a) :
    StandsFor locale ('\x27' :: (inner ++ '\x27' :: after)) a := by
  have hplaced (ds : List Char) : Text.placed false ('\x27' :: (inner ++ '\x27' :: after) ++ ds) =
      inner.map (·, true) ++ (after.map (·, false) ++ Text.placed false ds) := by
    rw [List.cons_append, List.append_assoc, List.cons_append, Text.placed_quote, Bool.not_false,
      Text.placed_append hinner, Text.placed_quote, Bool.not_true, Text.placed_append hafter.1]
  have hwhole := hplaced []
  rw [List.append_nil, Text.placed, List.append_nil] at hwhole
  refine ⟨hreads, fun ds => by rw [hplaced, hwhole, List.append_assoc], fun hcolon hmem => ?_⟩
  rw [hwhole] at hcolon
  rcases List.mem_cons.1 hmem with h | hmem
  · cases h
  · rcases List.mem_append.1 hmem with hmem | hmem
    · exact hcolon (List.mem_append_left _ (List.mem_map.2 ⟨':', hmem, rfl⟩))
    · rcases List.mem_cons.1 hmem with h | hmem
      · cases h
      · exact hafter.2 hmem

/-- Blanks before and after the text of a reference make no difference. -/
theorem StandsFor.pad (h : StandsFor locale cs a) {before after : List Char}
    (hbefore : ∀ c ∈ before, Text.isBlank c = true) (hafter : ∀ c ∈ after, Text.isBlank c = true) :
    StandsFor locale (before ++ (cs ++ after)) a := by
  have hplain {ds : List Char} (hds : ∀ c ∈ ds, Text.isBlank c = true) : IsUnquoted ds :=
    ⟨fun hmem => absurd (hds _ hmem) (by decide), fun hmem => absurd (hds _ hmem) (by decide)⟩
  have hplaced (ds : List Char) : Text.placed false (before ++ (cs ++ after) ++ ds) =
      before.map (·, false) ++ (Text.placed false cs ++ (after.map (·, false) ++ Text.placed false ds)) := by
    rw [List.append_assoc, List.append_assoc, Text.placed_append (hplain hbefore).1, h.quotes,
      Text.placed_append (hplain hafter).1]
  have hwhole := hplaced []
  rw [List.append_nil, Text.placed, List.append_nil] at hwhole
  refine ⟨?_, fun ds => by rw [hplaced, hwhole]; simp only [List.append_assoc], fun hcolon hmem => ?_⟩
  · have htrim : Text.trim (String.ofList (before ++ (cs ++ after))) = Text.trim (String.ofList cs) := by
      refine String.toList_injective ?_
      rw [Text.toList_trim, Text.toList_trim, String.toList_ofList, String.toList_ofList,
        Text.trimChars_pad hbefore hafter]
    rw [← h.reads, ← parseReference_trim, htrim, parseReference_trim]
  · rw [hwhole] at hcolon
    rcases List.mem_append.1 hmem with hmem | hmem
    · exact (hplain hbefore).2 hmem
    · rcases List.mem_append.1 hmem with hmem | hmem
      · exact h.colon (fun hquoted => hcolon (List.mem_append_right _ (List.mem_append_left _ hquoted))) hmem
      · exact (hplain hafter).2 hmem

theorem StandsFor.append_left (h : StandsFor locale cs a) {blanks : List Char}
    (hblanks : ∀ c ∈ blanks, Text.isBlank c = true) : StandsFor locale (blanks ++ cs) a := by
  have hpadded := h.pad hblanks fun c (hc : c ∈ []) => absurd hc List.not_mem_nil
  rwa [List.append_nil] at hpadded

theorem StandsFor.append_right (h : StandsFor locale cs a) {blanks : List Char}
    (hblanks : ∀ c ∈ blanks, Text.isBlank c = true) : StandsFor locale (cs ++ blanks) a :=
  h.pad (fun c (hc : c ∈ []) => absurd hc List.not_mem_nil) hblanks

theorem isUnquoted_of_wordUnits (h : ∀ c ∈ cs, isWordUnit c.toNat = true) : IsUnquoted cs :=
  ⟨quote_not_mem h, fun hmem => absurd (h _ hmem) (by decide)⟩

theorem standsFor_word (hword : IsWord (String.ofList cs))
    (ha : referenceOfWord? (String.ofList cs) = some a) : StandsFor locale cs a := by
  have hframed := framed_of_bordered (bordered_word hword)
  have htrim : Text.trim (String.ofList cs) = String.ofList cs :=
    String.toList_injective (by rw [Text.toList_trim, hframed.trimChars_eq])
  have hreads : parseReference locale (String.ofList cs) = some a := by rw [parseReference_of_isWord hword htrim, ha]
  cases cs with
  | nil =>
    obtain ⟨c, ds, hfirst, -⟩ := hframed.first
    cases hfirst
  | cons c cs =>
    rcases shape_of_isWord hword with ⟨rfl, inner, after, rfl, hinner, hafter⟩ | ⟨hc, hstart, hall⟩
    · exact standsFor_quoted hinner (isUnquoted_of_wordUnits hafter) hreads
    · have hcs := isUnquoted_of_wordUnits hall
      refine IsUnquoted.standsFor ⟨?_, ?_⟩ hreads
      · simpa [hcs.1] using Ne.symm hc
      · have hcolon : c ≠ ':' := by
          rintro rfl
          cases hstart
        simpa [hcs.2] using Ne.symm hcolon

theorem standsFor_number (hi : locale.imaginary = 'i' ∨ locale.imaginary = 'j') {x : Float}
    (hx : IsNumber locale (cs.flatMap Text.unitsOfChar) x)
    (hm : ofRowNumber? x (some (Text.ofUnits (cs.flatMap Text.unitsOfChar))) p = some m) :
    StandsFor locale cs m.target := by
  have hunits : Text.units (String.ofList cs) = cs.flatMap Text.unitsOfChar := Text.units_ofList cs
  have hframed := framed_of_bordered (hunits ▸ bordered_number hx)
  have htrim : Text.trim (String.ofList cs) = String.ofList cs :=
    String.toList_injective (by rw [Text.toList_trim, hframed.trimChars_eq])
  obtain ⟨u, us, hus, hread⟩ := read_number true hi hx (by simp) stops_nil 0
  rw [List.append_nil] at hread
  have hplain (c : Char) (hc : c ∈ cs) : c ≠ '\x27' ∧ c ≠ ':' := by
    constructor <;> rintro rfl
    · have := hx.isNumberUnit 39 (List.mem_flatMap.2 ⟨_, hc, by decide⟩)
      unfold IsNumberUnit at this
      omega
    · have := hx.isNumberUnit 58 (List.mem_flatMap.2 ⟨_, hc, by decide⟩)
      unfold IsNumberUnit at this
      omega
  refine IsUnquoted.standsFor ⟨fun hmem => (hplain _ hmem).1 rfl, fun hmem => (hplain _ hmem).2 rfl⟩ ?_
  unfold parseReference
  rw [htrim, hunits]
  rw [hus] at hread hm ⊢
  simp only [hread, if_true, ofUnit?]
  rw [ofRowNumber?_eq x _ 0 p, hm]
  rfl

/-! ### What derivations deliver -/

theorem blank_of_space {c : Char} (h : isSpaceUnit c.toNat = true) :
    Text.isBlank c = true ∧ c ≠ '\x27' ∧ c.toNat < 0x10000 := by
  have hcode : c.toNat = 32 ∨ c.toNat = 9 ∨ c.toNat = 10 ∨ c.toNat = 13 ∨ c.toNat = 160 := by
    simpa [isSpaceUnit, or_assoc] using h
  refine ⟨?_, ?_, by omega⟩
  · simp only [Text.isBlank, Bool.or_eq_true, Bool.and_eq_true, decide_eq_true_eq, beq_iff_eq]
    omega
  · rintro rfl
    simp at hcode

/-- Where no parentheses are open a text starts, perhaps behind space, with the lexeme that delivers its first unit. -/
theorem Delivers.skip (hempty : ('(', false) ∉ Text.placed false cs)
    (h : Delivers locale first (cs.flatMap Text.unitsOfChar) (v :: vs) out) :
    ∃ blanks ds u us, cs = blanks ++ ds ∧ (∀ c ∈ blanks, Text.isBlank c = true) ∧ ('(', false) ∉ Text.placed false ds ∧
      ds.flatMap Text.unitsOfChar = u :: us ∧ isSpaceUnit u = false ∧ u ≠ 40 ∧
      Delivers locale first (u :: us) (v :: vs) out := by
  induction cs with
  | nil => cases h
  | cons c cs ih =>
    by_cases hspace : isSpaceUnit c.toNat = true
    · obtain ⟨hblank, hquote, hlt⟩ := blank_of_space hspace
      rw [List.flatMap_cons, Text.unitsOfChar_of_lt hlt, List.singleton_append] at h
      rw [Text.placed_cons hquote] at hempty
      obtain ⟨blanks, ds, u, us, rfl, hall, hrest⟩ := ih (List.not_mem_of_not_mem_cons hempty) (h.of_space hspace)
      exact ⟨c :: blanks, ds, u, us, rfl, List.forall_mem_cons.2 ⟨hblank, hall⟩, hrest⟩
    · have hstart : ∃ u us, (c :: cs).flatMap Text.unitsOfChar = u :: us ∧ isSpaceUnit u = false ∧ u ≠ 40 := by
        rw [List.flatMap_cons]
        by_cases hlt : c.toNat < 0x10000
        · rw [Text.unitsOfChar_of_lt hlt]
          refine ⟨_, _, rfl, by simpa using hspace, fun hcode => hempty ?_⟩
          obtain rfl : c = '(' := Char.toNat_inj.1 hcode
          exact List.mem_cons_self
        · rw [Text.unitsOfChar_of_le (by omega)]
          refine ⟨_, _, rfl, ?_, by omega⟩
          simp [isSpaceUnit]
          omega
      obtain ⟨u, us, hunits, hu, hparenthesis⟩ := hstart
      exact ⟨[], c :: cs, u, us, rfl, by simp, hempty, hunits, hu, hparenthesis, hunits ▸ h⟩

/-- A text without open parentheses that delivers nothing is space. -/
theorem Delivers.blank_of_nil (hempty : ('(', false) ∉ Text.placed false cs)
    (h : Delivers locale first (cs.flatMap Text.unitsOfChar) [] []) : ∀ c ∈ cs, Text.isBlank c = true := by
  induction cs with
  | nil => simp
  | cons c cs ih =>
    rw [List.flatMap_cons] at h
    have hunits : ∃ u us, Text.unitsOfChar c = u :: us ∧ (us ≠ [] → 0xD800 ≤ u) ∧ (us = [] → u = c.toNat) := by
      by_cases hlt : c.toNat < 0x10000
      · exact ⟨_, _, Text.unitsOfChar_of_lt hlt, by simp, fun _ => rfl⟩
      · exact ⟨_, _, Text.unitsOfChar_of_le (by omega), fun _ => by omega, by simp⟩
    obtain ⟨u, us, hc, hhigh, hlow⟩ := hunits
    rw [hc, List.cons_append] at h
    have hplain (hu : u < 0xD800) : us = [] ∧ u = c.toNat := by
      have hus : us = [] := by
        by_contra hus
        have := hhigh hus
        omega
      exact ⟨hus, hlow hus⟩
    cases h with
    | space _ p _ n _ _ _ hread hrest =>
      have hspace := space_of_read hread
      obtain ⟨rfl, rfl⟩ := hplain (by simp [isSpaceUnit] at hspace; omega)
      obtain ⟨hblank, hquote, -⟩ := blank_of_space hspace
      rw [read_space hspace] at hread
      obtain ⟨-, rfl⟩ := Prod.mk.inj hread
      rw [Text.placed_cons hquote] at hempty
      exact List.forall_mem_cons.2 ⟨hblank, ih (List.not_mem_of_not_mem_cons hempty) hrest⟩
    | blank =>
      obtain ⟨-, hcode⟩ := hplain (by omega)
      obtain rfl : '(' = c := Char.toNat_inj.1 hcode
      exact absurd List.mem_cons_self hempty

/-- No lexeme is a range. -/
theorem Delivers.not_range {r : RangeMention} (hspace : isSpaceUnit u = false) (hparenthesis : u ≠ 40) :
    ¬Delivers locale first (u :: us) (.range p r :: vs) out := by
  intro h
  cases h with
  | space _ _ _ _ _ _ _ hread => exact absurd (space_of_read hread) (by simp [hspace])
  | atom _ _ _ _ _ _ _ _ hread => cases atomAt_read hread
  | blank => exact hparenthesis rfl

/-- A colon that is delivered first stands in front. -/
theorem Delivers.of_colon (hspace : isSpaceUnit u = false) (hparenthesis : u ≠ 40)
    (h : Delivers locale first (u :: us) (.operator p ":" :: vs) out) : u = 58 ∧ Delivers locale false us vs out := by
  cases h with
  | space _ _ _ _ _ _ _ hread => exact absurd (space_of_read hread) (by simp [hspace])
  | atom _ _ _ _ _ _ _ _ hread => cases atomAt_read hread
  | operator _ _ _ _ k _ _ _ _ _ htake hrest =>
    unfold takeOperator at htake
    obtain ⟨symbol, hsymbol, htaken⟩ := Option.map_eq_some_iff.1 htake
    obtain ⟨rfl, rfl⟩ := Prod.mk.inj htaken
    have hfront := List.find?_some hsymbol
    have hcolon : Text.units ":" = [58] := by decide
    rw [hcolon] at hfront hrest
    obtain rfl : 58 = u := by simpa using hfront
    exact ⟨rfl, hrest⟩
  | blank => exact absurd rfl hparenthesis

/-- A number that is read is a number of the units in front. -/
theorem number_of_read (hi : locale.imaginary = 'i' ∨ locale.imaginary = 'j') {q : Nat} {x : Float}
    {spelling : Option String}
    (h : Lexeme.read locale first p u us = (.atom (.literal q (.number x) spelling) none, n)) :
    ∃ ws, u :: us = ws ++ us.drop n ∧ IsNumber locale ws x ∧ spelling = some (Text.ofUnits ws) := by
  unfold Lexeme.read at h
  split at h
  · cases h
  split at h
  · cases h
  split at h
  · rename_i hstarts
    have hnumber : (number locale p (u :: us)).1 = .literal q (.number x) spelling :=
      (Lexeme.atom.inj (Prod.mk.inj h).1).1
    have hn : (number locale p (u :: us)).2 - 1 = n := (Prod.mk.inj h).2
    rcases number_cases hi (startsNumber_signed hstarts).1 p with ⟨ws, rest, y, hus, hy, hread⟩ | ⟨y, _, k, hread⟩
    · rw [hread] at hnumber hn
      obtain ⟨-, ⟨⟩, rfl⟩ := Expression.literal.inj hnumber
      cases ws with
      | nil => exact absurd (bordered_number hy).first (by simp)
      | cons w ws =>
        rw [List.cons_append] at hus
        obtain ⟨rfl, rfl⟩ := List.cons.inj hus
        refine ⟨u :: ws, ?_, hy, rfl⟩
        rw [← hn, List.length_cons, Nat.add_sub_cancel, List.drop_left, List.cons_append]
    · rw [hread] at hnumber
      cases hnumber
  split at h
  · cases h
  split at h
  · rename_i hstart
    obtain ⟨-, ⟨b, hb⟩ | ⟨-, hatom⟩⟩ := word_front h hstart
    · cases hb
    · unfold wordAtom at hatom
      split at hatom <;> cases hatom
  · cases h

/-- A mention that is delivered first stands in front, as the text of what it names. -/
theorem Delivers.of_mention (hi : locale.imaginary = 'i' ∨ locale.imaginary = 'j')
    (hm : v = .cell m ∨ ofUnit? v = some m) (hspace : isSpaceUnit u = false) (hparenthesis : u ≠ 40)
    (hcs : cs.flatMap Text.unitsOfChar = u :: us) (h : Delivers locale first (u :: us) (v :: vs) out) :
    ∃ ds es, cs = ds ++ es ∧ StandsFor locale ds m.target ∧
      Delivers locale false (es.flatMap Text.unitsOfChar) vs out := by
  have hnot {w : Expression} (hw : ofUnit? w = none) (hcell : ∀ k, w ≠ .cell k) : v ≠ w := by
    rintro rfl
    rcases hm with hm | hm
    · exact hcell m hm
    · rw [hw] at hm
      cases hm
  generalize hall : v :: vs = all at h
  cases h with
  | nil => cases hall
  | space _ _ _ _ _ _ _ hread => exact absurd (space_of_read hread) (by simp [hspace])
  | atom _ p _ n _ e _ _ hread hrest =>
    obtain ⟨rfl, rfl⟩ := List.cons.inj hall
    rcases read_inversion hread with ⟨q, x, spelling, rfl⟩ | ⟨q, y, spelling, rfl⟩ | ⟨hstart, hword⟩
    · have hunit := hm.resolve_left (by simp)
      unfold ofUnit? at hunit
      split at hunit
      · rename_i heq
        obtain ⟨rfl, rfl, rfl⟩ := Expression.literal.inj heq
        obtain ⟨ws, hws, hx, rfl⟩ := number_of_read hi hread
        have hlast (w : Nat) (hw : w ∈ ws.getLast?) : w < 0xD800 := by
          have := hx.isNumberUnit w (List.mem_of_getLast? hw)
          unfold IsNumberUnit at this
          omega
        obtain ⟨ds, es, rfl, rfl, hes⟩ := Text.split_flatMap (hcs.trans hws) hlast
        exact ⟨ds, es, rfl, standsFor_number hi hx hunit, hes ▸ hrest⟩
      · rename_i heq
        cases heq
      · cases hunit
    · exact absurd rfl (hnot rfl (by simp))
    · obtain ⟨hlength, ⟨b, rfl⟩ | ⟨hname, rfl⟩⟩ := word_front hword hstart
      · exact absurd rfl (hnot rfl (by simp))
      · have hspans := spans_take (u == unitOf '\x27') us
        rw [hlength] at hspans
        have hlast (w : Nat) (hw : w ∈ (u :: us.take n).getLast?) : w < 0xD800 := by
          by_cases htake : us.take n = []
          · rw [htake] at hw
            obtain rfl : u = w := Option.some.inj hw
            exact lt_of_isWordStart hstart
          · obtain ⟨k, hk, hsolid⟩ := isSolid_of_spans hspans htake
            rw [List.getLast?_cons_of_ne_nil htake] at hw
            obtain rfl := Option.some.inj (hk.symm.trans hw)
            have := hsolid.2.1
            omega
        have hsplit : cs.flatMap Text.unitsOfChar = (u :: us.take n) ++ us.drop n := by
          rw [hcs, List.cons_append, List.take_append_drop]
        obtain ⟨ds, es, rfl, hds, hes⟩ := Text.split_flatMap hsplit hlast
        have htext : Text.ofUnits (u :: us.take n) = String.ofList ds := by
          rw [← hds, Text.ofUnits, Text.charsOfUnits_flatMap]
        rw [htext] at hname hm
        exact ⟨ds, es, rfl, standsFor_word hname (referenceOfWord?_of_wordAtom hm), hes ▸ hrest⟩
  | operator =>
    obtain ⟨rfl, rfl⟩ := List.cons.inj hall
    exact absurd rfl (hnot rfl (by simp))
  | group | blank => exact absurd rfl hparenthesis
  | call | array =>
    obtain ⟨rfl, rfl⟩ := List.cons.inj hall
    exact absurd rfl (hnot rfl (by simp))

/-! ### Formulas that are one reference -/

/-- A mention that is delivered first, with the space before it. -/
theorem Delivers.standsFor (hi : locale.imaginary = 'i' ∨ locale.imaginary = 'j')
    (hm : v = .cell m ∨ ofUnit? v = some m) (hempty : ('(', false) ∉ Text.placed false cs)
    (h : Delivers locale first (cs.flatMap Text.unitsOfChar) (v :: vs) out) :
    ∃ ds es, cs = ds ++ es ∧ StandsFor locale ds m.target ∧ ('(', false) ∉ Text.placed false es ∧
      Delivers locale false (es.flatMap Text.unitsOfChar) vs out := by
  obtain ⟨blanks, rest, u, us, rfl, hblanks, hempty', hunits, hspace, hparenthesis, h⟩ := h.skip hempty
  obtain ⟨ds, es, rfl, hds, hrest⟩ := h.of_mention hi hm hspace hparenthesis hunits
  refine ⟨blanks ++ ds, es, by rw [List.append_assoc], hds.append_left hblanks, fun hmem => hempty' ?_, hrest⟩
  rw [hds.quotes]
  exact List.mem_append_right _ hmem

/-- The text of one mention. -/
theorem Delivers.standsFor_whole (hi : locale.imaginary = 'i' ∨ locale.imaginary = 'j')
    (hm : v = .cell m ∨ ofUnit? v = some m) (hempty : ('(', false) ∉ Text.placed false cs)
    (h : Delivers locale first (cs.flatMap Text.unitsOfChar) [v] []) : StandsFor locale cs m.target := by
  obtain ⟨ds, es, rfl, hds, hempty', hrest⟩ := h.standsFor hi hm hempty
  exact hds.append_right (hrest.blank_of_nil hempty')

/-- The text of two mentions around a colon. -/
theorem Delivers.standsFor_halves (hi : locale.imaginary = 'i' ∨ locale.imaginary = 'j') {w : Expression} {k : Mention}
    (hm : v = .cell m ∨ ofUnit? v = some m) (hk : w = .cell k ∨ ofUnit? w = some k)
    (hempty : ('(', false) ∉ Text.placed false cs)
    (h : Delivers locale first (cs.flatMap Text.unitsOfChar) [v, .operator p ":", w] []) :
    ∃ ds es, cs = ds ++ ':' :: es ∧ StandsFor locale ds m.target ∧ StandsFor locale es k.target := by
  obtain ⟨ds, rest, rfl, hds, hempty', hrest⟩ := h.standsFor hi hm hempty
  obtain ⟨blanks, rest', u, us, rfl, hblanks, hempty'', hunits, hspace, hparenthesis, hcolon⟩ := hrest.skip hempty'
  obtain ⟨rfl, hlast⟩ := hcolon.of_colon hspace hparenthesis
  have hfirst : rest'.flatMap Text.unitsOfChar = [58] ++ us := hunits
  obtain ⟨colon, es, rfl, hfront, rfl⟩ := Text.split_flatMap hfirst (by simp)
  obtain rfl : colon = [':'] := by
    have := congrArg Text.charsOfUnits hfront
    rwa [Text.charsOfUnits_flatMap] at this
  rw [List.singleton_append, Text.placed_cons (by decide)] at hempty''
  exact ⟨ds ++ blanks, es, by simp, hds.append_right hblanks,
    hlast.standsFor_whole hi hk (List.not_mem_of_not_mem_cons hempty'')⟩

variable {text : String}

/-- The text of a formula without open parentheses that is one reference is the text of the reference, or the text of
two of them around a colon. -/
theorem standsFor_of_parse (hi : locale.imaginary = 'i' ∨ locale.imaginary = 'j')
    (herror : (parse locale text).error = none) (he : (parse locale text).expression = some e)
    (hequals : (Text.trimChars text.toList).head? ≠ some '=') (hempty : ('(', false) ∉ Text.placed false text.toList) :
    (∀ m, e = .cell m → StandsFor locale text.toList m.target) ∧
    ∀ p r, e = .range p r → ∃ ds es, text.toList = ds ++ ':' :: es ∧ StandsFor locale ds r.first.target ∧
      StandsFor locale es r.last.target := by
  have hbody : (body text).toList = Text.trimChars text.toList := by
    refine toList_body_of_ne text fun rest hrest => hequals ?_
    rw [hrest]
    rfl
  have hclosed := closes_of_parse hi herror he
  rw [Text.units, hbody] at hclosed
  obtain ⟨before, after, hpad, hbefore, hafter⟩ := Text.exists_pad text.toList
  have hinner : ('(', false) ∉ Text.placed false (Text.trimChars text.toList) := by
    obtain ⟨quoted, hfront⟩ := Text.placed_front false (Text.trimChars text.toList) after
    rw [hpad, Text.placed_append fun hmem => absurd (hbefore _ hmem) (by decide), hfront] at hempty
    exact fun hmem => hempty (List.mem_append_right _ (List.mem_append_left _ hmem))
  generalize Text.trimChars text.toList = cs at hclosed hpad hinner
  rw [hpad]
  cases hclosed with
  | some _ _ vs ws _ _ hdelivered _ hpieces htree =>
    rw [List.nil_append] at hpieces
    constructor
    · rintro m rfl
      obtain rfl := Arrange.eq_singleton_of_tree htree rfl (by simp)
      obtain ⟨vs, rfl, hrest⟩ := hpieces.of_plain rfl
      obtain rfl := hrest.of_nil
      exact (hdelivered.standsFor_whole hi (.inl rfl) hinner).pad hbefore hafter
    · rintro p r rfl
      obtain rfl := Arrange.eq_singleton_of_tree htree rfl (by simp)
      rcases hpieces.of_range with ⟨vs, rfl, -⟩ | ⟨q, a, b, log, log', vs, rfl, hrange, hrest⟩
      · obtain ⟨_, _, _, _, _, _, _, _, hspace, hparenthesis, h⟩ := hdelivered.skip hinner
        exact absurd h (Delivers.not_range hspace hparenthesis)
      · obtain rfl := hrest.of_nil
        obtain ⟨m, k, rfl, hm, hk⟩ := mentions_of_range hrange
        obtain ⟨ds, es, rfl, hds, hes⟩ := hdelivered.standsFor_halves hi hm hk hinner
        exact ⟨before ++ ds, es ++ after, by simp, hds.append_left hbefore, hes.append_right hafter⟩

end

end Formula

end Spreadsheet
